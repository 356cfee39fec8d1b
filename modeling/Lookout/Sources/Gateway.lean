-- SUMMARY: The gateway source: failing conditions of Gateways and HTTPRoutes, the sweep and its clearance.
import Lookout.Emit.Sanitize
import Lookout.Sources.Objects

/-!
# Gateway source

The source keeps, for every Gateway and HTTPRoute, which kinds of failure its conditions
report now and since when. A failure that lasts longer than the grace is signalled once.
A sweep signals the failures that outlasted the grace in the meantime and drops what no
event has touched for the time of `StateTTL`.

The objects here have their conditions parsed from the unstructured form.
-/

namespace Lookout.Sources.Gateway

open Engine
open Emit (decimal)

/-! ## Objects -/

/-- A condition of an object. The time of its last transition is none if it is absent or
    does not parse. -/
structure Condition where
  type : GoString
  status : GoString
  reason : GoString := []
  message : GoString := []
  observedGeneration : Option Int := none
  lastTransitionTime : Option Int := none
  deriving DecidableEq, Repr

/-- The status of an object: the conditions and listeners of a Gateway, or the parents of
    an HTTPRoute. -/
inductive Status where
  | gateway (conditions : List Condition) (listeners : List (GoString × List Condition))
  | httpRoute (parents : List (List Condition))
  deriving DecidableEq, Repr

inductive Resource where
  | gateway
  | httpRoute
  deriving DecidableEq, Repr

structure Object where
  uid : UID
  ns : GoString
  name : GoString
  generation : Int := 0
  status : Status
  deriving DecidableEq, Repr

def Object.resource (o : Object) : Resource :=
  match o.status with
  | .gateway _ _ => .gateway
  | .httpRoute _ => .httpRoute

/-- The name of an object in the caches of the source's informers. -/
def Object.key (o : Object) : Resource × ObjectName := (o.resource, ⟨o.ns, o.name⟩)

/-! ## Conditions -/

/-- The kinds of signal. -/
inductive Kind where
  | programmingFailed
  | routeRejected
  deriving DecidableEq, Repr

/-- `reasonOf` -/
def Kind.reason : Kind → GoString
  | .programmingFailed => bytes "programming_failed"
  | .routeRejected => bytes "route_rejected"

/-- `failure` -/
structure Failure where
  since : Int
  detail : GoString
  fired : Bool := false
  deriving DecidableEq, Repr

def conditionKind (type : GoString) : Option Kind :=
  if type = bytes "Programmed" then some .programmingFailed
  else if type = bytes "Accepted" ∨ type = bytes "ResolvedRefs" then some .routeRejected
  else none

/-- `failingCondition`: a condition that is false, for a reason other than being in
    progress, and not about an older generation. -/
def failingCondition (gen : Int) (scope : GoString) (now : Int) (c : Condition) :
    Option (Kind × Failure) :=
  (conditionKind c.type).bind fun kind =>
    if c.status ≠ bytes "False" || c.reason = bytes "Pending" then none
    else if c.observedGeneration.any (fun og => og ≠ 0 && og < gen) then none
    else
      let detail := c.type ++ bytes "=False"
      let detail := if c.reason = [] then detail
        else detail ++ bytes " (" ++ c.reason ++ bytes ")"
      let detail := if scope = [] then detail else scope ++ bytes " " ++ detail
      let detail := if c.message = [] then detail else detail ++ bytes ": " ++ c.message
      some (kind, ⟨c.lastTransitionTime.getD now, detail, false⟩)

/-- The failures an object reports, by kind. -/
abbrev Failing : Type := Kind → Option Failure

/-- `add`: one more failing condition of a kind. -/
def addFailure (out : Failing) (p : Kind × Failure) : Failing :=
  Function.update out p.1 <| some <| match out p.1 with
    | none => p.2
    | some f =>
      { since := if p.2.since < f.since then p.2.since else f.since
        detail := f.detail ++ bytes "; " ++ p.2.detail }

/-- The conditions of an object with the scope each one is reported under. -/
def Status.scoped : Status → List (GoString × Condition)
  | .gateway conditions listeners =>
    conditions.map (([] : GoString), ·) ++ listeners.flatMap fun (name, conditions) =>
      let scope := if name = [] then bytes "listener" else bytes "listener/" ++ name
      conditions.map (scope, ·)
  | .httpRoute parents =>
    parents.zipIdx.flatMap fun (conditions, i) =>
      conditions.map (bytes "parent[" ++ decimal i ++ bytes "]", ·)

/-- `evaluate` -/
def evaluate (o : Object) (now : Int) : Failing :=
  (o.status.scoped.filterMap fun (scope, c) =>
    failingCondition o.generation scope now c).foldl addFailure fun _ => none

/-! ## The source -/

structure Config where
  grace : Int := 0
  stateTTL : Int := 0

def defaultConfig : Config where
  grace := 5 * minute
  stateTTL := 24 * hour

def Config.normalize (c : Config) : Config where
  grace := if c.grace ≤ 0 then defaultConfig.grace else c.grace
  stateTTL := if c.stateTTL ≤ 0 then defaultConfig.stateTTL else c.stateTTL

/-- `objState` -/
structure ObjState where
  kindOf : Resource
  ns : GoString
  name : GoString
  uid : UID
  failing : Failing := fun _ => none
  recovered : Kind → Option Int := fun _ => none
  lastSeen : Int := 0

structure Source where
  cfg : Config
  armed : Bool := false
  state : Map UID ObjState := ∅

def new (cfg : Config) : Source := { cfg := cfg.normalize }

/-- What `signal` composes a signal from. -/
structure Fired where
  kind : Kind
  kindOf : Resource
  ns : GoString
  name : GoString
  uid : UID
  since : Int
  detail : GoString
  now : Int
  deriving DecidableEq, Repr

/-- The failure of a kind that is due to be signalled. -/
def dueFailure (cfg : Config) (now : Int) (st : ObjState) (kind : Kind) : Option Failure :=
  (st.failing kind).filter fun f => !f.fired && !(Engine.since now f.since < cfg.grace)

/-- The latches of an object after its due failures were signalled. -/
def latch (cfg : Config) (now : Int) (st : ObjState) : ObjState :=
  { st with
    failing := fun kind => (st.failing kind).map fun f =>
      { f with fired := f.fired || (dueFailure cfg now st kind).isSome } }

/-- The signals of one object. -/
def firedOf (cfg : Config) (now : Int) (st : ObjState) : List Fired :=
  [Kind.programmingFailed, .routeRejected].filterMap fun kind =>
    (dueFailure cfg now st kind).map fun f =>
      { kind := kind, kindOf := st.kindOf, ns := st.ns, name := st.name, uid := st.uid
        since := f.since, detail := f.detail, now := now }

/-- The merge of what an object reports now into what is kept of it. -/
def merge (failing : Failing) (now : Int) (st : ObjState) : ObjState :=
  { st with
    failing := fun kind => match failing kind, st.failing kind with
      | some f, some cur => some { cur with since := f.since, detail := f.detail }
      | some f, none => some f
      | none, _ => none
    recovered := fun kind => match failing kind, st.failing kind with
      | some _, some _ => st.recovered kind
      | some _, none => none
      | none, some _ => some now
      | none, none => st.recovered kind }

namespace Source

/-- `fireableLocked`: every object in the order of the uids. -/
def fireableLocked (now : Int) (s : Source) : Source × List Fired :=
  if !s.armed then (s, [])
  else
    ({ s with state := Map.mapVals (latch s.cfg now) s.state },
      (Map.sortedKeys s.state).flatMap fun uid =>
        ((s.state.lookup uid).map (firedOf s.cfg now)).getD [])

def onObject (now : Int) (o : Object) (s : Source) : Source × List Fired :=
  let st := (s.state.lookup o.uid).getD
    { kindOf := o.resource, ns := o.ns, name := o.name, uid := o.uid }
  let st := merge (evaluate o now) now { st with ns := o.ns, name := o.name, lastSeen := now }
  { s with state := s.state.insert o.uid st }.fireableLocked now

def onDelete (o : Object) (s : Source) : Source := { s with state := s.state.erase o.uid }

/-- `sweep` -/
def sweep (now : Int) (s : Source) : Source × List Fired :=
  let (s, out) := s.fireableLocked now
  let cutoff := now - s.cfg.stateTTL
  ({ s with state := Map.filter (fun _ st => !(st.lastSeen < cutoff)) s.state }, out)

/-- `clearance.Clearance` -/
def clearance (s : Source) (inc : Incident) : Option Clearance :=
  let judge (kind : Kind) : Option Clearance :=
    if !s.armed then none
    else match s.state.lookup inc.key.uid with
      | none => some objectGone
      | some st =>
        if (st.failing kind).isSome then some held
        else some ⟨true, (st.recovered kind).getD 0, .recovered⟩
  if inc.key.reason = Kind.reason .programmingFailed then judge .programmingFailed
  else if inc.key.reason = Kind.reason .routeRejected then judge .routeRejected
  else none

end Source

end Lookout.Sources.Gateway
