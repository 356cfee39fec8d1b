-- SUMMARY: The agent sink, and the dispatcher's state and session mechanics: open, bind, fold and reattach.
import Lookout.Engine.Dedup
import Lookout.Engine.Recovery
import Lookout.Engine.Storm

/-!
# Dispatcher

The dispatcher joins the stages of the pipeline: the dedup cache, the storm correlator, the
recovery tracker and the watchboard, and it owns the sessions. The binding of an incident's
key to a session lives in the dedup cache. A handler runs to its end before the next one
starts. In the source handlers of different incidents overlap while they wait for the sink,
but each of them holds the lock of its incident or storm.

The agent is reached through a sink, which opens an incident or appends a payload to one
that is open. It may also open an empty session, which the watchboard uses. The receiver is
outside of this development. A sink is a function that answers a call from the calls that
were made before, so a result about every sink is a result about every receiver.
-/

namespace Lookout.Watch

open Engine

/-! ## Payloads -/

/-- `IncidentKeyKind`. -/
inductive IncidentKeyKind where
  | incident
  | storm
  | watchboard
  deriving DecidableEq, Repr

/-- `IncidentKey`: the identity under which a keyed sink places an incident. -/
structure IncidentKey where
  cluster : GoString
  kind : IncidentKeyKind
  id : GoString := []
  deriving DecidableEq, Repr

/-- `boardEntry`: a warning that waits for the next digest. -/
structure BoardEntry where
  sig : Signal
  count : Nat
  deriving DecidableEq, Repr

/-- The payloads of the wire, with what they are composed from. -/
inductive Payload where
  | incident (sig : Signal) (count : Nat)
  | followup (sig : Signal) (count repeatCount : Nat)
  | regressed (sig : Signal) (baseline count : Nat)
  | familyMember (sig : Signal) (family openedBy sessionID : GoString)
  | storm (info : StormInfo)
  | stormMember (member : StormMember) (info : StormInfo)
  | stormSuperseded (member : StormMember) (info : StormInfo)
  | stormUpdate (update : StormSizeUpdate) (info : StormInfo)
  | outcome (out : Outcome)
  | stormResolved (info : StormInfo) (recovery : Recovery)
  | digest (generation sequence : Nat) (windowStart windowEnd : Int) (entries : List BoardEntry)
  | rotated (generation : Nat) (successor : GoString) (injects : Nat) (rotatedAt : Int)
  deriving DecidableEq, Repr

def kindResolved : GoString := bytes "resolved"

def kindResolvedReverted : GoString := bytes "resolved.reverted"

/-- The `kind` field of a payload. A storm closes with an outcome record of its own. -/
def Payload.kind : Payload → GoString
  | .incident sig _ => sig.kind
  | .followup sig _ _ => if sig.kind = kindK8sEvent then kindK8sEventFollowup else sig.kind
  | .regressed .. => bytes "triage.regressed"
  | .familyMember .. => bytes "family.member"
  | .storm .. => kindStorm
  | .stormMember .. => bytes "storm.member"
  | .stormSuperseded .. => bytes "storm.member_superseded"
  | .stormUpdate .. => bytes "storm.update"
  | .outcome out => match out.kind with
    | .resolved => kindResolved
    | .reverted => kindResolvedReverted
  | .stormResolved .. => kindResolved
  | .digest .. => bytes "watchboard.digest"
  | .rotated .. => bytes "watchboard.rotated"

/-! ## Calls -/

/-- The answer to an open. An id with a failure is an open whose first payload was lost. -/
structure OpenReply where
  sessionID : GoString
  failed : Bool := false
  deriving DecidableEq, Repr

/-- The answer to an append. `gone` is the status 404 or 410 that `sessionGone` tests. -/
inductive AppendReply where
  | delivered
  | gone
  | failed
  deriving DecidableEq, Repr

/-- A call of the sink with its answer. -/
inductive Call where
  | openIncident (key : IncidentKey) (payload : Payload) (reply : OpenReply)
  | createSession (reply : Option GoString)
  | append (sessionID : GoString) (payload : Payload) (reply : AppendReply)
  deriving DecidableEq, Repr

/-- `Sink`, with the optional capability to open an empty session. -/
structure Sink where
  openIncident : List Call → IncidentKey → Payload → OpenReply
  createSession : Option (List Call → Option GoString) := none
  append : List Call → GoString → Payload → AppendReply

/-- The sink never answers that a session is gone. -/
def Sink.Lasting (s : Sink) : Prop := ∀ calls sid payload, s.append calls sid payload ≠ .gone

/-! ## State and sessions -/

/-- `--mode`. -/
inductive Mode where
  | perIncident
  | shared
  deriving DecidableEq, Repr

/-- `ObjectRef`: the object that the topology index is asked about. -/
structure ObjectRef where
  kind : GoString
  ns : GoString
  name : GoString
  deriving DecidableEq, Repr

/-- What is fixed for the lifetime of a dispatcher. `routing` and `resolver` say whether
    there is a routing policy and a topology index. -/
structure Setup where
  mode : Mode
  dryRun : Bool := false
  targetSid : GoString := []
  cluster : GoString := []
  routing : Bool := true
  resolver : Bool := false

/-- `watchboard`, with the thresholds it was configured with. -/
structure Watchboard where
  batch : Int
  flushInterval : Int
  rotateAfter : Int
  sid : GoString := []
  generation : Nat := 0
  injects : Nat := 0
  buffer : List BoardEntry := []
  opened : Int := 0
  deriving DecidableEq, Repr

/-- `dispatcher`, with the outcomes that ticks have emitted and nobody has dispatched
    yet, and with the calls it has made. -/
structure Dispatcher extends Setup where
  dedup : DedupCache
  tracker : Option RecoveryTracker := none
  storm : Option StormCorrelator := none
  board : Option Watchboard := none
  outbox : List Outcome := []
  sent : List Call := []

/-- What a handler meets outside of the dispatcher: the clock, the sink, the answers of
    the topology index, and the orders in which its loops visit the maps. -/
structure Env where
  now : Int
  sink : Sink
  ancestors : ObjectRef → List Ancestor
  fleet : Option Int
  loops : Loops
  tracked : Map.Walk EventKey
  siblings : Map.Walk EventKey
  group : Map.Walk EventKey
  storms : Map.Walk GoString

namespace Dispatcher

variable (env : Env) (sig : Signal) (key : EventKey) (count : Nat)

/-- The open check of the cache: what the tracker says, and no without one. -/
def isOpen (d : Dispatcher) (key : EventKey) : Bool := d.tracker.any fun t => t.isOpen key

def onDedup (f : DedupCache → DedupCache) (d : Dispatcher) : Dispatcher :=
  { d with dedup := f d.dedup }

def onStorm (f : StormCorrelator → StormCorrelator) (d : Dispatcher) : Dispatcher :=
  { d with storm := d.storm.map f }

def track (inc : Incident) (d : Dispatcher) : Dispatcher :=
  { d with tracker := d.tracker.map fun t => t.track env.tracked env.now inc }

/-- Append a payload to a session. -/
def append (sid : GoString) (payload : Payload) (d : Dispatcher) : Dispatcher × AppendReply :=
  let reply := env.sink.append d.sent sid payload
  ({ d with sent := d.sent ++ [.append sid payload reply] }, reply)

/-- `openSession`: the new session and whether its first payload was lost, none when
    there is no session. -/
def openSession (key : IncidentKey) (payload : Payload) (d : Dispatcher) :
    Dispatcher × Option (GoString × Bool) :=
  let reply := env.sink.openIncident d.sent key payload
  let d := { d with sent := d.sent ++ [.openIncident key payload reply] }
  if reply.sessionID = [] then (d, none) else (d, some (reply.sessionID, reply.failed))

/-- `incidentKey`. -/
def incidentKey (d : Dispatcher) (k : EventKey) : IncidentKey :=
  { cluster := d.cluster, kind := .incident, id := k.uid ++ bytes "/" ++ k.reason }

/-- `stormKey`. -/
def stormKey (d : Dispatcher) (a : Ancestor) : IncidentKey :=
  { cluster := d.cluster, kind := .storm, id := a.key }

/-- `opensSessions`: the signal's class routes to a session of its own. -/
def opensSessions (d : Dispatcher) (sig : Signal) : Bool :=
  d.mode = .perIncident ∧ (d.routing = false ∨ routeFor sig.severity ≠ .store) ∧
    (d.board = none ∨ routeFor sig.severity ≠ .watchboard)

/-! ## Ancestor keys -/

/-- `reattachAncestorKinds`. -/
def reattachAncestorKinds : List GoString :=
  [bytes "Node", bytes "Deployment", bytes "ReplicaSet", bytes "StatefulSet", bytes "DaemonSet",
   bytes "Job", bytes "CronJob", bytes "ConfigMap", bytes "Secret", bytes "PersistentVolumeClaim"]

/-- `declaredAncestorKinds`. -/
def declaredAncestorKinds : List GoString := [bytes "Certificate"]

/-- `siblingOwnerKinds`. -/
def siblingOwnerKinds : List GoString :=
  [bytes "Deployment", bytes "ReplicaSet", bytes "StatefulSet", bytes "DaemonSet", bytes "Job",
   bytes "CronJob"]

/-- `declaredAncestorKeys`: the owner the signal names, then the object itself. -/
def declaredAncestorKeys : List GoString :=
  let owner := (cut sig.controllerRef).bind fun (kind, name) =>
    if kind ∈ declaredAncestorKinds ∧ name ≠ [] then
      some (Ancestor.key { kind := kind, ns := sig.ns, name := name })
    else none
  let self := if sig.kindOfObject ∈ declaredAncestorKinds ∧ sig.name ≠ [] then
      some (Ancestor.key { kind := sig.kindOfObject, ns := sig.ns, name := sig.name })
    else none
  owner.toList ++ self.toList

/-- `workloadOwnerKey`. -/
def workloadOwnerKey : Option GoString :=
  (cut sig.controllerRef).bind fun (kind, name) =>
    if kind ∉ siblingOwnerKinds ∨ name = [] ∨ sig.ns = [] then none
    else some (Ancestor.key { kind := kind, ns := sig.ns, name := name })

/-- The answer of the topology index for the signal's object. -/
def topology (d : Dispatcher) : List Ancestor :=
  if d.resolver then env.ancestors ⟨sig.kindOfObject, sig.ns, sig.name⟩ else []

/-- Add the workload owner that the signal declares, unless it is there already. -/
def withWorkloadOwner (keys : List GoString) : List GoString :=
  match workloadOwnerKey sig with
  | none => keys
  | some k => if k ∈ keys then keys else keys ++ [k]

/-- `ancestorKeysFor`. -/
def ancestorKeysFor (d : Dispatcher) : List GoString :=
  withWorkloadOwner sig (declaredAncestorKeys sig ++
    ((d.topology env sig).filter fun a => a.kind ∈ reattachAncestorKinds).map Ancestor.key)

/-- The keys that `foldSibling` looks for a sibling under. -/
def siblingKeysFor (d : Dispatcher) : List GoString :=
  withWorkloadOwner sig
    (((d.topology env sig).filter fun a => a.kind ∈ siblingOwnerKinds).map Ancestor.key)

/-! ## Incident sessions -/

/-- Bind the incident to a session and have it tracked. -/
def bindAndTrack (sid : GoString) (sig : Signal) (d : Dispatcher) : Dispatcher :=
  (d.onDedup (·.bindIncident key sid sig.incidentRef)).track env
    ⟨key, sid, sig.firstSeen, sig.incidentRef⟩

/-- `recordBoundSession`. -/
def recordBoundSession (sid : GoString) (sig : Signal)
    (noteStorm : Bool) (d : Dispatcher) : Dispatcher :=
  let keys := d.ancestorKeysFor env sig
  let d := d.onDedup (·.bindIncident key sid sig.incidentRef)
  let d := d.onDedup (·.noteAncestors key keys)
  let d := if noteStorm then d.onStorm (·.noteMemberSession key sid) else d
  d.track env ⟨key, sid, sig.firstSeen, sig.incidentRef⟩

/-- `foldSibling`: whether the incident went into the session of a sibling. -/
def foldSibling (d : Dispatcher) : Dispatcher × Bool :=
  let cands := d.siblingKeysFor env sig
  match d.dedup.sessionForSibling env.now env.siblings key sig.kind cands with
  | (cache, none) => ({ d with dedup := cache }, false)
  | (cache, some (sid, matched)) =>
    let d := { d with dedup := cache }
    match d.append env sid (.familyMember sig matched (DedupCache.sourceFamily sig.kind) sid) with
    | (d, .delivered) => (d.bindAndTrack env key sid sig, true)
    | (d, _) => (d, false)

/-- Open a session for the incident and bind it. The session is bound even when its
    first payload was lost, and the next occurrence sends that again. -/
def openIncident (restamp : Bool) (d : Dispatcher) : Dispatcher :=
  match d.openSession env (d.incidentKey key) (.incident sig count) with
  | (d, none) => d
  | (d, some (sid, failed)) =>
    let d := if restamp then d.onDedup (·.noteIncidentKind key sig.kind) else d
    let d := d.recordBoundSession env key sid sig true
    if failed then d.onDedup (·.markUndelivered key .open) else d

/-- `dispatchPerIncidentOpen`. -/
def dispatchPerIncidentOpen (d : Dispatcher) : Dispatcher :=
  match d.foldSibling env sig key with
  | (d, true) =>
    match d.dedup.lookupSession key with
    | some sid => d.recordBoundSession env key sid sig false
    | none => d
  | (d, false) => d.openIncident env sig key count false

/-- `retryIncidentOpen`: the open of an incident whose first open failed. -/
def retryIncidentOpen (d : Dispatcher) : Dispatcher :=
  match d.dedup.lookupSession key with
  | some _ => d
  | none => d.openIncident env sig key count true

/-- `dispatchSharedOrDryRun`. -/
def dispatchSharedOrDryRun (d : Dispatcher) : Dispatcher :=
  let d := d.track env ⟨key, d.targetSid, sig.firstSeen, sig.incidentRef⟩
  if d.dryRun then d else (d.append env d.targetSid (.incident sig count)).1

/-- `bindWatchboardIncident`: bind a digested warning, unless it has a home already. -/
def bindWatchboardIncident (sid : GoString) (d : Dispatcher) (sig : Signal) : Dispatcher :=
  match d.dedup.lookupSession sig.canonicalKey with
  | some _ => d
  | none => d.bindAndTrack env sig.canonicalKey sid sig

/-- `reattachWatchboardEntry`: whether the warning went into the session of an incident
    that shares an ancestor with it. -/
def reattachWatchboardEntry (d : Dispatcher) : Dispatcher × Bool :=
  let key := sig.canonicalKey
  let family := DedupCache.sourceFamily sig.kind
  if d.resolver = false ∨ d.dedup.lookupSession key ≠ none then (d, false)
  else
    match d.dedup.sessionForAncestors env.siblings key (d.ancestorKeysFor env sig) family with
    | (cache, none) => ({ d with dedup := cache }, false)
    | (cache, some (sid, matched)) =>
      let d := { d with dedup := cache }
      if d.dryRun then (d.bindAndTrack env key sid sig, true)
      else
        match d.append env sid (.familyMember sig matched family sid) with
        | (d, .delivered) => (d.bindAndTrack env key sid sig, true)
        | (d, _) => (d, false)

end Dispatcher

end Lookout.Watch
