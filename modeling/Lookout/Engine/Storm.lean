-- SUMMARY: The storm correlator: windowed incidents, open storms, formation, attachment and all-clear.
import Lookout.Engine.Signal
import Lookout.Lib.Sha256
import Mathlib.Data.Finset.Card

/-!
# Storm correlator

New incidents that share an ancestor within a short window are collected into one
storm. The correlator keeps the incidents of the window, the open storms, and the
storm each member belongs to. Members of an open storm clear one by one, and the
storm is closed when the last of them has cleared.

The topology index is another component. An observation takes the ancestors it
answers and the fleet size it knows as arguments.
-/

namespace Lookout.Engine

/-! ## Ancestors and the keys a signal yields -/

/-- `Ancestor`: the identity of something incidents can have in common. -/
structure Ancestor where
  kind : GoString
  ns : GoString := []
  name : GoString
  deriving DecidableEq, Repr

/-- `Ancestor.Key`. -/
def Ancestor.key (a : Ancestor) : GoString := a.kind ++ bytes "/" ++ a.ns ++ bytes "/" ++ a.name

def keySourceTopology : GoString := bytes "topology"

def keySourceRegistry : GoString := bytes "registry-host"

def keySourceSimultaneity : GoString := bytes "simultaneity"

/-- `ExternalAncestor`: an extractor that reads a key off the signal itself. -/
structure ExternalAncestor where
  name : GoString
  extract : Signal → Option Ancestor

/-- `MinedDimension`: an attribute that incidents may turn out to share. -/
structure MinedDimension where
  name : GoString
  kind : GoString
  value : Signal → GoString

/-- What follows the first occurrence of `pat`. -/
def afterFirst (pat : GoString) : GoString → Option GoString
  | [] => if pat = [] then some [] else none
  | b :: s => if pat <+: b :: s then some ((b :: s).drop pat.length) else afterFirst pat s

/-- The double quote. -/
def quote : UInt8 := 34

/-- `quotedImageRef`: the quoted image reference of a pull message. -/
def quotedImageRef (message : GoString) : Option GoString :=
  (afterFirst (bytes "image " ++ [quote]) message).bind fun rest =>
    let ref := rest.takeWhile (· ≠ quote)
    if ref = [] ∨ quote ∉ rest then none else some ref

def dockerHubHost : GoString := bytes "docker.io"

/-- `RegistryHost`: the registry an image reference names, empty without a reference. -/
def registryHost (message : GoString) : GoString :=
  match quotedImageRef message with
  | none => []
  | some ref =>
    let head := ref.takeWhile fun b => [b] ≠ bytes "/"
    if head.length = ref.length then dockerHubHost
    else if head = bytes "localhost" ∨ bytes "." <:+: head ∨ bytes ":" <:+: head then head
    else dockerHubHost

/-- `registryAncestor`: a registry that fails retryably is shared by all its pulls. -/
def registryAncestor (sig : Signal) : Option Ancestor :=
  if sig.pullClass ≠ .retryable then none
  else if registryHost sig.message = [] then none
  else some { kind := bytes "Registry", name := registryHost sig.message }

/-- `DefaultExternalAncestors`. -/
def defaultExternalAncestors : List ExternalAncestor := [⟨keySourceRegistry, registryAncestor⟩]

/-- `MinedKeySource`. -/
def minedKeySource (dimension : GoString) : GoString := bytes "mined:" ++ dimension

/-- `minedValues`: the signal's value in every dimension it has one in. -/
def minedValues (dims : List MinedDimension) (sig : Signal) : Map GoString GoString :=
  dims.foldl (fun m d => if d.value sig = [] then m else m.insert d.name (d.value sig)) ∅

/-- `minedAncestors`: the mined values as keys, in the order of the dimensions. -/
def minedAncestors (dims : List MinedDimension) (vals : Map GoString GoString) : List Ancestor :=
  dims.filterMap fun d => match vals.lookup d.name with
    | some v => if v = [] then none else some { kind := d.kind, name := v }
    | none => none

/-- `Fingerprint`: the digest of an incident class. -/
def fingerprint (kind reasonClass objectClass zone : GoString) : GoString :=
  bytes "sha256:" ++ Sha256.hex (Sha256.digest
    (kind ++ [0] ++ reasonClass ++ [0] ++ objectClass ++ [0] ++ zone))

example : fingerprint kindK8sEvent (bytes "CrashLoopBackOff") (bytes "Pod") (bytes "us-east1-b") =
    bytes "sha256:82fbc19ad7e86147ed4e0cb80bcab970bc75195e8db75df9d3bec4f66fe2153d" := by
  decide +kernel

/-! ## Members and storms -/

/-- `StormMember`. -/
structure StormMember where
  key : EventKey
  fingerprint : GoString
  ns : GoString
  kindOfObject : GoString
  name : GoString
  reason : GoString
  reasonClass : GoString
  sessionID : GoString := []
  firstSeen : Int
  deriving DecidableEq, Repr

/-- A key a signal offers, with what produced it. -/
structure Candidate where
  ancestor : Ancestor
  source : GoString
  deriving DecidableEq, Repr

/-- `pendingIncident`: an incident of the window. `keys` lists its candidates by
    priority, one for each key. -/
structure PendingIncident where
  arrivedAt : Int
  member : StormMember
  severity : Severity
  zone : GoString
  seen : Int
  mined : Map GoString GoString
  keys : List Candidate
  deriving DecidableEq

/-- `stormState`: an open storm. -/
structure StormState where
  id : GoString
  ancestor : Ancestor
  fingerprint : GoString
  reason : GoString
  keySource : GoString
  sessionID : GoString := []
  maxSeverity : Severity
  firstSeen : Int
  lastSeen : Int
  lastActive : Int
  members : List StormMember := []
  memberCount : Nat := 0
  namespaces : Finset GoString := ∅
  fingerprints : List GoString := []
  resolved : Map EventKey Bool := ∅
  unresolved : Int := 0
  idleTTL : Int
  reportedCount : Nat := 0
  reportedAt : Int := 0
  deriving DecidableEq

/-- `StormInfo`: the snapshot of a storm that verdicts carry. -/
structure StormInfo where
  id : GoString
  ancestor : Ancestor
  fingerprint : GoString
  reason : GoString
  severity : Severity
  sessionID : GoString
  keySource : GoString
  affectedCount : Nat
  namespaceCount : Nat
  firstSeen : Int
  lastSeen : Int
  representatives : List StormMember
  memberFingerprints : List GoString
  deriving DecidableEq, Repr

/-- `StormSizeUpdate`. -/
structure StormSizeUpdate where
  affectedCount : Nat
  namespaceCount : Nat
  newSinceLast : Nat
  deriving DecidableEq, Repr

/-- `StormVerdict`: what an observation came to. -/
inductive StormVerdict where
  | none
  | formed (storm : StormInfo) (members : List StormMember) (member : StormMember)
  | attached (storm : StormInfo) (member : StormMember) (sizeUpdate : Option StormSizeUpdate)
  deriving DecidableEq, Repr

def stormRepresentatives : Nat := 3

def stormEscalateSize : Nat := 10

def stormUpdateGrowth : Nat := 10

def stormUpdateMinInterval : Int := minute

def stormIdleTTL : Int := 30 * minute

def simultaneityWindow : Int := 20 * second

def simultaneityIdleTTL : Int := 5 * minute

def simultaneityMinMembers : Int := 3

def maxStormMembers : Nat := 1000

def kindStorm : GoString := bytes "storm"

namespace StormState

/-- `stormState.info`. -/
def info (st : StormState) : StormInfo :=
  { id := st.id
    ancestor := st.ancestor
    fingerprint := st.fingerprint
    reason := st.reason
    severity := if st.maxSeverity = .warning ∧ st.memberCount ≥ stormEscalateSize then .critical
      else st.maxSeverity
    sessionID := st.sessionID
    keySource := st.keySource
    affectedCount := st.memberCount
    namespaceCount := st.namespaces.card
    firstSeen := st.firstSeen
    lastSeen := st.lastSeen
    representatives := st.members.take stormRepresentatives
    memberFingerprints := st.fingerprints }

/-- `recordMember`: count the member, and keep its record while there is room. -/
def recordMember (m : StormMember) (st : StormState) : StormState :=
  { st with
    memberCount := st.memberCount + 1
    namespaces := if m.ns = [] then st.namespaces else insert m.ns st.namespaces
    members := if st.members.length < maxStormMembers then st.members ++ [m] else st.members
    fingerprints := if st.members.length < maxStormMembers then st.fingerprints ++ [m.fingerprint]
      else st.fingerprints }

/-- The storm's severity after a member of severity `sev`. -/
def raise (sev : Severity) (st : StormState) : StormState :=
  if severityRank sev > severityRank st.maxSeverity then { st with maxSeverity := sev } else st

/-- Count `key` as an unresolved member. -/
def arm (key : EventKey) (st : StormState) : StormState :=
  { st with resolved := st.resolved.insert key false, unresolved := st.unresolved + 1 }

/-- `addMember`: attach a member to an open storm, or take note of its re-fire. -/
def addMember (m : StormMember) (sev : Severity) (seen now : Int) (st : StormState) : StormState :=
  let st := { st with lastSeen := max st.lastSeen seen, lastActive := now }
  let st := st.raise sev
  match st.resolved.lookup m.key with
  | some true => st.arm m.key
  | some false => st
  | none => (st.recordMember m).arm m.key

/-- `maybeSizeUpdate`: the size report that is due after an attachment. -/
def maybeSizeUpdate (now : Int) (st : StormState) : StormState × Option StormSizeUpdate :=
  if st.memberCount < 2 * st.reportedCount ∧
      st.memberCount < st.reportedCount + stormUpdateGrowth then (st, none)
  else if since now st.reportedAt < stormUpdateMinInterval then (st, none)
  else
    ({ st with reportedCount := st.memberCount, reportedAt := now },
      some { affectedCount := st.memberCount, namespaceCount := st.namespaces.card,
             newSinceLast := st.memberCount - st.reportedCount })

/-- The storm after a clearance of `key`. A member that had cleared before, or that the
    storm does not know, changes nothing. -/
def settle (key : EventKey) (st : StormState) : StormState :=
  if st.resolved.lookup key = some false then
    { st with resolved := st.resolved.insert key true, unresolved := st.unresolved - 1 }
  else st

/-- The storm saw no activity for too long. -/
def idle (now : Int) (st : StormState) : Bool :=
  since now st.lastActive > if st.idleTTL ≤ 0 then stormIdleTTL else st.idleTTL

/-- Take a windowed incident into a storm that is being formed. -/
def enrol (q : PendingIncident) (st : StormState) : StormState :=
  let st := ((st.recordMember q.member).arm q.member.key).raise q.severity
  { st with firstSeen := min st.firstSeen q.member.firstSeen, lastSeen := max st.lastSeen q.seen }

end StormState

/-! ## The correlator -/

/-- `StormCorrelator`. The window is positive, and a storm has at least two members. -/
structure StormCorrelator where
  window : Int
  min : Nat
  external : List ExternalAncestor := defaultExternalAncestors
  mined : List MinedDimension := []
  minedMin : Nat := 0
  pending : List PendingIncident := []
  storms : Map GoString StormState := ∅
  byKey : Map EventKey GoString := ∅
  window_pos : 0 < window
  min_ge : 2 ≤ min

/-- What an observation found to open a storm over. -/
structure Formation where
  ancestor : Ancestor
  keySource : GoString
  group : List PendingIncident

namespace StormCorrelator

variable (now : Int) (fleet : Option Int) (topo : List Ancestor) (sig : Signal) (key : EventKey)

/-- `close`: drop a storm and the index entries of its members. -/
def close (id : GoString) (c : StormCorrelator) : StormCorrelator :=
  { c with byKey := Map.filter (fun _ owner => owner ≠ id) c.byKey, storms := c.storms.erase id }

/-- A storm that `prune` closes. -/
def expired (c : StormCorrelator) (id : GoString) : Bool :=
  (c.storms.lookup id).any (·.idle now)

/-- `prune`: expire the window and close the idle storms. Each closing touches one
    storm and its own index entries, so their order does not matter. -/
def prune (c : StormCorrelator) : StormCorrelator :=
  { c with
    pending := c.pending.filter fun q => q.arrivedAt > now - c.window
    storms := Map.filter (fun id _ => !c.expired now id) c.storms
    byKey := Map.filter (fun _ owner => !c.expired now owner) c.byKey }

/-- `clusterCandidate`: the whole cluster, for a node that nothing else groups. -/
def clusterCandidate (cands : List Candidate) : Option Ancestor :=
  if fleet.isNone ∨ sig.kindOfObject ≠ bytes "Node" then none
  else if cands.any (fun a => a.ancestor.kind ≠ bytes "Node") then none
  else some { kind := bytes "Cluster",
              name := if sig.cluster = [] then bytes "unnamed" else sig.cluster }

/-- The keys of a signal: external ones, those of the topology, and the cluster last. -/
def candidates (c : StormCorrelator) : List Candidate :=
  let cands := (c.external.filterMap fun e => (e.extract sig).map fun a => ⟨a, e.name⟩) ++
    topo.map fun a => ⟨a, keySourceTopology⟩
  cands ++ ((clusterCandidate fleet sig cands).map fun a => ⟨a, keySourceSimultaneity⟩).toList

/-- Keep the first candidate of each key. -/
def distinctKeys (cands : List Candidate) : List Candidate :=
  cands.foldl (fun kept a =>
    if kept.any (fun b => b.ancestor.key = a.ancestor.key) then kept else kept ++ [a]) []

/-- The open storm of the first ancestor that has one. -/
def openStorm (ancestors : List Ancestor) (c : StormCorrelator) : Option StormState :=
  ancestors.findSome? fun a => c.storms.lookup a.key

/-- `simultaneityMin`: a fifth of the fleet, rounded up, within the other bounds. -/
def simultaneityMin (c : StormCorrelator) : Option Int :=
  fleet.bind fun n =>
    if n ≤ 0 then none
    else
      let share := Float.ofInt n * 0.2
      let whole := share.toUInt64
      let ceil := if whole.toFloat < share then whole.toNat + 1 else whole.toNat
      some (max (max (c.min : Int) simultaneityMinMembers) ceil)

/-- The size and the window that a key of this source needs. -/
def threshold (source : GoString) (c : StormCorrelator) : Option (Int × Int) :=
  if source = keySourceSimultaneity then
    (c.simultaneityMin fleet).map fun m => (m, simultaneityWindow)
  else some (c.min, c.window)

/-- The first declared key of `p` that enough of the window shares. -/
def declaredKey (p : PendingIncident) (c : StormCorrelator) : Option Formation :=
  p.keys.findSome? fun a =>
    (c.threshold fleet a.source).bind fun (min, window) =>
      let group := c.pending.filter fun q =>
        q.keys.any (fun b => b.ancestor.key = a.ancestor.key) ∧ q.arrivedAt > now - window
      if (group.length : Int) < min then none else some ⟨a.ancestor, a.source, group⟩

/-- `mineKey`: the first mined value of `p` that enough of the window shares. -/
def mineKey (p : PendingIncident) (c : StormCorrelator) : Option Formation :=
  c.mined.findSome? fun d =>
    (p.mined.lookup d.name).bind fun v =>
      if v = [] then none
      else
        let group := c.pending.filter fun q => Map.getD q.mined d.name [] = v
        if group.length < c.minedMin then none
        else some ⟨{ kind := d.kind, name := v }, minedKeySource d.name, group⟩

/-- A discovered key is tried when every declared one has failed. -/
def formation (p : PendingIncident) (c : StormCorrelator) : Option Formation :=
  (c.declaredKey now fleet p).or (c.mineKey p)

/-- The storm over a group, led by the group's first incident. -/
def stormOver (f : Formation) (first : PendingIncident) : StormState :=
  let st : StormState :=
    { id := f.ancestor.key
      ancestor := f.ancestor
      reason := first.member.key.reason
      keySource := f.keySource
      fingerprint := fingerprint kindStorm first.member.key.reason f.ancestor.kind first.zone
      maxSeverity := .info
      firstSeen := first.member.firstSeen
      lastSeen := first.seen
      lastActive := now
      idleTTL := if f.keySource = keySourceSimultaneity then simultaneityIdleTTL else stormIdleTTL }
  let st := f.group.foldl (fun st q => st.enrol q) st
  { st with reportedCount := st.memberCount, reportedAt := now }

/-- Open the storm `st` and take its members out of the window. -/
def install (st : StormState) (group : List PendingIncident) (c : StormCorrelator) :
    StormCorrelator :=
  { c with
    pending := c.pending.filter fun q => group.all fun g => g.member.key ≠ q.member.key
    storms := c.storms.insert st.id st
    byKey := group.foldl (fun m q => m.insert q.member.key st.id) c.byKey }

/-- `form`: open a storm over a group. A group is never empty, since it contains the
    observed incident. -/
def form (f : Formation) (member : StormMember) (c : StormCorrelator) :
    StormCorrelator × StormVerdict :=
  match f.group with
  | [] => (c, .none)
  | first :: _ =>
    let st := stormOver now f first
    (c.install st f.group, .formed st.info st.members member)

/-- Add the incident to the window. A re-fire replaces its earlier entry. -/
def enqueue (p : PendingIncident) (c : StormCorrelator) : StormCorrelator :=
  { c with pending :=
      if c.pending.any fun q => q.member.key = p.member.key then
        c.pending.replaceF fun q => if q.member.key = p.member.key then some p else none
      else c.pending ++ [p] }

/-- Attach the observed member to the open storm `st`. -/
def attach (member : StormMember) (sev : Severity) (seen : Int) (st : StormState)
    (c : StormCorrelator) : StormCorrelator × StormVerdict :=
  let st := st.addMember member sev seen now
  let (st', update) := st.maybeSizeUpdate now
  ({ c with storms := c.storms.insert st.id st', byKey := c.byKey.insert member.key st.id },
    .attached st.info member update)

/-- The member record of a signal. -/
def memberOf : StormMember :=
  { key := sig.canonicalKey
    fingerprint := sig.fingerprint
    ns := sig.ns
    kindOfObject := sig.kindOfObject
    name := sig.name
    reason := sig.key.reason
    reasonClass := reasonClass sig.kind sig.key.reason sig.message
    firstSeen := if sig.firstSeen = 0 then now else sig.firstSeen }

/-- The open storm that the signal belongs to, by its best key. -/
def home (c : StormCorrelator) : Option StormState :=
  c.openStorm ((c.candidates fleet topo sig).map (·.ancestor) ++
    minedAncestors c.mined (minedValues c.mined sig))

/-- The signal has no key of any kind, so it can never correlate. -/
def keyless (c : StormCorrelator) : Bool :=
  c.candidates fleet topo sig = [] ∧ minedValues c.mined sig = ∅

/-- The window entry of a signal. -/
def pendingOf (c : StormCorrelator) : PendingIncident :=
  { arrivedAt := now
    member := memberOf now sig
    severity := sig.severity
    zone := sig.zone
    seen := if sig.lastSeen = 0 then now else sig.lastSeen
    mined := minedValues c.mined sig
    keys := distinctKeys (c.candidates fleet topo sig) }

/-- `Observe`: attach a new incident to an open storm, or window it and see whether
    a storm forms. -/
def observe (c : StormCorrelator) : StormCorrelator × StormVerdict :=
  let c := c.prune now
  let p := c.pendingOf now fleet topo sig
  match c.home fleet topo sig with
  | some st => c.attach now p.member sig.severity p.seen st
  | none =>
    if c.keyless fleet topo sig then (c, .none)
    else
      let c := c.enqueue p
      match c.formation now fleet p with
      | some f => c.form now f p.member
      | none => (c, .none)

/-- `NoteMemberSession`: the session of a windowed incident, for the storm to supersede. -/
def noteMemberSession (sessionID : GoString) (c : StormCorrelator) : StormCorrelator :=
  { c with pending := c.pending.replaceF fun q =>
      if q.member.key = key.canonical then
        some { q with member := { q.member with sessionID := sessionID } }
      else none }

/-- The open storm that the index names for `key`. -/
def stormOf (c : StormCorrelator) : Option StormState :=
  (c.byKey.lookup key).bind c.storms.lookup

/-- Replace an open storm by its new state. -/
def putStorm (st : StormState) (c : StormCorrelator) : StormCorrelator :=
  { c with storms := c.storms.insert st.id st }

/-- `NoteMemberActivity`. -/
def noteMemberActivity (seen : Int) (c : StormCorrelator) : StormCorrelator :=
  -- A key without an index entry reads the empty id, which no storm has unless an
  -- ancestor renders to it; every rendered key contains a slash.
  match c.stormOf key.canonical with
  | none => c
  | some st => c.putStorm { st with lastActive := now, lastSeen := max st.lastSeen seen }

/-- `BindStormSession`. -/
def bindStormSession (id sessionID : GoString) (c : StormCorrelator) : StormCorrelator :=
  match c.storms.lookup id with
  | none => c
  | some st => { c with storms := c.storms.insert id { st with sessionID := sessionID } }

/-- A storm that `ClearStormSession` takes for the dead session. -/
def carries (fp deadSessionID : GoString) (st : StormState) : Bool :=
  (fp ≠ [] ∧ st.fingerprint = fp) ∨ (deadSessionID ≠ [] ∧ st.sessionID = deadSessionID)

/-- The storm without the dead session. -/
def withoutSession (deadSessionID : GoString) (st : StormState) : StormState :=
  { st with
    sessionID := if deadSessionID = [] ∨ st.sessionID = deadSessionID then [] else st.sessionID
    members := st.members.map fun m =>
      if m.sessionID = deadSessionID then { m with sessionID := [] } else m }

/-- `ClearStormSession`: the first storm the loop `o` finds to carry the session. -/
def clearStormSession (o : Map.Walk GoString) (fp deadSessionID : GoString) (c : StormCorrelator) :
    StormCorrelator × Option StormInfo :=
  match (Map.walk o c.storms).find? fun id => (c.storms.lookup id).any (carries fp deadSessionID) with
  | none => (c, none)
  | some id =>
    match c.storms.lookup id with
    | none => (c, none)
    | some st =>
      let st := withoutSession deadSessionID st
      ({ c with storms := c.storms.insert id st }, some st.info)

/-- `StormMembers`. -/
def stormMembers (id : GoString) (c : StormCorrelator) : List StormMember :=
  ((c.storms.lookup id).map (·.members)).getD []

/-- `MemberResolved`: the storm of the key and whether it is done, none for a key that
    is no storm member. -/
def memberResolved (c : StormCorrelator) : StormCorrelator × Option (StormInfo × Bool) :=
  match c.byKey.lookup key.canonical with
  | none => (c, none)
  | some id =>
    match c.storms.lookup id with
    | none => ({ c with byKey := c.byKey.erase key.canonical }, none)
    | some st =>
      let st := st.settle key.canonical
      if st.unresolved > 0 then
        ({ c with storms := c.storms.insert id st }, some (st.info, false))
      else (c.close id, some (st.info, true))

/-- `MemberReverted`: a symptom that came back counts again. -/
def memberReverted (c : StormCorrelator) : StormCorrelator :=
  match c.stormOf key.canonical with
  | none => c
  | some st =>
    if st.resolved.lookup key.canonical = some true then
      c.putStorm { st.arm key.canonical with lastActive := now }
    else c

end StormCorrelator

end Lookout.Engine
