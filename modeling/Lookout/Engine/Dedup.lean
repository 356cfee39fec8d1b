-- SUMMARY: The dedup cache: observations, the repeat schedule, sibling groups, bindings, sweeps and tombstones.
import Lookout.Engine.Signal
import Lookout.Lib.Select

/-!
# Dedup cache

The cache files every incident under its key and decides for each observation
whether it opens an incident, repeats one, or adds nothing. Incidents of sibling pods
fold into one session: a folded entry points to the entry it folded onto, its root,
and hands its repeats over to the root's schedule. A resolved incident leaves the
cache one window after its last activity, and a tombstone keeps the timestamp it had
processed, so that a re-delivered event is not news.

An incident that is still open speaks into the session it has, on a schedule that backs
off: a reminder when the interval of its step has passed, a change when the signal shows a
new class or its rate jumps, and a re-send when the last inject did not arrive.

Whether an incident is still open is the recovery tracker's answer. A call takes the
answers as they are at that moment, and an absent tracker answers no.
-/

namespace Lookout.Engine

/-! ## Entries -/

/-- `RepeatChange*`: what a repeat announces, `none` for a plain reminder. -/
inductive RepeatChange where
  | none
  | newClass
  | rate
  | open
  deriving DecidableEq, Repr

/-- `repeatState`: the schedule of one entry. -/
structure RepeatState where
  sessionClass : Bool := false
  resolved : Bool := false
  repeatCount : Nat := 0
  step : Nat := 0
  lastInjectAt : Int := 0
  injectCount : Nat := 0
  ratePerHour : Float := 0
  classes : List UInt64 := []
  pendingChange : Bool := false
  undelivered : Bool := false
  lastChange : RepeatChange := .none
  deriving DecidableEq

/-- `dedupEntry`: what the cache knows about one incident. -/
structure DedupEntry extends RepeatState where
  sessionID : GoString := []
  firstSeen : Int
  lastSeen : Int
  eventLastTS : Int
  count : Nat := 1
  incident : Option IncidentRef := none
  storm : GoString := []
  sourceKind : GoString := []
  followupSources : List GoString := []
  ancestorKeys : List GoString := []
  parent : Option EventKey := none
  deriving DecidableEq

inductive DedupResultKind where
  | newIncident
  | duplicate
  | repeated
  deriving DecidableEq, Repr

/-- `DedupResult`. -/
structure DedupResult where
  kind : DedupResultKind
  sessionID : GoString := []
  count : Nat
  storm : GoString := []
  repeatCount : Nat := 0
  change : RepeatChange := .none
  absorbed : Bool := false
  replay : Bool := false
  deriving DecidableEq, Repr

/-- `Observation`: what an event says beyond its key. -/
structure Observation where
  lastTS : Int
  kind : GoString := []
  severity : Severity := .critical
  message : GoString := []
  repeatable : Bool := false
  downgraded : Bool := false
  deriving DecidableEq, Repr

/-! ## Classes -/

/-- `messageShape`: the message with every run of digits as one mark. -/
def messageShape (msg : GoString) : GoString :=
  (msg.foldl (fun (shape, digits) ch =>
    if 48 ≤ ch ∧ ch ≤ 57 then (if digits then shape else shape ++ bytes "#", true)
    else (shape ++ [ch], false)) (([], false) : GoString × Bool)).1

/-- The 64-bit FNV-1a hash. -/
def fnv64a (s : GoString) : UInt64 :=
  s.foldl (fun h b => (h ^^^ b.toUInt64) * 1099511628211) 14695981039346656037

/-- `repeatClass`. The source keeps the hash as hexadecimal text. -/
def repeatClass (kind : GoString) (sev : Severity) (message : GoString) : UInt64 :=
  fnv64a (kind ++ [0] ++ sev.text ++ [0] ++ messageShape message)

def Observation.class (obs : Observation) : UInt64 := repeatClass obs.kind obs.severity obs.message

def maxRepeatClasses : Nat := 16

namespace DedupEntry

/-- The class is new to an entry that already knows some. -/
def newClass (class_ : UInt64) (e : DedupEntry) : Bool := class_ ∉ e.classes ∧ e.classes ≠ []

/-- `noteClass`, without its answer, which is `newClass`. -/
def noteClass (class_ : UInt64) (e : DedupEntry) : DedupEntry :=
  if class_ ∈ e.classes then e
  else
    let classes := e.classes ++ [class_]
    { e with classes := classes.drop (classes.length - maxRepeatClasses) }

/-- Take note of a class. A new one is news once the window of the open has passed. -/
def showClass (window now : Int) (class_ : UInt64) (e : DedupEntry) : DedupEntry :=
  let e' := e.noteClass class_
  if e.newClass class_ ∧ since now e.firstSeen > window then { e' with pendingChange := true }
  else e'

/-! ## Rates -/

/-- `Duration.Hours`. -/
def hours (d : Int) : Float := Float.ofInt (d.tdiv hour) + Float.ofInt (d.tmod hour) / 3.6e12

/-- `rateSinceInject`. -/
def rateSinceInject (now : Int) (e : DedupEntry) : Float :=
  let h := hours (since now e.lastInjectAt)
  if h ≤ 0 then 0 else Float.ofInt (e.count - e.injectCount) / h

def repeatJumpFactor : Float := 4

def repeatJumpMin : Int := 10

/-- `countJump`. -/
def countJump (now : Int) (e : DedupEntry) : Bool :=
  if e.ratePerHour ≤ 0 ∨ (e.count : Int) - e.injectCount < repeatJumpMin then false
  else if now ≤ e.lastInjectAt then true
  else e.rateSinceInject now ≥ repeatJumpFactor * e.ratePerHour

/-! ## The schedule -/

/-- `markInject`. -/
def markInject (now : Int) (e : DedupEntry) : DedupEntry :=
  { e with lastInjectAt := now, injectCount := e.count, pendingChange := false }

end DedupEntry

def repeatIntervalCap : Int := hour

/-- The loop of `repeatInterval`: double `d` up to `n` times while it is below the limit. -/
def doubleUpTo (limit : Int) : Nat → Int → Int
  | 0, d => d
  | n + 1, d => if d < limit then doubleUpTo limit n (wrap64 (2 * d)) else d

/-- `repeatInterval`: the gap before reminder `n`. -/
def repeatInterval (window : Int) (n : Nat) : Int :=
  let limit := max repeatIntervalCap window
  min (doubleUpTo limit (n - 1) window) limit

namespace DedupEntry

/-- An entry from before the schedule existed: the open was its last inject. -/
def adoptOpen (e : DedupEntry) : DedupEntry :=
  if e.lastInjectAt = 0 then { e with lastInjectAt := e.firstSeen, injectCount := e.count } else e

/-- The result of a repeat of the entry. -/
def repeatResult (change : RepeatChange) (repeatCount : Nat) (e : DedupEntry) : DedupResult :=
  { kind := .repeated, sessionID := e.sessionID, storm := e.storm, change := change,
    repeatCount := repeatCount, count := e.count }

/-- The result of a duplicate of the entry. -/
def duplicateResult (absorbed : Bool) (e : DedupEntry) : DedupResult :=
  { kind := .duplicate, sessionID := e.sessionID, storm := e.storm, count := e.count,
    absorbed := absorbed }

/-- The branch of `repeat` for an inject that did not arrive. A stale reminder goes out
    as the class change that is pending since. -/
def resend (now : Int) (e : DedupEntry) : DedupEntry × DedupResult :=
  let e := { e with undelivered := false }
  if e.lastChange = .none ∧ e.pendingChange then
    let e := ({ e with repeatCount := 0, lastChange := .newClass }).markInject now
    (e, e.repeatResult .newClass 0)
  else
    let e := e.markInject now
    (e, e.repeatResult e.lastChange (if e.lastChange = .none then e.repeatCount else 0))

/-- The occurrence as `repeat` takes note of it, before it decides anything. -/
def noteOccurrence (window now eventLastTS : Int) (class_ : UInt64) (e : DedupEntry) : DedupEntry :=
  ({ e.adoptOpen with count := e.adoptOpen.count + 1, lastSeen := now,
                      eventLastTS := eventLastTS }).showClass window now class_

/-- `repeat`: decide an occurrence of an incident that is still open. -/
def «repeat» (window now eventLastTS : Int) (class_ : UInt64) (lapsed : Bool) (e : DedupEntry) :
    DedupEntry × DedupResult :=
  let inRepeat : Bool := e.adoptOpen.lastInjectAt > e.firstSeen
  let e := e.noteOccurrence window now eventLastTS class_
  if e.undelivered then e.resend now
  else
    -- An entry from before steps existed: its reminders were its steps.
    let e := { e with step := max e.step e.repeatCount }
    let sinceInject := since now e.lastInjectAt
    let interval := repeatInterval window (e.step + 1)
    if inRepeat ∧ e.countJump now then
      let e := ({ e with ratePerHour := e.rateSinceInject now, repeatCount := 0, step := 0,
                         lastChange := .rate }).markInject now
      (e, e.repeatResult .rate 0)
    else if e.pendingChange then
      if sinceInject > interval then
        let e := ({ e with repeatCount := 0, step := e.step + 1, lastChange := .newClass }).markInject now
        (e, e.repeatResult .newClass 0)
      else (e, e.duplicateResult (inRepeat || lapsed))
    else if inRepeat = false ∧ lapsed = false then (e, e.duplicateResult false)
    else if sinceInject ≤ interval then (e, e.duplicateResult true)
    else
      let next := e.repeatCount + 1
      let e := ({ e with ratePerHour := e.rateSinceInject now, repeatCount := next,
                         step := e.step + 1, lastChange := .none }).markInject now
      (e, e.repeatResult .none next)

end DedupEntry

/-! ## The cache -/

/-- `tombstone`. -/
structure Tombstone where
  eventLastTS : Int
  lastSeen : Int
  deriving DecidableEq, Repr

/-- `maxDedupEntries`. -/
def maxDedupEntries : Nat := 10000

/-- `DedupCache`. It is only constructed with a positive window. -/
structure DedupCache where
  entries : Map EventKey DedupEntry := ∅
  tombstones : Map EventKey Tombstone := ∅
  window : Int
  max : Nat := maxDedupEntries
  lastSweep : Int := 0
  window_pos : 0 < window

/-- The orders in which one call visits the maps: the entries of a sweep, the
    tombstones when one has to go, and the entries when one has to go. -/
structure Loops where
  sweep : Map.Walk EventKey
  retire : Map.Walk EventKey
  evict : Map.Walk EventKey

/-- `BoundIncident`. -/
structure BoundIncident where
  key : EventKey
  sessionID : GoString
  firstSeen : Int
  ref : IncidentRef
  deriving DecidableEq, Repr

namespace DedupCache

variable (now : Int) (isOpen : EventKey → Bool) (o : Loops) (key : EventKey)

/-- `NewDedupCache`, without a snapshot to restore. -/
def new (window : Int) (h : 0 < window) : DedupCache := { window := window, window_pos := h }

/-- Change the entry of a key, if there is one. -/
def update (f : DedupEntry → DedupEntry) (c : DedupCache) : DedupCache :=
  match c.entries.lookup key with
  | none => c
  | some e => { c with entries := c.entries.insert key (f e) }

/-! ## Sibling groups -/

/-- The walk of `resolveParentLocked` from an entry that is there, at most `n` more hops. -/
def climb (c : DedupCache) : Nat → EventKey → DedupEntry → EventKey × DedupEntry
  | 0, key, e => (key, e)
  | n + 1, key, e =>
    match e.parent with
    | none => (key, e)
    | some next =>
      match c.entries.lookup next with
      | none => (key, e)
      | some e' => climb c n next e'

/-- `resolveParentLocked`: the root of a folded entry's group. -/
def resolveParent (e : DedupEntry) (c : DedupCache) : Option (EventKey × DedupEntry) :=
  e.parent.bind fun key => (c.entries.lookup key).map fun e' => c.climb 8 key e'

/-- `isGroupOpenLocked`: the root or an unresolved entry folded onto it is still open. -/
def isGroupOpen (rootKey : EventKey) (root : DedupEntry) (c : DedupCache) : Bool :=
  isOpen rootKey || (Map.sortedKeys c.entries).any fun k =>
    (c.entries.lookup k).any fun e =>
      k ≠ rootKey ∧ e.parent = some rootKey ∧ e.resolved = false ∧
        e.sessionID = root.sessionID ∧ isOpen k

/-! ## Retiring, sweeping and evicting -/

/-- `replayTTL`: how long a closed entry or a tombstone still answers the replay test. -/
def replayTTL (c : DedupCache) : Int := Max.max hour (wrap64 (4 * c.window))

/-- The tombstone that goes when there is no room: the one with the oldest activity. -/
def oldestTombstone (o : Map.Walk EventKey) (c : DedupCache) : Option EventKey :=
  Select.select (fun k k' => (c.tombstones.lookup k).any fun t =>
    (c.tombstones.lookup k').any fun t' => t.lastSeen < t'.lastSeen) (Map.walk o c.tombstones)

/-- `retireLocked`: replace a resolved entry by its tombstone. -/
def retire (o : Map.Walk EventKey) (k : EventKey) (e : DedupEntry) (c : DedupCache) : DedupCache :=
  let tombstones :=
    if c.tombstones.lookup k = none ∧ c.tombstones.keys.card ≥ c.max then
      match c.oldestTombstone o with
      | none => c.tombstones
      | some oldest => c.tombstones.erase oldest
    else c.tombstones
  { c with entries := c.entries.erase k
           tombstones := tombstones.insert k ⟨e.eventLastTS, e.lastSeen⟩ }

/-- The entry is bound to a session by a session-class signal and its group is open. -/
def keptOpen (k : EventKey) (e : DedupEntry) (c : DedupCache) : Bool :=
  e.sessionClass ∧ e.sessionID ≠ [] ∧ e.incident ≠ none ∧ c.isGroupOpen isOpen k e

/-- One round of a sweep. -/
def sweepOne (o : Map.Walk EventKey) (c : DedupCache) (k : EventKey) : DedupCache :=
  match c.entries.lookup k with
  | none => c
  | some e =>
    let age := since now e.lastSeen
    if age ≤ c.window then c
    else if e.resolved then c.retire o k e
    else if c.keptOpen isOpen k e then c
    else if age > c.replayTTL then { c with entries := c.entries.erase k }
    else c

/-- `sweepExpiredLocked`. The number of removed entries is the difference in size. -/
def sweepExpired (c : DedupCache) : DedupCache :=
  let swept := (Map.walk o.sweep c.entries).foldl (sweepOne now isOpen o.retire)
    { c with lastSweep := now }
  { swept with tombstones :=
      Map.filter (fun _ t => since now t.lastSeen ≤ c.replayTTL) swept.tombstones }

/-- `maybeSweepLocked`: sweep at most once a window. -/
def maybeSweep (c : DedupCache) : DedupCache :=
  if c.lastSweep ≠ 0 ∧ since now c.lastSweep < c.window then c else c.sweepExpired now isOpen o

/-- `evictionTierLocked`. -/
def evictionTier (k : EventKey) (e : DedupEntry) (c : DedupCache) : Nat :=
  if e.resolved ∨ since now e.lastSeen > c.window then 0
  else if e.sessionID = [] ∨ e.sessionClass = false then 1
  else if isOpen k = false then 2
  else 3

/-- The entry that goes when there is no room: the lowest tier, then the oldest. -/
def victim (o : Map.Walk EventKey) (c : DedupCache) : Option EventKey :=
  Select.select (fun k k' => (c.entries.lookup k).any fun e => (c.entries.lookup k').any fun e' =>
    c.evictionTier now isOpen k e < c.evictionTier now isOpen k' e' ∨
      (c.evictionTier now isOpen k e = c.evictionTier now isOpen k' e' ∧
        e.lastSeen < e'.lastSeen)) (Map.walk o c.entries)

/-- `evictIfFull`. -/
def evictIfFull (c : DedupCache) : DedupCache :=
  if c.entries.keys.card < c.max then c
  else
    let c := c.sweepExpired now isOpen o
    if c.entries.keys.card < c.max then c
    else
      match c.victim now isOpen o.evict with
      | none => c
      | some k =>
        match c.entries.lookup k with
        | none => c
        | some e => if e.resolved then c.retire o.retire k e
                    else { c with entries := c.entries.erase k }

/-! ## Observations -/

/-- `newDedupEntry`: the open is the first inject. -/
def newEntry (obs : Observation) : DedupEntry :=
  { sessionClass := obs.repeatable, lastInjectAt := now, injectCount := 1, lastChange := .open,
    classes := [obs.class], firstSeen := now, lastSeen := now, eventLastTS := obs.lastTS }

/-- File a new incident under the key. -/
def openIncident (obs : Observation) (c : DedupCache) : DedupCache × DedupResult :=
  let c := c.evictIfFull now isOpen o
  ({ c with entries := c.entries.insert key (newEntry now obs) },
    { kind := .newIncident, count := 1 })

/-- The root that an observation of a folded entry is handed over to. -/
def delegate (e : DedupEntry) (c : DedupCache) : Option (EventKey × DedupEntry) :=
  (c.resolveParent e).filter fun (rootKey, root) =>
    root.storm = [] ∧ root.resolved = false ∧ root.sessionID ≠ [] ∧
      root.sessionID = e.sessionID ∧ c.isGroupOpen isOpen rootKey root

/-- The fields that every fresh occurrence moves. -/
def touch (lastTS : Int) (e : DedupEntry) : DedupEntry :=
  { e with count := e.count + 1, lastSeen := now, eventLastTS := lastTS }

/-- The root takes note of an occurrence that its schedule does not announce. -/
def absorb (lastTS : Int) (e : DedupEntry) : DedupEntry :=
  { touch now lastTS e with injectCount := e.injectCount + 1 }

/-- The time of the last inject, which for an entry from before the schedule existed is
    the open. -/
def lastInject (e : DedupEntry) : Int := if e.lastInjectAt = 0 then e.firstSeen else e.lastInjectAt

/-- The root's schedule has something to say. -/
def due (root : DedupEntry) (c : DedupCache) : Bool :=
  root.undelivered ∨ since now (lastInject root) >
    repeatInterval c.window (Max.max root.step root.repeatCount + 1)

/-- An observation of a folded entry, decided on its root. There is no answer when the
    signal is neither repeatable nor another source's angle. -/
def observeChild (rootKey : EventKey) (root : DedupEntry) (obs : Observation)
    (c : DedupCache) : Option (DedupCache × DedupResult) :=
  let lapsed : Bool := since now root.lastSeen > c.window
  if obs.repeatable then
    if c.due now root then
      let (root', result) := root.repeat c.window now obs.lastTS obs.class lapsed
      some ({ c with entries := c.entries.insert rootKey root' }, result)
    else
      let root' := (absorb now obs.lastTS root).showClass c.window now obs.class
      some ({ c with entries := c.entries.insert rootKey root' },
        root'.duplicateResult (lastInject root > root.firstSeen || lapsed))
  else if obs.downgraded = false ∧ obs.kind ≠ root.sourceKind then
    let root' := absorb now obs.lastTS root
    some ({ c with entries := c.entries.insert rootKey root' }, root'.duplicateResult true)
  else none

/-- A fresh occurrence that is decided on the key's own entry. -/
def observeOwn (e : DedupEntry) (obs : Observation) (c : DedupCache) : DedupCache × DedupResult :=
  let lapsed : Bool := since now e.lastSeen > c.window
  let isOpenIncident : Bool := e.resolved = false ∧ c.keptOpen isOpen key e
  if isOpenIncident ∧ obs.repeatable then
    -- The incident is still open: its schedule decides.
    let (e', result) := e.repeat c.window now obs.lastTS obs.class lapsed
    ({ c with entries := c.entries.insert key e' }, result)
  else if isOpenIncident ∧ obs.downgraded = false ∧ obs.kind ≠ e.sourceKind then
    -- Another source's lower-class angle on an open incident.
    let e' := touch now obs.lastTS e
    ({ c with entries := c.entries.insert key e' }, e'.duplicateResult true)
  else if lapsed then
    c.openIncident now isOpen o key obs
  else
    let e' := (touch now obs.lastTS e).showClass c.window now obs.class
    ({ c with entries := c.entries.insert key e' }, e'.duplicateResult false)

/-- A fresh occurrence on an existing entry. A folded one is handed over to its root
    if it can be; its own entry takes note of the occurrence first, and the root is
    read after that. -/
def observeFresh (e : DedupEntry) (obs : Observation) (c : DedupCache) : DedupCache × DedupResult :=
  match c.delegate isOpen e with
  | none => c.observeOwn now isOpen o key e obs
  | some (rootKey, root) =>
    let e' := touch now obs.lastTS e
    let c := { c with entries := c.entries.insert key e' }
    let root := if rootKey = key then e' else root
    match c.observeChild now rootKey root obs with
    | some answer => answer
    | none => c.observeOwn now isOpen o key e' obs

/-- `ObserveSignal`. -/
def observeSignal (obs : Observation) (c : DedupCache) : DedupCache × DedupResult :=
  let key := key.canonical
  let c := c.maybeSweep now isOpen o
  match c.entries.lookup key with
  | none =>
    match c.tombstones.lookup key with
    | some tomb =>
      if obs.lastTS ≤ tomb.eventLastTS then
        (c, { kind := .duplicate, count := 1, replay := true })
      else ({ c with tombstones := c.tombstones.erase key }).openIncident now isOpen o key obs
    | none => c.openIncident now isOpen o key obs
  | some e =>
    if obs.lastTS ≤ e.eventLastTS then
      let e' := { e with count := e.count + 1 }
      ({ c with entries := c.entries.insert key e' }, e'.duplicateResult false)
    else c.observeFresh now isOpen o key e obs

/-! ## Marks and bindings -/

end DedupCache

namespace DedupEntry

def markUndelivered (change : RepeatChange) (e : DedupEntry) : DedupEntry :=
  { e with undelivered := true, lastChange := change }

/-- The session is gone, and the schedule starts again. -/
def unbind (now : Int) (e : DedupEntry) : DedupEntry :=
  { e with sessionID := [], parent := none, firstSeen := now, repeatCount := 0, step := 0,
           ratePerHour := 0, pendingChange := false, undelivered := false, lastChange := .open,
           lastInjectAt := now, injectCount := e.count }

def markResolved (e : DedupEntry) : DedupEntry := { e with resolved := true }

def bindSession (sessionID : GoString) (e : DedupEntry) : DedupEntry :=
  { e with sessionID := sessionID }

/-- A fold onto a root that is bound to another session, or gone, ends here. -/
def bindIncident (sessionID : GoString) (ref : IncidentRef) (parentSession : Option GoString)
    (e : DedupEntry) : DedupEntry :=
  { e with sessionID := sessionID, incident := some ref
           parent := if parentSession = some sessionID then e.parent else none }

def attachToStorm (sessionID stormFingerprint : GoString) (ref : IncidentRef) (e : DedupEntry) :
    DedupEntry :=
  { e with sessionID := sessionID, storm := stormFingerprint, parent := none,
           incident := some (e.incident.getD ref) }

def noteIncidentKind (kind : GoString) (e : DedupEntry) : DedupEntry :=
  { e with sourceKind := kind, followupSources := [] }

def noteAncestors (keys : List GoString) (e : DedupEntry) : DedupEntry :=
  { e with ancestorKeys := keys }

/-- A source family has spoken into the incident's session. -/
def addFamily (family : GoString) (e : DedupEntry) : DedupEntry :=
  { e with followupSources := e.followupSources ++ [family] }

def foldOnto (root : EventKey) (e : DedupEntry) : DedupEntry := { e with parent := some root }

/-- The root counts an incident that folds onto it. -/
def countFold (e : DedupEntry) : DedupEntry :=
  { e with count := e.count + 1, injectCount := e.injectCount + 1 }

end DedupEntry

namespace DedupCache

variable (key : EventKey)

/-- `MarkUndelivered`. -/
def markUndelivered (change : RepeatChange) (c : DedupCache) : DedupCache :=
  c.update key.canonical (·.markUndelivered change)

/-- `Unbind`. -/
def unbind (now : Int) (key : EventKey) (c : DedupCache) : DedupCache :=
  c.update key.canonical (·.unbind now)

/-- `MarkResolved`. -/
def markResolved (c : DedupCache) : DedupCache :=
  c.update key.canonical (·.markResolved)

/-- `BindSession`. -/
def bindSession (sessionID : GoString) (c : DedupCache) : DedupCache :=
  c.update key.canonical (·.bindSession sessionID)

/-- `BindIncident`. An entry that is its own parent is read with the new session. -/
def bindIncident (sessionID : GoString) (ref : IncidentRef) (c : DedupCache) : DedupCache :=
  let sessionOf (p : EventKey) : Option GoString :=
    if p = key.canonical then some sessionID else (c.entries.lookup p).map (·.sessionID)
  c.update key.canonical fun e => e.bindIncident sessionID ref (e.parent.bind sessionOf)

/-- `AttachToStorm`. -/
def attachToStorm (sessionID stormFingerprint : GoString) (ref : IncidentRef)
    (c : DedupCache) : DedupCache :=
  c.update key.canonical (·.attachToStorm sessionID stormFingerprint ref)

/-- `LookupBinding`. -/
def lookupBinding (c : DedupCache) : Option BoundIncident :=
  (c.entries.lookup key.canonical).bind fun e =>
    if e.sessionID = [] then none
    else e.incident.map fun ref => ⟨key.canonical, e.sessionID, e.firstSeen, ref⟩

/-- `LookupSession`. -/
def lookupSession (c : DedupCache) : Option GoString :=
  (c.entries.lookup key.canonical).bind fun e =>
    if e.sessionID = [] then none else some e.sessionID

/-- `SourceFamily`: the part of a kind before its first dot. -/
def sourceFamily (kind : GoString) : GoString :=
  let family := kind.takeWhile fun b => [b] ≠ bytes "."
  if family = [] then kind else family

/-- `NoteIncidentKind`. -/
def noteIncidentKind (kind : GoString) (c : DedupCache) : DedupCache :=
  c.update key.canonical (·.noteIncidentKind kind)

/-- `NoteAncestors`. -/
def noteAncestors (keys : List GoString) (c : DedupCache) : DedupCache :=
  if keys = [] then c else c.update key.canonical (·.noteAncestors keys)

/-- The later activity, then the smaller uid. -/
def fresher (c : DedupCache) (k k' : EventKey) : Bool :=
  (c.entries.lookup k).any fun e => (c.entries.lookup k').any fun e' =>
    e.lastSeen > e'.lastSeen ∨ (e.lastSeen = e'.lastSeen ∧ rank k.uid < rank k'.uid)

/-- The freshest entry that qualifies, as the loop `o` finds it. -/
def freshest (o : Map.Walk EventKey) (qualifies : EventKey → DedupEntry → Bool) (c : DedupCache) :
    Option EventKey :=
  Select.select c.fresher
    ((Map.walk o c.entries).filter fun k => (c.entries.lookup k).any (qualifies k))

/-- `SessionForAncestors`: the session of a live incident under one of the keys. The
    first key with a match decides, within the budget of the source family. -/
def sessionForAncestors (o : Map.Walk EventKey) (self : EventKey) (candidates : List GoString)
    (family : GoString) (c : DedupCache) : DedupCache × Option (GoString × GoString) :=
  let found := candidates.findSome? fun cand =>
    (c.freshest o fun k e => k ≠ self.canonical ∧ e.sessionID ≠ [] ∧ e.storm = [] ∧
      cand ∈ e.ancestorKeys).map fun k => (cand, k)
  match found with
  | none => (c, none)
  | some (cand, k) =>
    match c.entries.lookup k with
    | none => (c, none)
    | some best =>
      if family ∈ best.followupSources then (c, none)
      else (c.update k (·.addFamily family), some (best.sessionID, cand))

/-- The entry qualifies as the sibling of an incident. -/
def isSibling (now : Int) (self : EventKey) (kind cand : GoString) (c : DedupCache) (k : EventKey)
    (e : DedupEntry) : Bool :=
  k ≠ self ∧ k.reason = self.reason ∧ e.sourceKind = kind ∧ e.sessionID ≠ [] ∧ e.storm = [] ∧
    since now e.lastSeen ≤ c.window ∧ cand ∈ e.ancestorKeys

/-- The sibling that an incident folds onto, with the key that matched. -/
def sibling (now : Int) (o : Map.Walk EventKey) (self : EventKey) (kind : GoString)
    (candidates : List GoString) (c : DedupCache) : Option (GoString × EventKey × DedupEntry) :=
  candidates.findSome? fun cand =>
    (c.freshest o (c.isSibling now self kind cand)).bind fun k =>
      (c.entries.lookup k).map fun best => (cand, k, best)

/-- `SessionForSibling`: fold an incident into the session of a sibling. -/
def sessionForSibling (now : Int) (o : Map.Walk EventKey) (self : EventKey) (kind : GoString)
    (candidates : List GoString) (c : DedupCache) : DedupCache × Option (GoString × GoString) :=
  match c.sibling now o self.canonical kind candidates with
  | none => (c, none)
  | some (cand, k, best) =>
    let rootKey := best.parent.getD k
    ((c.update self.canonical (·.foldOnto rootKey)).update rootKey (·.countFold),
      some (best.sessionID, cand))

/-- `SiblingGroup`: the root and the members of a folded group, as the loop `o` lists
    them. -/
def siblingGroup (o : Map.Walk EventKey) (key : EventKey) (c : DedupCache) :
    Option (EventKey × List EventKey) :=
  (c.entries.lookup key.canonical).bind fun e =>
    if e.sessionID = [] ∨ e.storm ≠ [] then none
    else
      let rootKey := match e.parent with
        | none => some key.canonical
        | some _ => (c.resolveParent e).bind fun (rk, r) =>
            if r.sessionID ≠ e.sessionID ∨ r.storm ≠ [] then none else some rk
      rootKey.bind fun rootKey =>
        let group := rootKey :: (Map.walk o c.entries).filter fun k =>
          (c.entries.lookup k).any fun e' => k ≠ rootKey ∧ e'.parent = some rootKey ∧
            e'.sessionID = e.sessionID ∧ e'.storm = []
        if group.length < 2 then none else some (rootKey, group)

/-- `CrossSourceJoin`: the family that opened the incident, once per other family. -/
def crossSourceJoin (kind : GoString) (c : DedupCache) : DedupCache × Option GoString :=
  match c.entries.lookup key.canonical with
  | none => (c, none)
  | some e =>
    if e.sourceKind = [] ∨ sourceFamily e.sourceKind = sourceFamily kind ∨
        sourceFamily kind ∈ e.followupSources then (c, none)
    else (c.update key.canonical (·.addFamily (sourceFamily kind)), some (sourceFamily e.sourceKind))

/-- One round of `Bindings`. -/
def bindingsOne (now : Int) (o : Map.Walk EventKey) (acc : DedupCache × List BoundIncident)
    (k : EventKey) : DedupCache × List BoundIncident :=
  match acc.1.entries.lookup k with
  | none => acc
  | some e =>
    if e.resolved then
      (if since now e.lastSeen > acc.1.window then acc.1.retire o k e else acc.1, acc.2)
    else if e.sessionID = [] then acc
    else match e.incident with
      | none => acc
      | some ref => (acc.1, acc.2 ++ [⟨k, e.sessionID, e.firstSeen, ref⟩])

/-- `Bindings`: the bound incidents. Resolved entries past the window are retired. -/
def bindings (now : Int) (o : Loops) (c : DedupCache) : DedupCache × List BoundIncident :=
  (Map.walk o.sweep c.entries).foldl (bindingsOne now o.retire) (c, [])

end DedupCache

end Lookout.Engine
