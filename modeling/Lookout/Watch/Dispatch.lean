-- SUMMARY: The watchboard, storm sessions, the dispatch of signals and outcomes, and the steps of the whole pipeline.
import Lookout.Watch.Dispatcher

/-!
# Dispatch

A signal passes the filter and the dedup cache. What is new is routed: to the store, to
a storm, to the watchboard or to a session of its own. What is not new speaks into the
session it has. The tracker's outcomes come back through the same entry and close the
incident in its session.

Warnings wait on the watchboard, and a digest of them goes into a session that it manages
and rotates. For a storm the dispatcher opens one session, rebinds the members to it and
leaves a pointer in the sessions they had before. An open that fails is tried again when
the next member arrives.
-/

namespace Lookout.Watch

open Engine

/-! ## Watchboard -/

namespace Dispatcher

variable (env : Env) (windowStart : Int) (entries : List BoardEntry) (s : BoardSession)

/-- The session state that a flush works on and leaves behind. -/
structure BoardSession where
  sid : GoString
  generation : Nat
  injects : Nat
  deriving DecidableEq, Repr

def Watchboard.session (b : Watchboard) : BoardSession := ⟨b.sid, b.generation, b.injects⟩

def setBoardSession (d : Dispatcher) : Dispatcher :=
  { d with board := d.board.map fun b =>
      { b with sid := s.sid, generation := s.generation, injects := s.injects } }

/-- `digestPayload`. -/
def digestPayload (s : BoardSession) (entries : List BoardEntry) : Payload :=
  .digest s.generation (s.injects + 1) windowStart env.now entries

/-- `finishFlush`: bind the digested warnings to the session. -/
def finishFlush (sid : GoString) (d : Dispatcher) : Dispatcher :=
  entries.foldl (fun d e => d.bindWatchboardIncident env sid e.sig) d

/-- The key of the watchboard's own incident. -/
def boardKey (d : Dispatcher) : IncidentKey := { cluster := d.cluster, kind := .watchboard }

/-- Point from a session that is being rotated away to its successor. -/
def sendRotated (old : BoardSession) (successor : GoString) (d : Dispatcher) : Dispatcher :=
  if old.sid = [] then d
  else (d.append env old.sid (.rotated old.generation successor old.injects env.now)).1

/-- `watchboard.openSession`. A failed rotation keeps the old session; there is no
    session when the first open fails. -/
def openBoardSession (opener : List Call → Option GoString) (s : BoardSession)
    (d : Dispatcher) : Dispatcher × Option BoardSession :=
  let reply := opener d.sent
  let d := { d with sent := d.sent ++ [.createSession reply] }
  match reply with
  | none => (d, if s.sid = [] then none else some s)
  | some newSid => (d.sendRotated env s newSid, some ⟨newSid, s.generation + 1, 0⟩)

/-- The digest of a stateless sink that could not open a successor. -/
def appendToOld (d : Dispatcher) : Dispatcher × BoardSession :=
  match d.append env s.sid (digestPayload env windowStart s entries) with
  | (d, .delivered) => (d.finishFlush env entries s.sid, { s with injects := s.injects + 1 })
  | (d, .gone) => (d, ⟨[], s.generation, 0⟩)
  | (d, .failed) => (d, s)

/-- `openStateless`: the digest itself opens the successor. -/
def openStateless (d : Dispatcher) : Dispatcher × BoardSession :=
  let payload := digestPayload env windowStart ⟨s.sid, s.generation + 1, 0⟩ entries
  match d.openSession env d.boardKey payload with
  | (d, none) => if s.sid = [] then (d, s) else d.appendToOld env windowStart entries s
  | (d, some (newSid, failed)) =>
    let d := d.sendRotated env s newSid
    if failed then (d, ⟨newSid, s.generation + 1, 0⟩)
    else (d.finishFlush env entries newSid, ⟨newSid, s.generation + 1, 1⟩)

/-- `recoverGoneSession`: one more try with a new session. -/
def recoverGoneSession (d : Dispatcher) : Dispatcher × BoardSession :=
  match env.sink.createSession with
  | none => d.openStateless env windowStart entries ⟨[], s.generation, 0⟩
  | some opener =>
    match d.openBoardSession env opener ⟨[], s.generation, 0⟩ with
    | (d, none) => (d, ⟨[], s.generation, 0⟩)
    | (d, some s) =>
      match d.append env s.sid (digestPayload env windowStart s entries) with
      | (d, .delivered) => (d.finishFlush env entries s.sid, { s with injects := s.injects + 1 })
      | (d, .gone) => (d, ⟨[], s.generation, 0⟩)
      | (d, .failed) => (d, s)

/-- Send the digest into the session. -/
def sendDigest (d : Dispatcher) : Dispatcher × BoardSession :=
  match d.append env s.sid (digestPayload env windowStart s entries) with
  | (d, .delivered) => (d.finishFlush env entries s.sid, { s with injects := s.injects + 1 })
  | (d, .gone) => d.recoverGoneSession env windowStart entries s
  | (d, .failed) => (d, s)

/-- One round of `reattachBatch`. -/
def reattachOne (acc : Dispatcher × List BoardEntry) (e : BoardEntry) :
    Dispatcher × List BoardEntry :=
  match acc.1.reattachWatchboardEntry env e.sig with
  | (d, true) => (d, acc.2)
  | (d, false) => (d, acc.2 ++ [e])

/-- `reattachBatch`: the entries that no incident takes. -/
def reattachBatch (d : Dispatcher) : Dispatcher × List BoardEntry :=
  entries.foldl (reattachOne env) (d, [])

/-- The digest of a flush, with the session it leaves behind. A dry run only prints the
    digest, and its entries are bound like any others. -/
def flushEntries (rotateAfter : Int) (windowStart : Int) (entries : List BoardEntry)
    (s : BoardSession) (d : Dispatcher) : Dispatcher × BoardSession :=
  if d.dryRun then
    let s := if s.generation = 0 then { s with generation := 1 } else s
    (d.finishFlush env entries s.sid, { s with injects := s.injects + 1 })
  else if s.sid = [] ∨ (s.injects : Int) ≥ rotateAfter then
    match env.sink.createSession with
    | none => d.openStateless env windowStart entries s
    | some opener =>
      match d.openBoardSession env opener s with
      | (d, none) => (d, s)
      | (d, some s) => d.sendDigest env windowStart entries s
  else d.sendDigest env windowStart entries s

/-- `flush`. -/
def flush (env : Env) (d : Dispatcher) : Dispatcher :=
  match d.board with
  | none => d
  | some b =>
    if b.buffer = [] then d
    else
      let d := { d with board := some { b with buffer := [] } }
      match d.reattachBatch env b.buffer with
      | (d, []) => d
      | (d, entries) =>
        let (d, s) := d.flushEntries env b.rotateAfter b.opened entries (Watchboard.session b)
        d.setBoardSession s

/-- `Add`: buffer a warning and flush when the batch is full. -/
def boardAdd (e : BoardEntry) (d : Dispatcher) : Dispatcher :=
  match d.board with
  | none => d
  | some b =>
    let opened := if b.buffer = [] then env.now else b.opened
    let b := { b with buffer := b.buffer ++ [e], opened := opened }
    let d := { d with board := some b }
    if (b.buffer.length : Int) ≥ b.batch then d.flush env else d

/-- `watchboard.Tick`. -/
def boardTick (d : Dispatcher) : Dispatcher :=
  match d.board with
  | none => d
  | some b =>
    if b.buffer ≠ [] ∧ since env.now b.opened ≥ b.flushInterval then d.flush env else d

end Dispatcher

/-! ## Storm sessions -/

namespace Dispatcher

variable (env : Env) (sig : Signal) (info : StormInfo)

/-- The member's own identity, as far as the storm knows it. -/
def coarseRef (d : Dispatcher) (m : StormMember) : IncidentRef :=
  { ns := m.ns, kindOfObject := m.kindOfObject, name := m.name, fingerprint := m.fingerprint,
    cluster := d.cluster }

/-- The richest identity of a member that is at hand. -/
def memberRef (triggerKey : EventKey) (triggerRef : IncidentRef) (d : Dispatcher)
    (m : StormMember) : IncidentRef :=
  if m.key = triggerKey then triggerRef
  else match d.dedup.lookupBinding m.key with
    | some bound => bound.ref
    | none => d.coarseRef m

/-- One round of `rebindStormMembers`. -/
def rebindStormMember (sid fp : GoString) (triggerKey : EventKey)
    (triggerRef : IncidentRef) (d : Dispatcher) (m : StormMember) : Dispatcher :=
  let ref := d.memberRef triggerKey triggerRef m
  (d.onDedup (·.attachToStorm m.key sid fp ref)).track env ⟨m.key, sid, m.firstSeen, ref⟩

/-- `rebindStormMembers`. -/
def rebindStormMembers (members : List StormMember) (sid fp : GoString)
    (triggerKey : EventKey) (triggerRef : IncidentRef) (d : Dispatcher) : Dispatcher :=
  members.foldl (rebindStormMember env sid fp triggerKey triggerRef) d

/-- Leave a pointer to the storm in the session that a member had before. -/
def supersedeMember (sid : GoString) (info : StormInfo) (d : Dispatcher)
    (m : StormMember) : Dispatcher :=
  if m.sessionID = [] ∨ m.sessionID = sid ∨ d.dryRun then d
  else (d.append env m.sessionID (.stormSuperseded m { info with sessionID := sid })).1

def supersede (members : List StormMember) (sid : GoString) (info : StormInfo)
    (d : Dispatcher) : Dispatcher :=
  members.foldl (supersedeMember env sid info) d

/-- `stormFormed`. The shared mode and the dry run have their session already. -/
def stormFormed (members : List StormMember) (d : Dispatcher) : Dispatcher :=
  let opened := if d.mode = .perIncident ∧ d.dryRun = false
    then d.openSession env (d.stormKey info.ancestor) (.storm info)
    else (d, some (d.targetSid, false))
  match opened with
  | (d, none) => d.onDedup (·.attachToStorm sig.key [] info.fingerprint sig.incidentRef)
  | (d, some (sid, _)) =>
    let d := d.onStorm (·.bindStormSession info.id sid)
    let d := d.rebindStormMembers env members sid info.fingerprint sig.key sig.incidentRef
    let d := if d.dryRun = false ∧ d.mode = .shared then (d.append env sid (.storm info)).1 else d
    d.supersede env members sid info

/-- `clearDeadStormSession`: take a lost session off its storm and unbind the members. -/
def clearDeadStormSession (fp deadSid : GoString) (d : Dispatcher) :
    Dispatcher × Option StormInfo :=
  match d.storm with
  | none => (d, none)
  | some s =>
    match s.clearStormSession env.storms fp deadSid with
    | (s, none) => ({ d with storm := some s }, none)
    | (s, some info) =>
      ((s.stormMembers info.id).foldl (fun d m => d.onDedup (·.unbind env.now m.key))
        { d with storm := some s }, some info)

/-- `retryStormOpen`: the storm's new session, empty when the open failed again. -/
def retryStormOpen (d : Dispatcher) : Dispatcher × GoString :=
  match d.openSession env (d.stormKey info.ancestor) (.storm info) with
  | (d, none) => (d, [])
  | (d, some (sid, _)) =>
    let d := d.onStorm (·.bindStormSession info.id sid)
    let members := (d.storm.map (·.stormMembers info.id)).getD []
    let d := d.rebindStormMembers env members sid info.fingerprint sig.canonicalKey sig.incidentRef
    (d.supersede env members sid info, sid)

/-- `stormSizeUpdate`. -/
def stormSizeUpdate (sid : GoString) (update : StormSizeUpdate) (info : StormInfo)
    (d : Dispatcher) : Dispatcher :=
  if d.dryRun then d
  else
    match d.append env sid (.stormUpdate update info) with
    | (d, .gone) => (d.clearDeadStormSession env info.fingerprint sid).1
    | (d, _) => d

/-- The session that a late arrival goes to. A storm without one tries to open it. -/
def stormHome (d : Dispatcher) : Dispatcher × GoString :=
  if d.mode = .shared then (d, d.targetSid)
  else if info.sessionID = [] ∧ d.dryRun = false then d.retryStormOpen env sig info
  else (d, info.sessionID)

/-- Tell the storm's session about a late arrival. A session that is gone is replaced. -/
def announceMember (member : StormMember)
    (sid : GoString) (d : Dispatcher) : Dispatcher × GoString :=
  if d.dryRun ∨ sid = [] then (d, sid)
  else
    match d.append env sid (.stormMember member { info with sessionID := sid }) with
    | (d, .gone) =>
      match d.clearDeadStormSession env info.fingerprint sid with
      | (d, some cleared) => d.retryStormOpen env sig cleared
      | (d, none) => (d, sid)
    | (d, _) => (d, sid)

/-- `stormAttached`. -/
def stormAttached (member : StormMember)
    (update : Option StormSizeUpdate) (d : Dispatcher) : Dispatcher :=
  let (d, sid) := d.stormHome env sig info
  let d := d.onDedup (·.attachToStorm sig.key sid info.fingerprint sig.incidentRef)
  let d := d.track env ⟨sig.key, sid, member.firstSeen, sig.incidentRef⟩
  let (d, sid) := d.announceMember env sig info member sid
  match update with
  | some update => if d.dryRun ∨ sid ≠ [] then d.stormSizeUpdate env sid update info else d
  | none => d

/-- The verdict's storm with the session that the signal's key is bound to, when it has
    none itself: the source expects a formation that has just finished. -/
def adoptBinding (d : Dispatcher) : StormInfo :=
  if info.sessionID = [] then
    { info with sessionID := (d.dedup.lookupSession sig.key).getD [] }
  else info

/-- `correlateStormSignal`: whether a storm took the incident. -/
def correlateStormSignal (d : Dispatcher) : Dispatcher × Bool :=
  match d.storm with
  | none => (d, false)
  | some s =>
    match s.observe env.now env.fleet (d.topology env sig) sig with
    | (s, .formed info members _) => (({ d with storm := some s }).stormFormed env sig info members,
        true)
    | (s, .attached info member update) =>
      let d := { d with storm := some s }
      (d.stormAttached env sig (d.adoptBinding sig info) member update, true)
    | (s, .none) => ({ d with storm := some s }, false)

/-- `stormResolved`: the storm's own outcome, when its last member has cleared. -/
def stormResolved (recovery : Recovery) (info : StormInfo) (d : Dispatcher) : Dispatcher :=
  let sid := if d.mode = .shared then d.targetSid else info.sessionID
  if sid = [] ∨ d.dryRun then d else (d.append env sid (.stormResolved info recovery)).1

end Dispatcher

/-! ## Signals, outcomes and steps -/

/-- A signal as the stages before the cache leave it: stamped with identity and class,
    with the filter's verdict, whether a triage record downgraded it, and the baseline
    when that record owes a regression report. -/
structure Arrival where
  sig : Signal
  accepted : Bool := true
  downgraded : Bool := false
  regressed : Option Nat := none
  deriving DecidableEq, Repr

namespace Dispatcher

variable (env : Env) (a : Arrival) (sig : Signal) (key : EventKey) (result : DedupResult)
  (count : Nat) (out : Outcome)

/-! ## Signals -/

/-- What the cache is told about a signal. -/
def observation (d : Dispatcher) : Observation :=
  { lastTS := a.sig.lastSeen, kind := a.sig.kind, severity := a.sig.severity,
    message := a.sig.message, repeatable := d.opensSessions a.sig, downgraded := a.downgraded }

/-- The cache's answer to a signal. -/
def observe (d : Dispatcher) : DedupCache × DedupResult :=
  d.dedup.observeSignal env.now d.isOpen env.loops a.sig.canonicalKey (d.observation a)

/-- A repeat whose session is gone: unbind it and open again. -/
def reopen (d : Dispatcher) : Dispatcher :=
  let d := d.onDedup (·.unbind env.now key)
  if result.storm = [] then
    if d.opensSessions sig then d.retryIncidentOpen env sig key result.count else d
  else
    match d.clearDeadStormSession env result.storm result.sessionID with
    | (d, none) => d
    | (d, some info) => if d.opensSessions sig then (d.retryStormOpen env sig info).1 else d

/-- `injectRepeat`. -/
def injectRepeat (d : Dispatcher) : Dispatcher :=
  let payload := if result.change = .open then Payload.incident sig result.count
    else .followup sig result.count result.repeatCount
  if d.dryRun then d
  else
    match d.append env result.sessionID payload with
    | (d, .delivered) => d
    | (d, .gone) => d.reopen env sig key result
    | (d, .failed) => d.onDedup (·.markUndelivered key result.change)

/-- The unbound-retry guard: a duplicate of an incident that has neither a session nor a
    storm, and that may open one. -/
def retriesOpen (d : Dispatcher) : Bool :=
  d.dryRun = false ∧ result.sessionID = [] ∧ result.storm = [] ∧ d.opensSessions sig

/-- Report to the session that a downgraded incident has regressed. -/
def injectTriageRegressed (d : Dispatcher) : Dispatcher :=
  match a.regressed with
  | none => d
  | some baseline =>
    if a.downgraded = false ∨ result.sessionID = [] ∨ d.dryRun then d
    else (d.append env result.sessionID (.regressed a.sig baseline result.count)).1

/-- `handleDuplicateSignal`. -/
def handleDuplicateSignal (d : Dispatcher) : Dispatcher :=
  if result.replay then d
  else
    let d := d.injectTriageRegressed env a result
    let (cache, join) := if d.mode = .perIncident ∧ result.sessionID ≠ [] ∧ result.storm = []
      then d.dedup.crossSourceJoin key a.sig.kind else (d.dedup, none)
    let d := { d with dedup := cache }
    match join with
    | some openedBy =>
      if d.dryRun then d
      else (d.append env result.sessionID
        (.familyMember a.sig key.reason openedBy result.sessionID)).1
    | none =>
      if d.retriesOpen a.sig result then d.retryIncidentOpen env a.sig key result.count else d

/-- `routeInfoSignal`: the class is stored only. -/
def routesToStore (d : Dispatcher) : Bool :=
  d.mode = .perIncident ∧ d.routing ∧ routeFor sig.severity = .store

/-- The class waits for a digest. -/
def routesToBoard (d : Dispatcher) : Bool :=
  d.mode = .perIncident ∧ d.board ≠ none ∧ routeFor sig.severity = .watchboard

/-- The route of a new incident that no storm took. -/
def routeIncident (d : Dispatcher) : Dispatcher :=
  if d.routesToBoard sig then d.boardAdd env ⟨sig, count⟩
  else if d.mode = .perIncident ∧ d.dryRun = false then d.dispatchPerIncidentOpen env sig key count
  else d.dispatchSharedOrDryRun env sig key count

/-- The route of a new incident. -/
def routeNew (d : Dispatcher) : Dispatcher :=
  let d := d.onDedup (·.noteIncidentKind key sig.kind)
  if d.routesToStore sig then d
  else
    match d.correlateStormSignal env sig with
    | (d, true) => d
    | (d, false) => d.routeIncident env sig key count

/-- Keep the storm of a member awake while the member's signal comes in. -/
def noteActivity (d : Dispatcher) : Dispatcher :=
  if result.storm ≠ [] ∧ (result.kind = .repeated ∨ result.absorbed) then
    d.onStorm (·.noteMemberActivity env.now key sig.lastSeen)
  else d

/-- `DispatchSignal` for a signal that is no outcome. -/
def dispatchSignal (d : Dispatcher) : Dispatcher :=
  if a.accepted = false then d
  else
    let key := a.sig.canonicalKey
    let (cache, result) := d.observe env a
    let d := ({ d with dedup := cache }).noteActivity env a.sig key result
    match result.kind with
    | .repeated => d.injectRepeat env a.sig key result
    | .duplicate => d.handleDuplicateSignal env a key result
    | .newIncident => d.routeNew env a.sig key result.count

/-! ## Outcomes -/

/-- `deferSiblingResolved`: whether the outcome waits for the rest of the group. -/
def deferSiblingResolved (d : Dispatcher) : Dispatcher × Bool :=
  if out.kind ≠ .resolved ∨ d.mode ≠ .perIncident then (d, false)
  else
    match d.dedup.siblingGroup env.group out.inc.key with
    | none => (d, false)
    | some (rootKey, group) =>
      let d := d.onDedup (·.markResolved out.inc.key)
      if group.any d.isOpen then (d, true)
      else (d.onDedup (·.markResolved rootKey), false)

/-- The storm takes note of a member's outcome and may close with its own. -/
def settleStorm (d : Dispatcher) : Dispatcher :=
  match d.storm with
  | none => d
  | some s =>
    match out.kind with
    | .resolved =>
      match s.memberResolved out.inc.key with
      | (s, some (info, true)) => ({ d with storm := some s }).stormResolved env out.recovery info
      | (s, _) => { d with storm := some s }
    | .reverted => { d with storm := some (s.memberReverted env.now out.inc.key) }

/-- `commitResolved`. -/
def commitResolved (d : Dispatcher) : Dispatcher :=
  let d := if out.kind = .resolved then d.onDedup (·.markResolved out.inc.key) else d
  d.settleStorm env out

/-- The session of an outcome: in the shared mode the target, else the binding. -/
def outcomeSession (d : Dispatcher) : Option GoString :=
  if d.mode = .perIncident then d.dedup.lookupSession out.inc.key else some d.targetSid

/-- Deliver an outcome into its session. -/
def deliverOutcome (sid : GoString) (d : Dispatcher) : Dispatcher :=
  if d.dryRun then d.commitResolved env out
  else
    match d.append env sid (.outcome out) with
    | (d, .delivered) => d.commitResolved env out
    | (d, .gone) => (d.onDedup (·.unbind env.now out.inc.key)).commitResolved env out
    | (d, .failed) =>
      if out.kind = .resolved then
        { d with tracker := d.tracker.map (·.requeueResolved out.inc.key) }
      else d

/-- `dispatchResolved`. An outcome of an unknown session is dropped. -/
def dispatchResolved (env : Env) (out : Outcome) (d : Dispatcher) : Dispatcher :=
  match d.outcomeSession out with
  | none => d.commitResolved env out
  | some sid =>
    match d.deferSiblingResolved env out with
    | (d, true) => d
    | (d, false) => d.deliverOutcome env out sid

/-! ## Steps -/

/-- The clock of the recovery loop: judge every incident and queue the outcomes. -/
def tick (observers : List Observer) (d : Dispatcher) : Dispatcher :=
  match d.tracker with
  | none => d
  | some t =>
    let (t, outs) := t.tick env.tracked observers env.now
    { d with tracker := some t, outbox := d.outbox ++ outs }

/-- Dispatch the oldest outcome that waits. -/
def dispatchOutcome (d : Dispatcher) : Dispatcher :=
  match d.outbox with
  | [] => d
  | out :: rest => ({ d with outbox := rest }).dispatchResolved env out

/-- Resume the tracking of the bound incidents. -/
def resume (d : Dispatcher) : Dispatcher :=
  let (cache, bound) := d.dedup.bindings env.now env.loops
  bound.foldl (fun d b => d.track env ⟨b.key, b.sessionID, b.firstSeen, b.ref⟩)
    { d with dedup := cache }

end Dispatcher

/-- One handler of the pipeline runs. -/
inductive Step where
  | signal (env : Env) (a : Arrival)
  | tick (env : Env) (observers : List Observer)
  | outcome (env : Env)
  | boardTick (env : Env)
  | boardFlush (env : Env)
  | resume (env : Env)

def Step.env : Step → Env
  | .signal env _ | .tick env _ | .outcome env | .boardTick env | .boardFlush env
  | .resume env => env

namespace Dispatcher

def step (d : Dispatcher) : Step → Dispatcher
  | .signal env a => d.dispatchSignal env a
  | .tick env observers => d.tick env observers
  | .outcome env => d.dispatchOutcome env
  | .boardTick env => d.boardTick env
  | .boardFlush env => d.flush env
  | .resume env => d.resume env

end Dispatcher

end Lookout.Watch
