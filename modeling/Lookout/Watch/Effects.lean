-- SUMMARY: What a step of the pipeline can do: its primitive effects and who may perform them.
import Lookout.Watch.Dispatch
import Lookout.Engine.DedupEffect
import Lookout.Engine.StormRuns
import Mathlib.Logic.Relation

/-!
# Effects

Every handler is a sequence of calls to the stages and to the sink. This module names
the calls, says once which of them a step can make and under which condition, and
proves it for every handler. An invariant of the pipeline then only has to look at one
call at a time.
-/

namespace Lookout.Watch

open Engine

/-! ## Primitive effects -/

/-- One call of a handler to a stage or to the sink, or a change of its own books. -/
inductive Effect where
  | dedup (op : DedupStep)
  | storm (op : StormStep)
  | track (o : Map.Walk EventKey) (now : Int) (inc : Incident)
  | requeue (key : EventKey)
  | judge (o : Map.Walk EventKey) (observers : List Observer) (now : Int)
  | call (c : Call)
  | board (b : Option Watchboard)
  | outbox (outs : List Outcome)

namespace Dispatcher

def perform (d : Dispatcher) : Effect → Dispatcher
  | .dedup op => d.onDedup (·.step op)
  | .storm op => d.onStorm (·.step op)
  | .track o now inc => { d with tracker := d.tracker.map (·.track o now inc) }
  | .requeue key => { d with tracker := d.tracker.map (·.requeueResolved key) }
  | .judge o observers now => { d with tracker := d.tracker.map fun t => (t.tick o observers now).1 }
  | .call c => { d with sent := d.sent ++ [c] }
  | .board b => { d with board := b }
  | .outbox outs => { d with outbox := outs }

/-- A sequence of effects, each of them permitted in the state it finds. -/
def Performs (P : Dispatcher → Effect → Prop) : Dispatcher → Dispatcher → Prop :=
  Relation.ReflTransGen fun x y => ∃ e, P x e ∧ y = x.perform e

section Performs

variable {P : Dispatcher → Effect → Prop} {d d' d'' : Dispatcher}

theorem Performs.refl : Performs P d d := Relation.ReflTransGen.refl

theorem Performs.trans (h : Performs P d d') (h' : Performs P d' d'') : Performs P d d'' :=
  Relation.ReflTransGen.trans h h'

/-- What led to the state of a pair led to its first component. -/
theorem Performs.fst {α : Type} {p : Dispatcher × α} {a : α} (h : Performs P d p.1)
    (hp : p = (d', a)) : Performs P d d' := by
  rwa [hp] at h

theorem performs_one {e : Effect} (h : P d e) : Performs P d (d.perform e) :=
  Relation.ReflTransGen.single ⟨e, h, rfl⟩

/-- What every permitted effect keeps holds at the end. -/
theorem Performs.invariant {I : Dispatcher → Prop} (h : Performs P d d') (hI : I d)
    (hstep : ∀ x e, I x → P x e → I (x.perform e)) : I d' := by
  induction h with
  | refl => exact hI
  | tail _ hlast ih =>
    obtain ⟨e, he, rfl⟩ := hlast
    exact hstep _ e ih he

/-- No effect touches the setup. -/
theorem Performs.setup (h : Performs P d d') : d'.toSetup = d.toSetup :=
  h.invariant (I := fun x => x.toSetup = d.toSetup) rfl fun _ e hx _ => by cases e <;> exact hx

theorem performs_foldl {α : Type} {f : Dispatcher → α → Dispatcher} {l : List α}
    (h : ∀ a ∈ l, ∀ x, Performs P d x → Performs P x (f x a)) : Performs P d (l.foldl f d) := by
  refine List.foldlRecOn (motive := Performs P d) l f .refl fun x hx a ha => ?_
  exact hx.trans (h a ha x hx)

end Performs

/-! ## Permissions -/

/-- The step is the arrival of a signal that the cache takes for a new incident. -/
def Opens (d : Dispatcher) (key : EventKey) : Step → Prop
  | .signal env a => a.accepted = true ∧ a.sig.canonicalKey = key ∧
      (d.observe env a).2.kind = .newIncident
  | _ => False

/-- The correlator's answer to the signal of a step. -/
def verdict (env : Env) (sig : Signal) (d : Dispatcher) : Option (StormCorrelator × StormVerdict) :=
  d.storm.map fun c => c.observe env.now env.fleet (d.topology env sig) sig

/-- The keys that the storm stage files under a storm when it is asked about the signal,
    as long as no session is lost: the signal's own key without its message, and the
    members of a storm that forms or that has no session yet. -/
def claims (d : Dispatcher) : Step → List EventKey
  | .signal env a =>
    match d.verdict env a.sig with
    | some (_, .formed _ members _) => a.sig.key.canonical :: members.map (·.key.canonical)
    | some (c, .attached info _ _) => a.sig.key.canonical ::
        if info.sessionID = [] then (c.stormMembers info.id).map (·.key.canonical) else []
    | _ => []
  | _ => []

/-- The marks that leave the session and the storm of every entry alone. -/
inductive Notes : DedupStep → Prop where
  | undelivered (key change) : Notes (.markUndelivered key change)
  | resolved (key) : Notes (.markResolved key)
  | kind (key kind) : Notes (.noteIncidentKind key kind)
  | ancestors (key keys) : Notes (.noteAncestors key keys)
  | family (o self candidates family) : Notes (.sessionForAncestors o self candidates family)
  | joined (key kind) : Notes (.crossSourceJoin key kind)

/-- Some open storm has the fingerprint. -/
def Knows (fp : GoString) (d : Dispatcher) : Prop :=
  ∃ c id st, d.storm = some c ∧ c.storms.lookup id = some st ∧ st.fingerprint = fp

/-- What the step `s` from the state `d` can do in a state `x` on its way. -/
inductive Does (d : Dispatcher) (s : Step) (x : Dispatcher) : Effect → Prop where
  | observe {env a} (hs : s = .signal env a) (ha : a.accepted = true) (hx : x = d) :
      Does d s x (.dedup (.observeSignal env.now d.isOpen env.loops a.sig.canonicalKey
        (d.observation a)))
  | bindings {env} (hs : s = .resume env) (hx : x = d) :
      Does d s x (.dedup (.bindings env.now env.loops))
  | mark {op} (h : Notes op) : Does d s x (.dedup op)
  | fold {o key kind cands} (h : d.Opens key s) :
      Does d s x (.dedup (.sessionForSibling s.env.now o key kind cands))
  | bind (key sid ref) (h : x.dedup.lookupSession key = none ∨ d.Opens key s) :
      Does d s x (.dedup (.bindIncident key sid ref))
  | claim {key fp} (sid ref) (hkey : s.env.sink.Lasting → key.canonical ∈ d.claims s)
      (hfp : x.Knows fp) : Does d s x (.dedup (.attachToStorm key sid fp ref))
  | unbind (key) (h : ¬s.env.sink.Lasting) : Does d s x (.dedup (.unbind s.env.now key))
  | storm (op) : Does d s x (.storm op)
  | track (inc) : Does d s x (.track s.env.tracked s.env.now inc)
  | requeue (key) : Does d s x (.requeue key)
  | judge (observers) : Does d s x (.judge s.env.tracked observers s.env.now)
  | call (c) : Does d s x (.call c)
  | board (b) : Does d s x (.board b)
  | outbox (outs) : Does d s x (.outbox outs)

/-! ## Sessions -/

variable {op : DedupStep} {key : EventKey}

theorem Notes.marks (h : Notes op) : DedupCache.Marks op := by
  cases h <;> exact trivial

variable {c : DedupCache} {e e' : DedupEntry} {k : EventKey}

theorem Notes.sessionID (h : Notes op) (hmark : DedupCache.Marked c op k e e') :
    e'.sessionID = e.sessionID := by
  cases h <;> cases hmark <;> rfl

theorem Notes.storm (h : Notes op) (hmark : DedupCache.Marked c op k e e') :
    e'.storm = e.storm := by
  cases h <;> cases hmark <;> rfl

theorem Notes.lookupSession (h : Notes op) (c : DedupCache) (k : EventKey) :
    (c.step op).lookupSession k = c.lookupSession k := by
  have hby := DedupCache.step_markedBy c h.marks
  unfold DedupCache.lookupSession
  cases he : c.entries.lookup k.canonical with
  | none => rw [hby.absent he]
  | some e =>
    obtain ⟨e', he', hmark⟩ := hby.present he
    rw [he', Option.bind_some, Option.bind_some, h.sessionID hmark]

variable {d x : Dispatcher} {s : Step}

theorem Does.performs {e : Effect} (h : Does d s x e) : Performs (Does d s) x (x.perform e) :=
  performs_one h

variable (sig : Signal) (sid : GoString) (count : Nat) (windowStart : Int)
  (entries : List BoardEntry) (b : BoardSession)

theorem append_performs (payload : Payload) :
    Performs (Does d s) x (x.append s.env sid payload).1 := (Does.call _).performs

theorem openSession_fst (env : Env) (key : IncidentKey) (payload : Payload) (x : Dispatcher) :
    (x.openSession env key payload).1 =
      x.perform (.call (.openIncident key payload (env.sink.openIncident x.sent key payload))) := by
  unfold openSession
  dsimp only
  split <;> rfl

theorem openSession_performs (key : IncidentKey) (payload : Payload) :
    Performs (Does d s) x (x.openSession s.env key payload).1 := by
  rw [openSession_fst]
  exact (Does.call _).performs

theorem openSession_dedup (env : Env) (key : IncidentKey) (payload : Payload) (x : Dispatcher) :
    (x.openSession env key payload).1.dedup = x.dedup := by
  rw [openSession_fst]
  rfl

theorem note_performs (h : Notes op) :
    Performs (Does d s) x (x.onDedup (·.step op)) := (Does.mark h).performs

theorem track_performs (inc : Incident) : Performs (Does d s) x (x.track s.env inc) :=
  (Does.track inc).performs

theorem bindAndTrack_performs (sig : Signal) (h : x.dedup.lookupSession key = none ∨ d.Opens key s) :
    Performs (Does d s) x (x.bindAndTrack s.env key sid sig) :=
  (Does.bind key sid sig.incidentRef h).performs.trans (track_performs _)

theorem recordBoundSession_performs (sig : Signal) (noteStorm : Bool)
    (h : x.dedup.lookupSession key = none ∨ d.Opens key s) :
    Performs (Does d s) x (x.recordBoundSession s.env key sid sig noteStorm) := by
  have hbind := (Does.bind key sid sig.incidentRef h).performs.trans
    (note_performs (.ancestors key (x.ancestorKeysFor s.env sig)))
  unfold recordBoundSession
  split
  · exact (hbind.trans (Does.storm (.noteMemberSession key sid)).performs).trans (track_performs _)
  · exact hbind.trans (track_performs _)

theorem openIncident_performs (restamp : Bool)
    (h : x.dedup.lookupSession key = none ∨ d.Opens key s) :
    Performs (Does d s) x (x.openIncident s.env sig key count restamp) := by
  have hopen := openSession_performs (d := d) (x := x) (s := s) (x.incidentKey key)
    (.incident sig count)
  have hdedup := openSession_dedup s.env (x.incidentKey key) (.incident sig count) x
  unfold openIncident
  generalize x.openSession s.env (x.incidentKey key) (.incident sig count) = opened at hopen hdedup
  obtain ⟨y, _ | ⟨sid, failed⟩⟩ := opened
  · exact hopen
  · dsimp only at hopen hdedup ⊢
    generalize hstamped : (if restamp then y.onDedup (·.noteIncidentKind key sig.kind) else y) = z
    -- Stamping the kind leaves the incident unbound.
    have hstamp : Performs (Does d s) y z ∧
        (z.dedup.lookupSession key = none ∨ d.Opens key s) := by
      rw [← hstamped]
      split
      · refine ⟨note_performs (.kind key sig.kind), h.imp_left fun hnone => ?_⟩
        exact ((Notes.kind key sig.kind).lookupSession y.dedup key).trans (hdedup ▸ hnone)
      · exact ⟨.refl, hdedup ▸ h⟩
    have hbound := recordBoundSession_performs sid sig true hstamp.2
    split
    · exact hopen.trans (hstamp.1.trans (hbound.trans (note_performs (.undelivered key .open))))
    · exact hopen.trans (hstamp.1.trans hbound)

theorem foldSibling_performs (h : d.Opens key s) :
    Performs (Does d s) x (x.foldSibling s.env sig key).1 := by
  have hfold : Performs (Does d s) x (x.perform (.dedup (.sessionForSibling s.env.now
      s.env.siblings key sig.kind (x.siblingKeysFor s.env sig)))) := (Does.fold h).performs
  unfold foldSibling
  dsimp only
  split
  · next cache hfound =>
    cases congrArg Prod.fst hfound
    exact hfold
  · next cache sid matched hfound =>
    cases congrArg Prod.fst hfound
    have hsent := hfold.trans (append_performs sid
      (.familyMember sig matched (DedupCache.sourceFamily sig.kind) sid))
    split
    · next y hy =>
      cases congrArg Prod.fst hy
      exact hsent.trans (bindAndTrack_performs sid sig (Or.inr h))
    · next y hy =>
      cases congrArg Prod.fst hy
      exact hsent

theorem dispatchPerIncidentOpen_performs (h : d.Opens key s) :
    Performs (Does d s) x (x.dispatchPerIncidentOpen s.env sig key count) := by
  have hfold := foldSibling_performs (x := x) sig h
  unfold dispatchPerIncidentOpen
  split
  · next y hy =>
    rw [hy] at hfold
    split
    · exact hfold.trans (recordBoundSession_performs _ sig false (Or.inr h))
    · exact hfold
  · next hy => exact (hfold.fst hy).trans (openIncident_performs sig count false (Or.inr h))

theorem retryIncidentOpen_performs :
    Performs (Does d s) x (x.retryIncidentOpen s.env sig key count) := by
  unfold retryIncidentOpen
  split
  · exact .refl
  · next hnone => exact openIncident_performs sig count true (Or.inl hnone)

theorem dispatchSharedOrDryRun_performs :
    Performs (Does d s) x (x.dispatchSharedOrDryRun s.env sig key count) := by
  unfold dispatchSharedOrDryRun
  dsimp only
  split
  · exact track_performs _
  · exact (track_performs _).trans (append_performs _ _)

/-! ## The watchboard -/

theorem bindWatchboardIncident_performs (sig : Signal) :
    Performs (Does d s) x (x.bindWatchboardIncident s.env sid sig) := by
  unfold bindWatchboardIncident
  split
  · exact .refl
  · next hnone => exact bindAndTrack_performs sid sig (Or.inl hnone)

theorem reattachWatchboardEntry_performs :
    Performs (Does d s) x (x.reattachWatchboardEntry s.env sig).1 := by
  unfold reattachWatchboardEntry
  dsimp only
  split
  · exact .refl
  · next hfree =>
    obtain ⟨-, hnone⟩ := not_or.1 hfree
    have hnote : Notes (.sessionForAncestors s.env.siblings sig.canonicalKey
      (x.ancestorKeysFor s.env sig) (DedupCache.sourceFamily sig.kind)) := .family _ _ _ _
    have hjoin := note_performs (d := d) (x := x) (s := s) hnote
    have hunbound := (hnote.lookupSession x.dedup sig.canonicalKey).trans (not_not.1 hnone)
    split
    · next cache hfound =>
      cases congrArg Prod.fst hfound
      exact hjoin
    · next cache sid matched hfound =>
      cases congrArg Prod.fst hfound
      split
      · exact hjoin.trans (bindAndTrack_performs sid sig (Or.inl hunbound))
      · have hsent := hjoin.trans (append_performs sid
          (.familyMember sig matched (DedupCache.sourceFamily sig.kind) sid))
        split
        · next y hy =>
          cases congrArg Prod.fst hy
          exact hsent.trans (bindAndTrack_performs sid sig (Or.inl hunbound))
        · next y hy =>
          cases congrArg Prod.fst hy
          exact hsent

theorem finishFlush_performs (sid : GoString) :
    Performs (Does d s) x (x.finishFlush s.env entries sid) :=
  performs_foldl fun e _ _ _ => bindWatchboardIncident_performs sid e.sig

theorem sendRotated_performs (old : BoardSession) (successor : GoString) :
    Performs (Does d s) x (x.sendRotated s.env old successor) := by
  unfold sendRotated
  split
  · exact .refl
  · exact append_performs _ _

theorem openBoardSession_performs (opener : List Call → Option GoString) (b : BoardSession) :
    Performs (Does d s) x (x.openBoardSession s.env opener b).1 := by
  have hcall := (Does.call (d := d) (s := s) (x := x) (.createSession (opener x.sent))).performs
  unfold openBoardSession
  dsimp only
  split
  · exact hcall
  · exact hcall.trans (sendRotated_performs _ _)

/-- A digest that was delivered binds its entries, and any other one binds nobody. -/
theorem deliverDigest_performs {b lost : BoardSession} {entries : List BoardEntry}
    {payload : Payload} (kept : BoardSession → BoardSession) :
    Performs (Does d s) x (match x.append s.env b.sid payload with
      | (y, .delivered) => (y.finishFlush s.env entries b.sid, kept b)
      | (y, .gone) => (y, lost)
      | (y, .failed) => (y, b)).1 := by
  have hsent := append_performs (d := d) (s := s) (x := x) b.sid payload
  split
  · next hy => exact (hsent.fst hy).trans (finishFlush_performs _ _)
  · next hy => exact hsent.fst hy
  · next hy => exact hsent.fst hy

theorem appendToOld_performs :
    Performs (Does d s) x (x.appendToOld s.env windowStart entries b).1 :=
  deliverDigest_performs fun b => { b with injects := b.injects + 1 }

theorem openStateless_performs :
    Performs (Does d s) x (x.openStateless s.env windowStart entries b).1 := by
  have hopen := openSession_performs (d := d) (s := s) (x := x) x.boardKey
    (digestPayload s.env windowStart ⟨b.sid, b.generation + 1, 0⟩ entries)
  unfold openStateless
  dsimp only
  split
  · next y hy =>
    rw [hy] at hopen
    split
    · exact hopen
    · exact hopen.trans (appendToOld_performs _ _ _)
  · next y newSid failed hy =>
    rw [hy] at hopen
    split
    · exact hopen.trans (sendRotated_performs _ _)
    · exact (hopen.trans (sendRotated_performs _ _)).trans (finishFlush_performs _ _)

theorem recoverGoneSession_performs :
    Performs (Does d s) x (x.recoverGoneSession s.env windowStart entries b).1 := by
  unfold recoverGoneSession
  split
  · exact openStateless_performs _ _ _
  · next opener _ =>
    have hopen := openBoardSession_performs (d := d) (s := s) (x := x) opener ⟨[], b.generation, 0⟩
    split
    · next hy => exact hopen.fst hy
    · next hy =>
      exact (hopen.fst hy).trans
        (deliverDigest_performs fun b => { b with injects := b.injects + 1 })

theorem sendDigest_performs :
    Performs (Does d s) x (x.sendDigest s.env windowStart entries b).1 := by
  have hsent := append_performs (d := d) (s := s) (x := x) b.sid
    (digestPayload s.env windowStart b entries)
  unfold sendDigest
  split
  · next hy => exact (hsent.fst hy).trans (finishFlush_performs _ _)
  · next hy => exact (hsent.fst hy).trans (recoverGoneSession_performs _ _ _)
  · next hy => exact hsent.fst hy

theorem reattachBatch_performs : Performs (Does d s) x (x.reattachBatch s.env entries).1 := by
  refine List.foldlRecOn (motive := fun acc : Dispatcher × List BoardEntry =>
    Performs (Does d s) x acc.1) entries _ .refl fun acc h e _ => h.trans ?_
  have hre := reattachWatchboardEntry_performs (d := d) (s := s) (x := acc.1) e.sig
  unfold reattachOne
  split
  · next hy => exact hre.fst hy
  · next hy => exact hre.fst hy

theorem flushEntries_performs (rotateAfter windowStart : Int) (entries : List BoardEntry)
    (b : BoardSession) :
    Performs (Does d s) x (x.flushEntries s.env rotateAfter windowStart entries b).1 := by
  unfold flushEntries
  split
  · exact finishFlush_performs _ _
  · split
    · split
      · exact openStateless_performs _ _ _
      · next opener _ =>
        have hopen := openBoardSession_performs (d := d) (s := s) (x := x) opener b
        split
        · next hy => exact hopen.fst hy
        · next hy => exact (hopen.fst hy).trans (sendDigest_performs _ _ _)
    · exact sendDigest_performs _ _ _

theorem flush_performs : Performs (Does d s) x (x.flush s.env) := by
  unfold flush
  split
  · exact .refl
  · next b _ =>
    split
    · exact .refl
    · have hcleared : Performs (Does d s) x { x with board := some { b with buffer := [] } } :=
        (Does.board _).performs
      have hre := hcleared.trans (reattachBatch_performs b.buffer)
      dsimp only
      split
      · next hy => exact hre.fst hy
      · next y entries _ hy =>
        rw [hy] at hre
        have hflushed := flushEntries_performs (d := d) (s := s) (x := y) b.rotateAfter b.opened
          entries (Watchboard.session b)
        exact (hre.trans hflushed).trans (Does.board _).performs

theorem boardAdd_performs (e : BoardEntry) : Performs (Does d s) x (x.boardAdd s.env e) := by
  unfold boardAdd
  split
  · exact .refl
  · dsimp only
    split
    · exact (Does.board _).performs.trans flush_performs
    · exact (Does.board _).performs

theorem boardTick_performs : Performs (Does d s) x (x.boardTick s.env) := by
  unfold boardTick
  split
  · exact .refl
  · split
    · exact flush_performs
    · exact .refl

end Dispatcher

end Lookout.Watch
