-- SUMMARY: Whole runs of the writer: a ledger of the live objects, and the invariant that ties the writer to it after every call.
import Lookout.Graph.Compaction

/-!
# Runs of the writer

A `Ledger` is the writer without a graph: the live objects, the queued deltas and
whether the writer is closed. `Follows` ties a writer to its ledger. Its next
batch refines a topology, and that topology is faithful to the live objects. Each
call of the interface keeps the tie, and so does a run. The only calls that need
more are those that compact: they need a topology without dangling edges, which
deltas that are `Safe` guarantee.
-/

namespace Lookout

variable [Platform]

variable {env : Env} {W : World} {tracking : Bool} {T : Topology} {s : Build}

/-! ## The ledger -/

structure Ledger where
  world : World
  /-- The deltas that are queued but not in the graph yet. -/
  pending : List Delta
  closed : Bool

variable {L : Ledger}

namespace Ledger

def empty : Ledger := ⟨World.empty, [], false⟩

/-- The deltas that a call folds into the graph, in order. -/
def applied (L : Ledger) : WriterOp → List Delta
  | .flush _ | .compact _ _ => if L.closed then [] else L.pending
  | .fromObjects _ objs =>
    match Writer.validateObjects objs with
    | .error _ => []
    | .ok objs => if L.closed then [] else objs.map (⟨.add, ·⟩)
  | .apply _ | .applyInitial _ | .close => []

def queue (L : Ledger) (ds : List RawDelta) : Ledger :=
  match validateDeltas 0 ds with
  | .error _ => L
  | .ok deltas => if L.closed then L else { L with pending := L.pending ++ deltas }

/-- The queue after a call. -/
def nextPending (L : Ledger) : WriterOp → List Delta
  | .apply ds | .applyInitial ds => (L.queue ds).pending
  | .fromObjects _ _ => L.pending
  | .flush _ | .compact _ _ => if L.closed then L.pending else []
  | .close => []

def step (L : Ledger) (op : WriterOp) : Ledger where
  world := (L.applied op).foldl World.apply L.world
  pending := L.nextPending op
  closed := L.closed || op matches .close

def run (L : Ledger) (ops : List WriterOp) : Ledger := ops.foldl step L

/-- All deltas that a run folds into the graph, in order. -/
def history : Ledger → List WriterOp → List Delta
  | _, [] => []
  | L, op :: ops => L.applied op ++ (L.step op).history ops

/-- The ledger after the queue is folded in. -/
def drained (L : Ledger) : Ledger := ⟨L.pending.foldl World.apply L.world, [], L.closed⟩

theorem queue_eq_step (L : Ledger) (ds : List RawDelta) :
    L.queue ds = ⟨L.world, (L.queue ds).pending, L.closed⟩ := by
  unfold queue
  split
  · rfl
  · split <;> rfl

end Ledger

/-- Whether the call asks for compaction. -/
def WriterOp.isCompact : WriterOp → Bool
  | .compact _ _ => true
  | _ => false

/-- Whether the call may compact, asked or not. -/
def WriterOp.mayCompact : WriterOp → Bool
  | .flush _ | .compact _ _ => true
  | _ => false

namespace Ledger

variable {objs : List AnyObject}

theorem step_of_closed (op : WriterOp) (h : L.closed = true) (hop : op.mayCompact = true) :
    L.applied op = [] ∧ L.step op = L := by
  obtain ⟨W, pending, closed⟩ := L
  cases op <;> simp_all [step, applied, nextPending, WriterOp.mayCompact]

theorem step_of_open (op : WriterOp) (h : L.closed = false) (hop : op.mayCompact = true) :
    L.applied op = L.pending ∧ L.step op = L.drained := by
  obtain ⟨W, pending, closed⟩ := L
  cases op <;> simp_all [step, applied, nextPending, drained, WriterOp.mayCompact]

theorem step_of_refused (h : ∀ os, Writer.validateObjects objs = .ok os → L.closed = true) :
    L.applied (.fromObjects env objs) = [] ∧ L.step (.fromObjects env objs) = L := by
  obtain ⟨W, pending, closed⟩ := L
  cases hvalid : Writer.validateObjects objs with
  | error e => simp [step, applied, nextPending, hvalid]
  | ok os =>
    cases h os hvalid
    simp [step, applied, nextPending, hvalid]

theorem applied_of_valid {os : List Object} (h : L.closed = false)
    (hvalid : Writer.validateObjects objs = .ok os) :
    L.applied (.fromObjects env objs) = os.map (⟨.add, ·⟩) := by
  simp [applied, hvalid, h]

end Ledger

/-- Every delta is safe when its turn comes. -/
def World.SafeAll : World → List Delta → Prop
  | _, [] => True
  | W, d :: ds => W.Safe d ∧ (W.apply d).SafeAll ds

/-- Every delta that the run folds into the graph is safe when its turn comes. -/
def Ledger.SafeRun : Ledger → List WriterOp → Prop
  | _, [] => True
  | L, op :: ops => L.world.SafeAll (L.applied op) ∧ (L.step op).SafeRun ops

/-! ## Batches of deltas -/

/-- Advance by a list of deltas. -/
noncomputable def Topology.advanceAll (tracking : Bool) (T : Topology) (ds : List Delta) : Topology :=
  ds.foldl (Topology.advance tracking) T

theorem Topology.advanceAll_append (tracking : Bool) (T : Topology) (ds ds' : List Delta) :
    T.advanceAll tracking (ds ++ ds') = (T.advanceAll tracking ds).advanceAll tracking ds' :=
  List.foldl_append

namespace Faithful

theorem advanceAll (h : Faithful tracking W T) (ds : List Delta) :
    Faithful tracking (ds.foldl World.apply W) (T.advanceAll tracking ds) := by
  induction ds generalizing W T with
  | nil => exact h
  | cons d ds ih => exact ih (h.advance d)

theorem closed_advanceAll (h : Faithful tracking W T) (hclosed : T.Closed) {ds : List Delta}
    (hsafe : W.SafeAll ds) : (T.advanceAll tracking ds).Closed := by
  induction ds generalizing W T with
  | nil => exact hclosed
  | cons d ds ih => exact ih (h.advance d) (h.closed_advance hclosed hsafe.1) hsafe.2

end Faithful

/-- The keys that advancing by a delta interns, in order. -/
def Delta.keys (tracking : Bool) (d : Delta) : List GoString :=
  (if tracking then [d.object.key] else []) ++ Build.deltaKeys d

namespace Build

theorem Refines.applyPending (onChange : Bool) (env : Env) {p : Build × List ChangeRecord}
    (h : p.1.Refines T) (q : PendingDelta × Nat) :
    (Writer.applyPending onChange env p q).1.Refines (T.advance onChange q.1.delta) := by
  unfold Writer.applyPending Topology.advance
  cases onChange with
  | false => exact h.applyDelta _ _
  | true =>
    have htrack := h.trackChange (env.now q.2) q.1.delta
    simp only [Bool.not_true, Bool.false_eq_true, if_false]
    split
    · exact htrack.applyDelta _ _
    · have hlogged := ((htrack.withLog (some [])).applyDelta (env.order q.2) q.1.delta).withLog none
      split <;> exact hlogged

omit [Platform] in
/-- A loop over an indexed list follows the loop over its elements. -/
theorem foldl_zipIdx_rel {α σ τ : Type} (R : σ → τ → Prop) {f : σ → α × Nat → σ} {g : τ → α → τ}
    (hf : ∀ q p t, R p t → R (f p q) (g t q.1)) (l : List α) {p : σ} {t : τ} (h : R p t) :
    R (l.zipIdx.foldl f p) (l.foldl g t) := by
  have hrel := List.foldl_rel (l := l.zipIdx) (g := fun t q => g t q.1) h fun q _ => hf q
  rwa [← List.foldl_map (f := Prod.fst) (g := g), List.zipIdx_map_fst] at hrel

section

variable (h : s.Refines T) (onChange : Bool) (env : Env)

include h

theorem Refines.applyAll (pending : List PendingDelta) :
    (Writer.applyAll onChange env s pending).1.Refines
      (T.advanceAll onChange (pending.map (·.delta))) := by
  rw [Topology.advanceAll, List.foldl_map]
  exact foldl_zipIdx_rel (fun p : Build × List ChangeRecord => p.1.Refines)
    (fun q _ _ hp => Refines.applyPending onChange env hp q) pending h

theorem Refines.seed (q : Object × Nat) :
    (Writer.seed onChange env s q).Refines (T.advance onChange ⟨.add, q.1⟩) := by
  cases onChange with
  | false => exact h.applyDelta _ _
  | true => exact (h.trackSeed q.1).applyDelta _ _

theorem Refines.seedAll (objs : List Object) :
    (objs.zipIdx.foldl (Writer.seed onChange env) s).Refines
      (T.advanceAll onChange (objs.map (⟨.add, ·⟩))) := by
  rw [Topology.advanceAll, List.foldl_map]
  exact foldl_zipIdx_rel Refines (fun q _ _ hp => Refines.seed hp onChange env q) objs h

end

end Build

/-! ## A writer follows its ledger -/

namespace Writer

/-- The writer is in step with its ledger, and `T` is the topology it maintains. -/
structure Follows (tracking : Bool) (w : Writer) (L : Ledger) (T : Topology) : Prop where
  hook : w.onChange = tracking
  batch : w.newBatch.Refines T
  faithful : Faithful tracking L.world T
  pending : w.pending.map (·.delta) = L.pending
  closed : w.closed = L.closed
  published : ∀ S ∈ w.snap, S.keys = w.priv.intern.keys ∧ S.ids = w.priv.intern.ids

theorem refines_new (onChange : Bool) (watched : Finset NodeKind) :
    (Writer.new onChange watched).newBatch.Refines Topology.empty := by
  have hmem : ∀ e : HalfEdge, e ∉ Adjacency.empty := by
    simp [Adjacency.mem_def, Adjacency.outOf, Adjacency.empty]
  refine ⟨⟨Adjacency.WF.empty, ?_, ?_, .empty _, ?_, .empty _, ?_, ?_, ?_, .empty _⟩, ?_⟩
  · intro id
    rfl
  · exact fun e he => absurd he (hmem e)
  · exact fun id info h => absurd h (by simp [newBatch, Writer.new])
  · exact fun id info h => absurd h (by simp [newBatch, Writer.new, Private.empty])
  · exact fun _ => .empty _
  · exact fun _ => .empty _
  · change Topology.mk _ _ _ _ _ _ = Topology.mk _ _ _ _ _ _
    congr 1
    · exact (named_congr fun e => iff_false_intro (hmem e)).trans named_false
    · funext key
      refine (named_congr fun e => iff_false_intro ?_).trans named_false
      rintro ⟨es, hes, -⟩
      exact absurd hes (by simp [newBatch, Writer.new, Private.empty, Interner.read_empty])

theorem follows_new (tracking : Bool) (watched : Finset NodeKind) :
    (Writer.new tracking watched).Follows tracking Ledger.empty Topology.empty where
  hook := rfl
  batch := refines_new tracking watched
  faithful := Faithful.empty tracking
  pending := rfl
  closed := rfl
  published := by simp [Writer.new]

variable {w w' : Writer} {T' : Topology}

/-- Publishing a batch that refines a faithful topology. -/
theorem Follows.publish (h : w.Follows tracking L T) (hs : s.Refines T')
    (hfaithful : Faithful tracking W T') :
    (w.publish s).Follows tracking { L with world := W } T' where
  hook := h.hook
  batch := by
    exact hs.withLog none
  faithful := hfaithful
  pending := h.pending
  closed := h.closed
  published := by
    rintro S ⟨rfl⟩
    exact ⟨rfl, rfl⟩

theorem Follows.queue (h : w.Follows tracking L T) (ds : List RawDelta) (sync : Bool) :
    (w.queue ds sync).1.Follows tracking (L.queue ds) T := by
  unfold Writer.queue Ledger.queue
  rw [← h.closed]
  cases validateDeltas 0 ds with
  | error e => exact h
  | ok deltas =>
    cases hc : w.closed with
    | true => exact h
    | false =>
      refine ⟨h.hook, h.batch, h.faithful, ?_, rfl, h.published⟩
      simp [h.pending, Function.comp_def]

/-- A batch that is queued is appended, and a refused one adds nothing. -/
theorem queue_eq (w : Writer) (ds : List RawDelta) (sync : Bool) : ∃ added : List Delta,
    (w.queue ds sync).1 = { w with pending := w.pending ++ added.map (⟨·, sync⟩) } := by
  unfold Writer.queue
  split
  · exact ⟨[], by simp⟩
  · split
    · exact ⟨[], by simp⟩
    · exact ⟨_, rfl⟩

theorem Follows.withoutPending (h : w.Follows tracking L T) :
    { w with pending := [] }.Follows tracking { L with pending := [] } T :=
  ⟨h.hook, h.batch, h.faithful, rfl, h.closed, h.published⟩

theorem Follows.pending_eq_nil (h : w.Follows tracking L T) (hempty : w.pending = []) :
    L.pending = [] := by
  rw [← h.pending, hempty, List.map_nil]

/-- There is nothing to fold in. -/
theorem Follows.drained (h : w.Follows tracking L T) (hempty : w.pending = []) :
    w.Follows tracking L.drained (T.advanceAll tracking L.pending) := by
  rw [Ledger.drained, h.pending_eq_nil hempty]
  exact ⟨h.hook, h.batch, h.faithful, by rw [hempty]; rfl, h.closed, h.published⟩

/-- The batch of a flush before any compaction, and its records. -/
def flushBatch (w : Writer) (env : Env) : Build × List ChangeRecord :=
  applyAll w.onChange env w.newBatch w.pending

/-- What a flush of an open writer does: nothing, or it publishes its batch, which it
    compacts only without a change hook. -/
theorem flushLocked_cases (hopen : w.closed = false) (hflush : w.flushLocked env = some w') :
    w.pending = [] ∧ w.snap.isSome ∧ w' = w ∨
      ¬ (w.pending = [] ∧ w.snap.isSome) ∧
      (w.flushBatch env).1.intern.keys.length ≤ maxIdentities ∧
      ∃ s, (s = (w.flushBatch env).1 ∨
          w.onChange = false ∧ s = (w.flushBatch env).1.compactBatch env.loops) ∧
        w' = ({ w with pending := [] }.publish s).deliver (w.flushBatch env).2 := by
  unfold Writer.flushLocked at hflush
  rw [if_neg (by simp [hopen])] at hflush
  split at hflush
  · next hempty =>
    cases hflush
    exact .inl ⟨hempty.1, hempty.2, rfl⟩
  · next hwork =>
    change (if _ < (w.flushBatch env).1.intern.keys.length then _ else _) = _ at hflush
    split at hflush
    · cases hflush
    · next hroom =>
      cases hflush
      refine .inr ⟨hwork, Nat.le_of_not_lt hroom, _, ?_, rfl⟩
      split
      · next hcompact => exact .inr ⟨hcompact.1, rfl⟩
      · exact .inl rfl

theorem Follows.deliver (h : w.Follows tracking L T) (recs : List ChangeRecord) :
    (w.deliver recs).Follows tracking L T :=
  ⟨h.hook, h.batch, h.faithful, h.pending, h.closed, h.published⟩

theorem Follows.flushBatch (h : w.Follows tracking L T) (env : Env) :
    (w.flushBatch env).1.Refines (T.advanceAll tracking L.pending) := by
  rw [← h.hook, ← h.pending]
  exact h.batch.applyAll w.onChange env w.pending

/-- A flush of an open writer. -/
theorem Follows.flushLocked (h : w.Follows tracking L T) (hopen : L.closed = false)
    (hroot : (T.advanceAll tracking L.pending).Rooted)
    (hflush : w.flushLocked env = some w') :
    w'.Follows tracking L.drained (T.advanceAll tracking L.pending) := by
  have hbatch := h.flushBatch env
  have hfaithful := h.faithful.advanceAll L.pending
  rcases flushLocked_cases (h.closed.trans hopen) hflush with
    ⟨hempty, -, rfl⟩ | ⟨-, -, s, rfl | ⟨-, rfl⟩, rfl⟩
  · exact h.drained hempty
  · exact (h.withoutPending.publish hbatch hfaithful).deliver _
  · exact (h.withoutPending.publish (hbatch.compactBatch hroot env.loops) hfaithful).deliver _

/-- What a call that does not panic does to the writer. -/
inductive Stepped (w : Writer) : WriterOp → Writer → Prop
  | apply (ds : List RawDelta) : Stepped w (.apply ds) (w.queue ds false).1
  | applyInitial (ds : List RawDelta) : Stepped w (.applyInitial ds) (w.queue ds true).1
  | refused {env : Env} {objs : List AnyObject}
      (h : ∀ os, validateObjects objs = .ok os → w.closed = true) :
      Stepped w (.fromObjects env objs) w
  | seeded {env : Env} {objs : List AnyObject} {os : List Object}
      (hvalid : validateObjects objs = .ok os) (hopen : w.closed = false)
      (hroom : (os.zipIdx.foldl (seed w.onChange env) w.newBatch).intern.keys.length ≤
        maxIdentities) :
      Stepped w (.fromObjects env objs)
        (w.publish (os.zipIdx.foldl (seed w.onChange env) w.newBatch))
  | done {op : WriterOp} (hop : op.mayCompact = true) (hclosed : w.closed = true) : Stepped w op w
  | flush {env : Env} {w' : Writer} (hopen : w.closed = false)
      (hflush : w.flushLocked env = some w') : Stepped w (.flush env) w'
  | compact {env : Env} {loops : Nat → Map.RangeOrder} {w₁ w' : Writer} (hopen : w.closed = false)
      (hflush : w.flushLocked env = some w₁)
      (hw' : w' = w₁ ∨ w' = w₁.publish (w₁.newBatch.compactBatch loops)) :
      Stepped w (.compact env loops) w'
  | close : Stepped w .close w.close

variable {op : WriterOp} {ops : List WriterOp}

theorem stepped_of_step (h : w.step op = some w') : w.Stepped op w' := by
  cases op with
  | apply ds =>
    cases h
    exact .apply ds
  | applyInitial ds =>
    cases h
    exact .applyInitial ds
  | fromObjects env objs =>
    obtain ⟨r, hr, rfl⟩ := Option.map_eq_some_iff.1 h
    revert hr
    fun_cases Writer.fromObjects with
    | case1 _ hvalid =>
      rintro ⟨⟩
      exact .refused fun os hos => by simp [hvalid] at hos
    | case2 _ _ hclosed =>
      rintro ⟨⟩
      exact .refused fun _ _ => hclosed
    | case3 => nofun
    | case4 _ hvalid hopen _ hroom =>
      rintro ⟨⟩
      exact .seeded hvalid (Bool.eq_false_of_not_eq_true hopen) (Nat.le_of_not_lt hroom)
  | flush env =>
    obtain ⟨r, hr, rfl⟩ := Option.map_eq_some_iff.1 h
    unfold Writer.flush at hr
    split at hr
    · next hclosed =>
      cases hr
      exact .done rfl hclosed
    · next hopen =>
      obtain ⟨w₁, hflush, rfl⟩ := Option.map_eq_some_iff.1 hr
      exact .flush (Bool.eq_false_of_not_eq_true hopen) hflush
  | compact env loops =>
    rw [Writer.step, Writer.compact] at h
    split at h
    · next hclosed =>
      cases h
      exact .done rfl hclosed
    · next hopen =>
      obtain ⟨w₁, hflush, rfl⟩ := Option.map_eq_some_iff.1 h
      refine .compact (Bool.eq_false_of_not_eq_true hopen) hflush ?_
      split
      · exact .inl rfl
      · split
        · exact .inr rfl
        · exact .inl rfl
  | close =>
    cases h
    exact .close

/-- A call that neither flushes nor compacts. -/
theorem Follows.step_of_quiet (h : w.Follows tracking L T) (hop : op.mayCompact = false)
    (hstep : w.step op = some w') :
    w'.Follows tracking (L.step op) (T.advanceAll tracking (L.applied op)) := by
  have hqueue (ds : List RawDelta) (sync : Bool) : (w.queue ds sync).1.Follows tracking
      (L.step (.apply ds)) T := by
    simpa [Ledger.step, Ledger.applied, Ledger.nextPending, ← L.queue_eq_step] using h.queue ds sync
  cases stepped_of_step hstep with
  | apply ds => exact hqueue ds false
  | applyInitial ds => exact hqueue ds true
  | refused hrefused =>
    obtain ⟨happlied, hsame⟩ := Ledger.step_of_refused fun os hos => h.closed ▸ hrefused os hos
    rw [happlied, hsame]
    exact h
  | seeded hvalid hopen =>
    simp only [Ledger.step, Ledger.applied_of_valid (h.closed ▸ hopen) hvalid, h.hook, Bool.or_false]
    exact h.publish (h.batch.seedAll tracking _ _) (h.faithful.advanceAll _)
  | done hmay => cases hop.symm.trans hmay
  | flush => cases hop
  | compact => cases hop
  | close =>
    refine ⟨h.hook, h.batch, h.faithful, rfl, ?_, h.published⟩
    simp [Ledger.step, Writer.close]

/-- One call keeps the writer in step with its ledger, if it leaves no dangling edge. -/
theorem Follows.step (h : w.Follows tracking L T)
    (hclosed : (T.advanceAll tracking (L.applied op)).Closed) (hstep : w.step op = some w') :
    w'.Follows tracking (L.step op) (T.advanceAll tracking (L.applied op)) := by
  have hfaithful := h.faithful.advanceAll L.pending
  cases stepped_of_step hstep with
  | done hop hdone =>
    obtain ⟨happlied, hsame⟩ := Ledger.step_of_closed _ (h.closed ▸ hdone) hop
    rw [happlied, hsame]
    exact h
  | @flush env _ hopen hflush =>
    rw [h.closed] at hopen
    obtain ⟨happlied, hdrained⟩ := Ledger.step_of_open (.flush env) hopen rfl
    rw [happlied] at hclosed ⊢
    rw [hdrained]
    exact h.flushLocked hopen (hfaithful.rooted hclosed) hflush
  | @compact env loops _ _ hopen hflush hw' =>
    rw [h.closed] at hopen
    obtain ⟨happlied, hdrained⟩ := Ledger.step_of_open (.compact env loops) hopen rfl
    rw [happlied] at hclosed ⊢
    rw [hdrained]
    have hroot := hfaithful.rooted hclosed
    have h₁ := h.flushLocked hopen hroot hflush
    rcases hw' with rfl | rfl
    · exact h₁
    · exact h₁.publish (h₁.batch.compactBatch hroot loops) h₁.faithful
  | apply | applyInitial | refused | seeded | close => exact h.step_of_quiet rfl hstep

theorem run_cons_eq_some (h : w.run (op :: ops) = some w') :
    ∃ w₁, w.step op = some w₁ ∧ w₁.run ops = some w' := by
  exact Option.bind_eq_some_iff.1 h

/-- A run of safe deltas. It leaves no dangling edge. -/
theorem Follows.run_of_safe (h : w.Follows tracking L T) (hclosed : T.Closed)
    (hsafe : L.SafeRun ops) (hrun : w.run ops = some w') :
    w'.Follows tracking (L.run ops) (T.advanceAll tracking (L.history ops)) ∧
      (T.advanceAll tracking (L.history ops)).Closed := by
  induction ops generalizing w L T with
  | nil =>
    cases hrun
    exact ⟨h, hclosed⟩
  | cons op ops ih =>
    obtain ⟨w₁, hstep, hrun⟩ := run_cons_eq_some hrun
    have hnext := h.faithful.closed_advanceAll hclosed hsafe.1
    rw [Ledger.history, Topology.advanceAll_append]
    exact ih (h.step hnext hstep) hnext hsafe.2 hrun

end Writer
end Lookout
