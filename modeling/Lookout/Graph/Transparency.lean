-- SUMMARY: Compaction is transparent: a run with compactions publishes, after each flush, the graph of the run without them.
import Lookout.Graph.Published

/-!
# Compaction is transparent

The reference for a run is the same run of a writer that never compacts:
`flushPlain` is a flush without the compaction at its end, and calls of `Compact`
are left out. Both writers fold the same deltas in the same order, so after a flush
they maintain one topology, and whatever comes next does the same to both.

Numbers do differ. Compaction drops the keys of nodes that are gone, and such a key
gets a new number when it comes back. The order of the keys that no compaction
drops is the same in both runs.
-/

namespace Lookout

open Lookout.Ledger Writer

section

variable [Platform]

/-! ## The writer without compaction -/

namespace Writer

/-- `flushLocked` without compaction. -/
def flushPlain (w : Writer) (env : Env) : Option Writer :=
  if w.closed then some w
  else if w.pending = [] ∧ w.snap.isSome then some w
  else
    let p := w.flushBatch env
    if maxIdentities < p.1.intern.keys.length then none
    else some (({ w with pending := [] }.publish p.1).deliver p.2)

/-- One call of a writer that never compacts. -/
def stepPlain (w : Writer) : WriterOp → Option Writer
  | .flush env => w.flushPlain env
  | .compact _ _ => some w
  | op => w.step op

def runPlain (w : Writer) (ops : List WriterOp) : Option Writer := ops.foldlM stepPlain w

end Writer

/-! ## The keys a run interns -/

namespace Build

theorem applyPending_intern (onChange : Bool) (env : Env) (p : Build × List ChangeRecord)
    (q : PendingDelta × Nat) :
    (applyPending onChange env p q).1.intern =
      p.1.intern.internAll (q.1.delta.keys onChange) := by
  have htrack : (p.1.trackChange (env.now q.2) q.1.delta).1.intern =
      (p.1.intern.intern q.1.delta.object.key).1 := by
    unfold trackChange
    split <;> rfl
  unfold applyPending Delta.keys
  cases onChange with
  | false => exact applyDelta_intern _ _ _
  | true =>
    simp only [Bool.not_true, Bool.false_eq_true, if_false]
    split
    · rw [applyDelta_intern, htrack]
      rfl
    · split <;> exact (applyDelta_intern _ _ _).trans (by rw [htrack]; rfl)

theorem seed_intern (onChange : Bool) (env : Env) (s : Build) (q : Object × Nat) :
    (seed onChange env s q).intern =
      s.intern.internAll ((⟨.add, q.1⟩ : Delta).keys onChange) := by
  cases onChange with
  | false | true => exact applyDelta_intern _ _ _

end Build

/-- The keys that a list of deltas interns, in order. -/
def deltasKeys (tracking : Bool) (ds : List Delta) : List GoString :=
  ds.flatMap (Delta.keys tracking)

theorem internAll_deltasKeys {α : Type} (tracking : Bool) (delta : α → Delta) (l : List α)
    (t : Interner GoString) : t.internAll (deltasKeys tracking (l.map delta)) =
      l.foldl (fun t a => t.internAll ((delta a).keys tracking)) t := by
  rw [deltasKeys, List.flatMap_map, Interner.internAll, List.foldl_flatMap]
  rfl

namespace Writer

variable {tracking : Bool} {w w' : Writer} {L : Ledger} {T : Topology}

theorem newBatch_intern (w : Writer) : w.newBatch.intern = w.priv.intern := by
  unfold newBatch
  split <;> rfl

theorem Follows.flushBatch_intern (h : w.Follows tracking L T) (env : Env) :
    (w.flushBatch env).1.intern = w.priv.intern.internAll (deltasKeys tracking L.pending) := by
  rw [← h.hook, ← h.pending, ← newBatch_intern, internAll_deltasKeys]
  refine Build.foldl_zipIdx_rel (fun (p : Build × List ChangeRecord) t => p.1.intern = t)
    (fun q p t hp => ?_) w.pending rfl
  rw [← hp, Build.applyPending_intern]

theorem restricts_compactBatch {s : Build} (h : s.WF) (loops : Nat → Map.RangeOrder) :
    (s.compactBatch loops).intern.Restricts s.intern := by
  refine Interner.restricts_renumber (Map.pairwise_sortedKeys s.nodes) fun id hid => ?_
  exact h.nodes id (Map.mem_iff_ne_none.1 (Map.mem_sortedKeys.1 hid))

variable {op : WriterOp} {env : Env} {ops : List WriterOp}

/-- A call that neither flushes nor compacts interns the keys of its deltas. -/
theorem Follows.intern_of_quiet (h : w.Follows tracking L T) (hop : op.mayCompact = false)
    (hstep : w.step op = some w') :
    w'.priv.intern = w.priv.intern.internAll (deltasKeys tracking (L.applied op)) := by
  have hqueue : ∀ ds sync, (w.queue ds sync).1.priv = w.priv := by
    intro ds sync
    obtain ⟨added, heq⟩ := w.queue_eq ds sync
    rw [heq]
  cases stepped_of_step hstep with
  | apply ds => exact congrArg (·.intern) (hqueue ds false)
  | applyInitial ds => exact congrArg (·.intern) (hqueue ds true)
  | refused hrefused =>
    rw [(step_of_refused fun os hos => h.closed ▸ hrefused os hos).1]
    rfl
  | seeded hvalid hopen =>
    rw [applied_of_valid (h.closed ▸ hopen) hvalid, ← h.hook, ← newBatch_intern w,
      internAll_deltasKeys]
    refine Build.foldl_zipIdx_rel (fun (s : Build) t => s.intern = t) (fun q s t hs => ?_) _ rfl
    rw [← hs, Build.seed_intern]
  | done hmay => cases hop.symm.trans hmay
  | flush => cases hop
  | compact => cases hop
  | close => rfl

/-- A flush of an open writer interns the keys of its deltas, and then may drop some. -/
theorem Follows.flushLocked_restricts (h : w.Follows tracking L T) (hopen : L.closed = false)
    (hflush : w.flushLocked env = some w') :
    w'.priv.intern.Restricts (w.priv.intern.internAll (deltasKeys tracking L.pending)) := by
  rw [← h.flushBatch_intern env]
  rcases flushLocked_cases (h.closed.trans hopen) hflush with
    ⟨hempty, -, rfl⟩ | ⟨-, -, s, rfl | ⟨-, rfl⟩, rfl⟩
  · rw [h.flushBatch_intern env, h.pending_eq_nil hempty]
    exact .refl _
  · exact .refl _
  · exact restricts_compactBatch (h.flushBatch env).wf env.loops

/-- Any call interns the keys of its deltas, and then may drop some. -/
theorem Follows.step_restricts (h : w.Follows tracking L T)
    (hclosed : (T.advanceAll tracking (L.applied op)).Closed) (hstep : w.step op = some w') :
    w'.priv.intern.Restricts
      (w.priv.intern.internAll (deltasKeys tracking (L.applied op))) := by
  cases stepped_of_step hstep with
  | done hop hclosed =>
    rw [(step_of_closed _ (h.closed ▸ hclosed) hop).1]
    exact .refl _
  | @flush env _ hopen hflush =>
    rw [h.closed] at hopen
    rw [(step_of_open (.flush env) hopen rfl).1]
    exact h.flushLocked_restricts hopen hflush
  | @compact env loops w₁ _ hopen hflush hw' =>
    rw [h.closed] at hopen
    rw [(step_of_open (.compact env loops) hopen rfl).1] at hclosed ⊢
    have hr := h.flushLocked_restricts hopen hflush
    have hroot := (h.faithful.advanceAll L.pending).rooted hclosed
    have h₁ := h.flushLocked hopen hroot hflush
    rcases hw' with rfl | rfl
    · exact hr
    · exact .trans (newBatch_intern w₁ ▸ restricts_compactBatch h₁.batch.wf loops) hr
  | apply | applyInitial | refused | seeded | close => exact h.intern_of_quiet rfl hstep ▸ .refl _

theorem flushPlain_cases (hopen : w.closed = false) (hflush : w.flushPlain env = some w') :
    w.pending = [] ∧ w' = w ∨
      w' = ({ w with pending := [] }.publish (w.flushBatch env).1).deliver (w.flushBatch env).2 := by
  unfold flushPlain at hflush
  rw [if_neg (by simp [hopen])] at hflush
  split at hflush
  · next hempty =>
    cases hflush
    exact .inl ⟨hempty.1, rfl⟩
  · dsimp only at hflush
    split at hflush
    · cases hflush
    · cases hflush
      exact .inr rfl

/-- One call of the writer that never compacts, whatever its deltas. -/
theorem Follows.stepPlain (h : w.Follows tracking L T) (hop : op.isCompact = false)
    (hstep : w.stepPlain op = some w') :
    w'.Follows tracking (L.step op) (T.advanceAll tracking (L.applied op)) ∧
      w'.priv.intern = w.priv.intern.internAll (deltasKeys tracking (L.applied op)) := by
  have hfaithful := h.faithful.advanceAll L.pending
  cases op with
  | flush env =>
    change w.flushPlain env = some w' at hstep
    cases hc : L.closed with
    | true =>
      obtain ⟨happlied, hsame⟩ := step_of_closed (.flush env) hc rfl
      rw [flushPlain, if_pos (h.closed.trans hc)] at hstep
      cases hstep
      rw [happlied, hsame]
      exact ⟨h, rfl⟩
    | false =>
      obtain ⟨happlied, hdrained⟩ := step_of_open (.flush env) hc rfl
      rw [happlied, hdrained]
      rcases flushPlain_cases (h.closed.trans hc) hstep with ⟨hempty, rfl⟩ | rfl
      · exact ⟨h.drained hempty, by rw [h.pending_eq_nil hempty]; rfl⟩
      · exact ⟨(h.withoutPending.publish (h.flushBatch env) hfaithful).deliver _,
          h.flushBatch_intern env⟩
  | compact env loops => cases hop
  | apply ds | applyInitial ds | fromObjects env objs | close =>
    exact ⟨h.step_of_quiet rfl hstep, h.intern_of_quiet rfl hstep⟩

theorem Follows.runPlain (h : w.Follows tracking L T) (hops : ∀ op ∈ ops, op.isCompact = false)
    (hrun : w.runPlain ops = some w') :
    w'.Follows tracking (L.run ops) (T.advanceAll tracking (L.history ops)) ∧
      w'.priv.intern = w.priv.intern.internAll (deltasKeys tracking (L.history ops)) := by
  induction ops generalizing w L T with
  | nil =>
    cases hrun
    exact ⟨h, rfl⟩
  | cons op ops ih =>
    obtain ⟨w₁, hstep, hrun⟩ := Option.bind_eq_some_iff.1 hrun
    obtain ⟨h₁, hintern⟩ := h.stepPlain (hops op (by simp)) hstep
    obtain ⟨h₂, hintern₂⟩ := ih h₁ (fun op' hop' => hops op' (by simp [hop'])) hrun
    rw [history, Topology.advanceAll_append]
    refine ⟨h₂, ?_⟩
    rw [hintern₂, hintern, deltasKeys, deltasKeys, deltasKeys, List.flatMap_append,
      Interner.internAll_append]

/-- No compaction of the run drops `key`: whenever a call starts with the key numbered or
    folds in a delta that mentions it, the key is numbered afterwards. -/
def Retains (key : GoString) : Ledger → Writer → List WriterOp → Prop
  | _, _, [] => True
  | L, w, op :: ops => ∀ w', w.step op = some w' →
    (key ∈ w.priv.intern.keys ∨ key ∈ deltasKeys w.onChange (L.applied op) →
      key ∈ w'.priv.intern.keys) ∧
    Retains key (L.step op) w' ops

/-- A run of safe deltas numbers the keys it retains in the order in which the deltas
    mention them first. -/
theorem Follows.run_sameOrder (h : w.Follows tracking L T) (hclosed : T.Closed)
    (hsafe : L.SafeRun ops) (hrun : w.run ops = some w') {P : GoString → Prop}
    (hP : ∀ key, P key → Retains key L w ops) {t : Interner GoString}
    (ht : Interner.SameOrder P w.priv.intern t) :
    Interner.SameOrder P w'.priv.intern (t.internAll (deltasKeys tracking (L.history ops))) := by
  induction ops generalizing w L T t with
  | nil =>
    cases hrun
    exact ht
  | cons op ops ih =>
    obtain ⟨w₁, hstep, hrun⟩ := run_cons_eq_some hrun
    have hnext := h.faithful.closed_advanceAll hclosed hsafe.1
    have hrestrict := h.step_restricts hnext hstep
    have ht₁ := (ht.internAll (deltasKeys tracking (L.applied op))).restrict hrestrict <| by
      intro key hkey hmem
      rw [Interner.mem_keys_internAll] at hmem
      exact (hP key hkey w₁ hstep).1 (h.hook ▸ hmem)
    rw [history, deltasKeys, List.flatMap_append, Interner.internAll_append]
    exact ih (h.step hnext hstep) hnext hsafe.2 hrun
      (fun key hkey => (hP key hkey w₁ hstep).2) ht₁

end Writer

/-! ## Runs of deltas -/

/-- A call without what it takes from its surroundings. -/
inductive Call where
  | apply (ds : List RawDelta)
  | applyInitial (ds : List RawDelta)
  | fromObjects (objs : List AnyObject)
  | flush
  | compact
  | close

def WriterOp.call : WriterOp → Call
  | .apply ds => .apply ds
  | .applyInitial ds => .applyInitial ds
  | .fromObjects _ objs => .fromObjects objs
  | .flush _ => .flush
  | .compact _ _ => .compact
  | .close => .close

namespace Call

def isCompact : Call → Bool
  | .compact => true
  | _ => false

def isFromObjects : Call → Bool
  | .fromObjects _ => true
  | _ => false

/-- A call of a run of deltas. -/
def isDelta : Call → Bool
  | .apply _ | .applyInitial _ | .flush | .compact => true
  | .fromObjects _ | .close => false

/-- The deltas that an open writer accepts. -/
def accepted : Call → List Delta
  | .apply ds | .applyInitial ds =>
    match validateDeltas 0 ds with
    | .error _ => []
    | .ok deltas => deltas
  | .fromObjects objs =>
    match validateObjects objs with
    | .error _ => []
    | .ok os => os.map (⟨.add, ·⟩)
  | .flush | .compact | .close => []

/-- Initial objects, if any, and then only deltas. -/
def DeltaRun (calls : List Call) : Prop :=
  ∃ seeds deltas, calls = seeds ++ deltas ∧ (∀ c ∈ seeds, c.isFromObjects = true) ∧
    ∀ c ∈ deltas, c.isDelta = true

theorem DeltaRun.filter {calls : List Call} (h : DeltaRun calls) (p : Call → Bool) :
    DeltaRun (calls.filter p) := by
  obtain ⟨seeds, deltas, rfl, hs, hd⟩ := h
  exact ⟨seeds.filter p, deltas.filter p, List.filter_append .., fun c hc =>
    hs c (List.mem_of_mem_filter hc), fun c hc => hd c (List.mem_of_mem_filter hc)⟩

theorem accepted_filter (calls : List Call) :
    (calls.filter (!·.isCompact)).flatMap accepted = calls.flatMap accepted := by
  induction calls with
  | nil => rfl
  | cons c calls ih => cases c <;> simp_all [isCompact, accepted]

end Call

namespace Ledger

variable {L : Ledger}

theorem history_append (L : Ledger) (ops ops' : List WriterOp) :
    L.history (ops ++ ops') = L.history ops ++ (L.run ops).history ops' := by
  induction ops generalizing L with
  | nil => rfl
  | cons op ops ih =>
    rw [List.cons_append, history, history, ih, List.append_assoc]
    rfl

theorem run_append (L : Ledger) (ops ops' : List WriterOp) :
    L.run (ops ++ ops') = (L.run ops).run ops' :=
  List.foldl_append

variable {ops : List WriterOp}

theorem history_seeds (hopen : L.closed = false) (hpending : L.pending = [])
    (hops : ∀ op ∈ ops, op.call.isFromObjects = true) :
    L.history ops = ops.flatMap (·.call.accepted) ∧ (L.run ops).closed = false ∧
      (L.run ops).pending = [] := by
  induction ops generalizing L with
  | nil => exact ⟨rfl, hopen, hpending⟩
  | cons op ops ih =>
    have hop := hops op (by simp)
    cases op with
    | fromObjects env objs =>
      have hstep : (L.step (.fromObjects env objs)).closed = false ∧
          (L.step (.fromObjects env objs)).pending = [] := by
        simp [step, nextPending, hopen, hpending]
      obtain ⟨hhist, hrun⟩ := ih hstep.1 hstep.2 fun op' hop' => hops op' (by simp [hop'])
      refine ⟨?_, hrun⟩
      rw [history, hhist, List.flatMap_cons]
      congr 1
      simp only [applied, hopen]
      rfl
    | _ => cases hop

theorem step_accepted (hopen : L.closed = false) {op : WriterOp} (hop : op.call.isDelta = true) :
    (L.step op).closed = false ∧
      L.applied op ++ (L.step op).pending = L.pending ++ op.call.accepted := by
  have hqueue : ∀ ds, (L.queue ds).pending = L.pending ++ (Call.apply ds).accepted := by
    intro ds
    simp only [queue, Call.accepted]
    cases hvalid : validateDeltas 0 ds with
    | error e => simp
    | ok deltas => simp [hopen]
  cases op with
  | apply ds | applyInitial ds => exact ⟨by simp [step, hopen], hqueue ds⟩
  | flush env | compact env loops =>
    simp [step, applied, nextPending, hopen, WriterOp.call, Call.accepted]
  | fromObjects env objs => cases hop
  | close => cases hop

theorem history_deltas (hopen : L.closed = false) (hops : ∀ op ∈ ops, op.call.isDelta = true) :
    L.history ops ++ (L.run ops).pending = L.pending ++ ops.flatMap (·.call.accepted) ∧
      (L.run ops).closed = false := by
  induction ops generalizing L with
  | nil => exact ⟨by simp [history, run], hopen⟩
  | cons op ops ih =>
    obtain ⟨hclosed, hstep⟩ := step_accepted hopen (hops op (by simp))
    obtain ⟨hhist, hrun⟩ := ih hclosed fun op' hop' => hops op' (by simp [hop'])
    refine ⟨?_, hrun⟩
    change L.applied op ++ (L.step op).history ops ++ ((L.step op).run ops).pending = _
    rw [List.append_assoc, hhist, ← List.append_assoc, hstep, List.flatMap_cons, List.append_assoc]

/-- A run of deltas that ends with a flush folds in all that it accepts, in order. -/
theorem history_flushed (h : Call.DeltaRun (ops.map (·.call))) (env : Env) :
    empty.history (ops ++ [.flush env]) = (ops.map (·.call)).flatMap Call.accepted := by
  obtain ⟨seeds, deltas, heq, hseeds, hdeltas⟩ := h
  obtain ⟨ss, dd, rfl, rfl, rfl⟩ := List.map_eq_append_iff.1 heq
  obtain ⟨hs, hsopen, hspending⟩ := empty.history_seeds rfl rfl fun op hop =>
    hseeds op.call (List.mem_map_of_mem hop)
  obtain ⟨hd, hdopen⟩ := (empty.run ss).history_deltas hsopen fun op hop =>
    hdeltas op.call (List.mem_map_of_mem hop)
  have hlast : (empty.run (ss ++ dd)).history [.flush env] =
      (empty.run (ss ++ dd)).pending := by
    rw [history, (step_of_open (.flush env) (by rw [run_append]; exact hdopen) rfl).1]
    exact List.append_nil _
  rw [history_append, hlast, history_append, run_append, List.append_assoc, hd, hs, hspending,
    List.nil_append, List.map_append, List.flatMap_append, List.flatMap_map, List.flatMap_map]

end Ledger

theorem WriterOp.isCompact_call (op : WriterOp) : op.call.isCompact = op.isCompact := by
  cases op <;> rfl

end

/-! ## The two runs compared -/

open Sample

/-- A run of safe deltas with compactions, and the same calls without any compaction. After a
    flush the snapshots agree by identity, retained keys are in the same order, and a later
    delta does the same to both. -/
theorem compaction_transparent [Platform] (onChange : Bool) (watched : Finset NodeKind)
    (ops ops' : List WriterOp) (hdeltas : Call.DeltaRun (ops.map (·.call)))
    (hplain : ops'.map (·.call) = (ops.map (·.call)).filter (!·.isCompact))
    (env env' : Env) (hsafe : empty.SafeRun (ops ++ [.flush env]))
    (w w' : Writer) (hrun : (new onChange watched).run (ops ++ [.flush env]) = some w)
    (hrun' : (new onChange watched).runPlain (ops' ++ [.flush env']) = some w')
    (S S' : Snapshot) (hS : w.snap = some S) (hS' : w'.snap = some S') :
    S.nodeAt = S'.nodeAt ∧ (∀ a b k, S.HasEdge a b k ↔ S'.HasEdge a b k) ∧
      (∀ a b, Writer.Retains a empty (new onChange watched) (ops ++ [.flush env]) →
        Writer.Retains b empty (new onChange watched) (ops ++ [.flush env]) →
        ∀ i j i' j', S.keyOf i = some a → S.keyOf j = some b → S'.keyOf i' = some a →
          S'.keyOf j' = some b → (i < j ↔ i' < j')) ∧
      ∀ d o o', (w.newBatch.applyDelta o d).view = (w'.newBatch.applyDelta o' d).view := by
  have hnew := follows_new onChange watched
  have hops' : ∀ op ∈ ops' ++ [.flush env'], op.isCompact = false := by
    intro op hop
    rcases List.mem_append.1 hop with hop | hop
    · have hcall := List.mem_map_of_mem (f := WriterOp.call) hop
      rw [hplain, List.mem_filter, op.isCompact_call] at hcall
      simpa using hcall.2
    · cases List.mem_singleton.1 hop
      rfl
  obtain ⟨h, hclosed⟩ := hnew.run_of_safe Topology.closed_empty hsafe hrun
  obtain ⟨h', hintern'⟩ := hnew.runPlain hops' hrun'
  -- Both runs fold in the same deltas.
  have hhistory : empty.history (ops' ++ [.flush env']) =
      empty.history (ops ++ [.flush env]) := by
    rw [history_flushed hdeltas, history_flushed (hplain ▸ hdeltas.filter _), hplain,
      Call.accepted_filter]
  rw [hhistory] at h' hintern'
  refine ⟨?_, ?_, ?_, ?_⟩
  · rw [h.nodeAt_eq hS, h'.nodeAt_eq hS']
  · intro a b k
    rw [h.hasEdge_iff hS hclosed, h'.hasEdge_iff hS' hclosed]
  · intro a b ha hb i j i' j' hi hj hi' hj'
    have horder := hnew.run_sameOrder Topology.closed_empty hsafe hrun
      (P := fun key => Writer.Retains key empty (new onChange watched)
        (ops ++ [.flush env])) (fun _ hkey => hkey) (.refl _)
    rw [← hintern'] at horder
    rw [h.keyOf hS] at hi hj
    rw [h'.keyOf hS'] at hi' hj'
    have hab := horder.order a b ha hb
    rwa [Interner.before_iff hi hj, Interner.before_iff hi' hj'] at hab
  · intro d o o'
    rw [(h.batch.applyDelta o d).means, (h'.batch.applyDelta o' d).means]

/-- The rebinding with its compaction, and the same deltas without it. -/
theorem rebindRun_transparent :
    ∃ w S w' S', (new true ∅).run (rebindRun.take 5 ++ [.flush env]) = some w ∧
      w.snap = some S ∧
      (new true ∅).runPlain (rebindRun.eraseIdx 3) = some w' ∧
      w'.snap = some S' ∧ S.keys ≠ S'.keys ∧ S.HasEdge boundPod.key nodeN1 .runsOn ∧
      S.nodeAt = S'.nodeAt ∧ ∀ a b k, S.HasEdge a b k ↔ S'.HasEdge a b k := by
  have hruns : ∃ w ∈ (new true ∅).run (rebindRun.take 5 ++ [.flush env]), ∃ S ∈ w.snap,
      ∃ w' ∈ (new true ∅).runPlain (rebindRun.eraseIdx 3), ∃ S' ∈ w'.snap,
        S.keys ≠ S'.keys ∧ S.HasEdge boundPod.key nodeN1 .runsOn := by
    decide +kernel
  obtain ⟨w, hw, S, hS, w', hw', S', hS', hkeys, hedge⟩ := hruns
  obtain ⟨hnodes, hedges, -⟩ := compaction_transparent true ∅ (rebindRun.take 5)
    ((rebindRun.eraseIdx 3).take 4) ⟨[], _, rfl, by simp, by decide⟩ rfl env env safe_rebindRun
    w w' hw hw' S S' hS hS'
  exact ⟨w, S, w', S', hw, hS, hw', hS', hkeys, hedge, hnodes, hedges⟩

/-- After a swap the Node is observed. The automatic compaction has lost the edge to it. -/
theorem swap_not_transparent :
    ∃ w S w' S', (new false ∅).run (swapRun ++ nodeRun (bytes "n1")) = some w ∧ w.snap = some S ∧
      (new false ∅).runPlain (swapRun ++ nodeRun (bytes "n1")) = some w' ∧ w'.snap = some S' ∧
      ¬ S.HasEdge boundPod.key nodeN1 .runsOn ∧ S'.HasEdge boundPod.key nodeN1 .runsOn := by
  have hrun : ∃ w ∈ (new false ∅).run (swapRun ++ nodeRun (bytes "n1")), ∃ S ∈ w.snap,
      ¬ S.HasEdge boundPod.key nodeN1 .runsOn := by
    decide +kernel
  have hplain : ∃ w ∈ (new false ∅).runPlain (swapRun ++ nodeRun (bytes "n1")), ∃ S ∈ w.snap,
      S.HasEdge boundPod.key nodeN1 .runsOn := by
    decide +kernel
  obtain ⟨w, hw, S, hS, hno⟩ := hrun
  obtain ⟨w', hw', S', hS', hyes⟩ := hplain
  exact ⟨w, S, w', S', hw, hS, hw', hS', hno, hyes⟩

end Lookout
