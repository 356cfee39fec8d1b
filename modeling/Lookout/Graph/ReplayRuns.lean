-- SUMMARY: Replaying the records that a live run delivers, on top of a snapshot of the run, gives the live snapshot.
import Lookout.Graph.Published
import Lookout.Graph.ReplayDelta

/-!
# Replaying a run

A writer with a change hook delivers one record for each live delta. Every record
carries a non-empty log, and the logs of a flush, replayed in order, turn a replica
of the batch before the flush into one of the batch after it. The invariant of the
run is that the records delivered since a snapshot replay on it to a replica of the
writer's batch.

Initial sync and compaction change the graph without records. A run is live when no
such change happens in it.
-/

namespace Lookout

open Writer (new seed)

variable {effects : List Effect} {r : Replayer} {recs recs' : List ChangeRecord}

/-! ## Replaying records -/

/-- Every entry of a log takes at least one byte. -/
theorem Effect.length_le_encodeLog (effects : List Effect) :
    effects.length ≤ (Effect.encodeLog effects).length := by
  have hflat : effects.length ≤ (effects.flatMap Effect.encode).length := by
    induction effects with
    | nil => simp
    | cons e effects ih =>
      have hpos : 1 ≤ e.encode.length := by cases e <;> simp [Effect.encode]
      rw [List.flatMap_cons, List.length_append, List.length_cons]
      omega
  cases effects with
  | nil => simp
  | cons e effects =>
    simp only [Effect.encodeLog, List.length_cons, List.length_append] at hflat ⊢
    omega

theorem Effect.encodeLog_ne_nil (h : effects ≠ []) : Effect.encodeLog effects ≠ [] := by
  cases effects with
  | nil => exact absurd rfl h
  | cons e effects => simp [Effect.encodeLog]

/-- The effects of a batch that can be published fit the wire format, if its keys do. -/
theorem Effect.Within.fits {t : Interner GoString} {e : Effect} (h : e.Within t)
    (hroom : t.keys.length ≤ maxIdentities) (hkeys : ∀ k ∈ t.keys, k.length ≤ maxRestoreStringLen) :
    e.Fits := by
  have hmax : maxIdentities ≤ maxUint32 := by decide
  have hid : ∀ {id : NodeID}, id ≤ t.keys.length → id ≤ maxUint32 :=
    fun hid => hid.trans (hroom.trans hmax)
  cases e with
  | nodeNew id kind key => exact ⟨hid h.1, hkeys key h.2⟩
  | observe id kind | unobserve id | gc id => exact hid h
  | edgeAdd e | edgeRemove e => exact ⟨hid h.1, hid h.2⟩

namespace Replayer

/-- Replay records in order. -/
def replay (r : Replayer) (recs : List ChangeRecord) : Except ReplayError Replayer :=
  recs.foldlM (fun r rcd => r.apply rcd.generation rcd.effect) r

theorem replay_append {r' : Replayer} (h : r.replay recs = .ok r') :
    r.replay (recs ++ recs') = r'.replay recs' := by
  unfold replay at h ⊢
  rw [List.foldlM_append, h]
  rfl

/-- A record of a later generation sets the generation first. -/
theorem replay_stamp {generation : Nat} (hgen : r.gen ≤ generation) (hne : recs ≠ [])
    (hrecs : ∀ rcd ∈ recs, rcd.generation = generation) :
    r.replay recs = { r with gen := generation }.replay recs := by
  cases recs with
  | nil => exact absurd rfl hne
  | cons rcd recs =>
    have hfirst : r.apply rcd.generation rcd.effect =
        { r with gen := generation }.apply rcd.generation rcd.effect := by
      rw [hrecs rcd (by simp)]
      simp only [apply, if_pos hgen, Nat.le_refl, if_true]
    unfold replay
    rw [List.foldlM_cons, List.foldlM_cons, hfirst]

end Replayer

section

variable [Platform]

namespace Build

variable {s s' : Build}

/-- Only the tables that name nodes matter for the numbering. -/
theorem Numbered.withTracking (h : s.Numbered) (tracked : Map NodeID TrackedState)
    (log : Option (List Effect)) : { s with tracked := tracked, log := log }.Numbered :=
  ⟨h.nodes, h.declared, h.podLabels, h.selectors⟩

/-- Tracking a delta gives the object its number and changes only fingerprints. -/
theorem trackChange_eq (s : Build) (now : Int) (d : Delta) :
    ∃ tracked, (s.trackChange now d).1 =
      { (s.internKey d.object.key).1 with tracked := tracked } := by
  unfold trackChange
  split
  · exact ⟨_, rfl⟩
  · exact ⟨_, rfl⟩

theorem Numbered.trackChange (h : s.Numbered) (now : Int) (d : Delta) :
    (s.trackChange now d).1.Numbered := by
  obtain ⟨tracked, htrack⟩ := s.trackChange_eq now d
  rw [htrack]
  exact (h.internKey _).withTracking tracked _

theorem Numbered.applyDelta (h : s.Numbered) (o : Map.RangeOrder) (d : Delta) :
    (s.applyDelta o d).Numbered :=
  ((mirrored_node s _ d.object.metadata.ns.noSlash _).trans
    (recorded_applyDelta s o d).mirrored h).2

/-- From `s` to `s'` the records are made, and replaying them takes replicas to replicas,
    if the batch can be published and the wire format holds its keys and logs. -/
structure Records (s : Build) (recs : List ChangeRecord) (s' : Build) : Prop where
  keys : s.intern.keys <+: s'.intern.keys
  replay : ∀ r : Replayer, r.done = false → s'.intern.keys.length ≤ maxIdentities →
    (∀ k ∈ s'.intern.keys, k.length ≤ maxRestoreStringLen) →
    (∀ rcd ∈ recs, rcd.effect.length < 2 ^ 64) →
    (s.replica r).replay (recs.map fun rcd => { rcd with generation := r.gen }) =
      .ok (s'.replica r)

theorem Records.refl (s : Build) : s.Records [] s :=
  ⟨List.prefix_rfl, fun _ _ _ _ _ => rfl⟩

theorem Records.append {s'' : Build} (h : s.Records recs s') (h' : s'.Records recs' s'') :
    s.Records (recs ++ recs') s'' where
  keys := h.keys.trans h'.keys
  replay := by
    intro r hopen hroom hkeys hsize
    have hfirst := h.replay r hopen (h'.keys.length_le.trans hroom)
      (fun k hk => hkeys k (h'.keys.subset hk)) fun rcd hrcd => hsize rcd (by simp [hrcd])
    rw [List.map_append, Replayer.replay_append hfirst]
    exact h'.replay r hopen hroom hkeys fun rcd hrcd => hsize rcd (by simp [hrcd])

/-- A live delta records effects that take replicas of the batch before it to replicas
    of the batch after it. -/
theorem Numbered.applyTracked (h : s.Numbered) (now : Int) (o : Map.RangeOrder) (d : Delta) :
    ∃ effects s₁, { (s.trackChange now d).1 with log := some [] }.applyDelta o d = s₁ ∧
      s₁.Numbered ∧ effects ≠ [] ∧ s₁.log = some effects ∧
      ∃ tracked, { s with tracked := tracked, log := some [] }.Emits effects s₁ := by
  obtain ⟨tracked, htrack⟩ := s.trackChange_eq now d
  have hstart : { (s.trackChange now d).1 with log := some [] } =
      ({ s with tracked := tracked, log := some [] }.internKey d.object.key).1 := by
    rw [htrack]
    rfl
  have hnode := mirrored_tracked_node { s with tracked := tracked, log := some [] } d.object.kind
    d.object.metadata.ns.noSlash d.object.metadata.name
  obtain ⟨⟨effects, hne, hemits⟩, hnum⟩ :=
    hnode.trans_recorded (recorded_applyDelta _ o d) (h.withTracking tracked (some []))
  exact ⟨effects, _, by rw [hstart]; rfl, hnum, hne, hemits.log, tracked, hemits⟩

/-- The record of a live delta whose log is not empty. -/
theorem applyPending_of_log {s₁ : Build} (env : Env) {q : PendingDelta × Nat}
    (hlive : q.1.sync = false)
    (hs₁ : { (s.trackChange (env.now q.2) q.1.delta).1 with log := some [] }.applyDelta
      (env.order q.2) q.1.delta = s₁) (hlog : s₁.log = some effects) (hne : effects ≠ [])
    (recs : List ChangeRecord) :
    Writer.applyPending true env (s, recs) q = ({ s₁ with log := none }, recs ++
      [{ (s.trackChange (env.now q.2) q.1.delta).2 with effect := Effect.encodeLog effects }]) := by
  simp [Writer.applyPending, hlive, hs₁, hlog, Effect.encodeLog_ne_nil hne]

section

variable (h : s.Numbered)

include h

/-- A live delta makes one record. -/
theorem Numbered.applyPending (env : Env) {q : PendingDelta × Nat} (hlive : q.1.sync = false)
    (recs : List ChangeRecord) :
    ∃ rcd s', Writer.applyPending true env (s, recs) q = (s', recs ++ [rcd]) ∧
      s.Records [rcd] s' ∧ s'.Numbered := by
  obtain ⟨effects, s₁, hs₁, hnum, hne, hlog, tracked, hemits⟩ :=
    h.applyTracked (env.now q.2) (env.order q.2) q.1.delta
  refine ⟨{ (s.trackChange (env.now q.2) q.1.delta).2 with effect := Effect.encodeLog effects },
    { s₁ with log := none }, ?_, ⟨hemits.keys, ?_⟩, hnum.withTracking _ none⟩
  · exact applyPending_of_log env hlive hs₁ hlog hne recs
  · intro r hopen hroom hkeys hsize
    have hfits : ∀ e ∈ effects, e.Fits := fun e he => (hemits.within e he).fits hroom hkeys
    have hcount : effects.length < 2 ^ 64 :=
      Nat.lt_of_le_of_lt (Effect.length_le_encodeLog effects) (hsize _ (List.mem_singleton_self _))
    have hmax : { s.replica r with gen := max (s.replica r).gen r.gen } = s.replica r := by
      simp [replica]
    have happly : (s.replica r).apply r.gen (Effect.encodeLog effects) = .ok (s₁.replica r) :=
      Replayer.apply_encodeLog hopen hfits hcount (hmax.symm ▸ hemits.replay r)
    simp only [List.map_cons, Replayer.replay, List.foldlM_cons, happly]
    rfl

/-- A batch of live deltas makes a record for each of them. -/
theorem Numbered.applyLive (env : Env) (qs : List (PendingDelta × Nat))
    (hlive : ∀ q ∈ qs, q.1.sync = false) :
    ∃ recs s', qs.foldl (Writer.applyPending true env) (s, []) = (s', recs) ∧
      recs.length = qs.length ∧ s.Records recs s' ∧ s'.Numbered := by
  induction qs using List.reverseRecOn with
  | nil => exact ⟨[], s, rfl, rfl, .refl s, h⟩
  | append_singleton qs q ih =>
    obtain ⟨recs, s₁, hfold, hlen, hrecs, hnum⟩ := ih fun q' hq' => hlive q' (by simp [hq'])
    obtain ⟨rcd, s₂, hstep, hrec, hnum₂⟩ := hnum.applyPending env (hlive q (by simp)) recs
    refine ⟨recs ++ [rcd], s₂, ?_, by simp [hlen], hrecs.append hrec, hnum₂⟩
    rw [List.foldl_append, hfold]
    exact hstep

/-! ## Numbers through a batch -/

/-- Pending deltas keep the batch numbered, live or not. -/
theorem Numbered.applyAll (onChange : Bool) (env : Env) (pending : List PendingDelta) :
    (Writer.applyAll onChange env s pending).1.Numbered := by
  unfold Writer.applyAll
  generalize pending.zipIdx = qs
  induction qs using List.reverseRecOn with
  | nil => exact h
  | append_singleton qs q ih =>
    rw [List.foldl_append]
    generalize qs.foldl (Writer.applyPending onChange env) (s, []) = p at ih
    simp only [List.foldl_cons, Writer.applyPending]
    split
    · exact ih.applyDelta _ _
    · have htrack := ih.trackChange (env.now q.2) q.1.delta
      split
      · exact htrack.applyDelta _ _
      · split
        · exact ((htrack.withTracking _ (some [])).applyDelta _ _).withTracking _ none
        · exact ((htrack.withTracking _ (some [])).applyDelta _ _).withTracking _ none

/-- So do the objects of an initial sync. -/
theorem Numbered.seedAll (onChange : Bool) (env : Env) (qs : List (Object × Nat)) :
    (qs.foldl (seed onChange env) s).Numbered := by
  induction qs generalizing s with
  | nil => exact h
  | cons q qs ih =>
    refine ih ?_
    unfold seed
    split
    · exact ((h.internKey _).withTracking _ _).applyDelta _ _
    · exact h.applyDelta _ _

theorem Numbered.keyed_sortedKeys : ∀ id ∈ Map.sortedKeys s.nodes, (s.intern.keyOf? id).isSome := by
  intro id hid
  exact h.nodes id (Map.mem_iff_ne_none.1 (Map.mem_sortedKeys.1 hid))

/-- Compaction numbers the nodes that are left, also when edges dangle. -/
theorem Numbered.compactBatch (loops : Nat → Map.RangeOrder) : (s.compactBatch loops).Numbered := by
  have hnodup := Map.nodup_sortedKeys s.nodes
  have hids := h.keyed_sortedKeys
  have hkept : ∀ {id j}, Interner.remap (Map.sortedKeys s.nodes) id = some j →
      j ≤ (s.intern.renumber (Map.sortedKeys s.nodes)).keys.length := by
    intro id j hj
    obtain ⟨k, hk⟩ := Option.isSome_iff_exists.1
      (hids id (Interner.remap_isSome.1 (Option.isSome_iff_exists.2 ⟨j, hj⟩)))
    have hkey := (Interner.keyOf?_renumber hnodup hids).2 ⟨id, hj, hk⟩
    exact le_of_keyOf? (Option.isSome_iff_exists.2 ⟨k, hkey⟩)
  have hle : ∀ id, remapped (Map.sortedKeys s.nodes) id ≤
      (s.intern.renumber (Map.sortedKeys s.nodes)).keys.length := by
    intro id
    unfold remapped
    cases hj : Interner.remap (Map.sortedKeys s.nodes) id with
    | none => exact Nat.zero_le _
    | some j => exact hkept hj
  have htable : ∀ {α : Type} (o : Map.RangeOrder) (m : Map NodeID α),
      (s.intern.renumber (Map.sortedKeys s.nodes)).Covers
        (remapTable o (Map.sortedKeys s.nodes) m) :=
    fun o m => Interner.covers_renumber hnodup hids (g := fun v => v) (lookup_remapTable hnodup)
  refine ⟨Interner.covers_renumber hnodup hids (compactBatch_nodes s loops), ?_, ?_, ?_⟩
  · intro j es' hes' e' he'
    obtain ⟨id, es, -, -, rfl⟩ := (compactBatch_declared s loops j es').1 hes'
    obtain ⟨e, -, he⟩ := List.mem_filterMap.1 he'
    obtain ⟨newTo, hto, rfl⟩ := Option.map_eq_some_iff.1 he
    exact ⟨hle e.src, hkept hto⟩
  · intro ns
    exact (getD_mapVals_remapTable s.podLabels ns).symm ▸ htable _ _
  · intro ns
    exact (getD_mapVals_remapTable s.selectors ns).symm ▸ htable _ _

end

/-- Compaction gives out no new key. -/
theorem compactBatch_keys_le (s : Build) (loops : Nat → Map.RangeOrder) :
    (s.compactBatch loops).intern.keys.length ≤ s.intern.keys.length := by
  refine (List.Nodup.subperm (Interner.nodup_keys _) fun k hk => ?_).length_le
  change k ∈ (s.intern.renumber (Map.sortedKeys s.nodes)).keys at hk
  rw [Interner.keys_renumber (Map.nodup_sortedKeys s.nodes)] at hk
  obtain ⟨id, -, hid⟩ := List.mem_filterMap.1 hk
  exact Interner.mem_keys_of_keyOf? hid

end Build

/-- Calls that only queue live deltas or flush. -/
def WriterOp.isLive : WriterOp → Bool
  | .apply _ | .flush _ => true
  | _ => false

/-! ## The writer and its snapshot -/

namespace Writer

/-- The snapshot shows the writer's private state, and no record is from the future. It
    holds in every run, whatever is compacted. -/
structure Coherent (tracking : Bool) (w : Writer) : Prop where
  hook : w.onChange = tracking
  numbered : w.newBatch.Numbered
  room : w.priv.intern.keys.length ≤ maxIdentities
  keys : ∀ S ∈ w.snap, S.keys = w.priv.intern.keys
  ids : ∀ S ∈ w.snap, S.ids = w.priv.intern.ids
  watched : ∀ S ∈ w.snap, S.watched = w.watched
  generation : ∀ S ∈ w.snap, S.generation = w.gen
  records : ∀ rcd ∈ w.delivered, rcd.generation ≤ w.gen

theorem coherent_new (tracking : Bool) (watched : Finset NodeKind) :
    (new tracking watched).Coherent tracking where
  hook := rfl
  numbered :=
    ⟨.empty _, by simp [newBatch, new, Private.empty], fun _ => .empty _, fun _ => .empty _⟩
  room := Nat.zero_le _
  keys := by simp [new]
  ids := by simp [new]
  watched := by simp [new]
  generation := by simp [new]
  records := by simp [new]

variable {tracking : Bool} {w w' : Writer}

theorem newBatch_toPrivate (w : Writer) : w.newBatch.toPrivate = w.priv := by
  unfold newBatch
  split <;> rfl

theorem Coherent.publish (h : w.Coherent tracking) {s : Build} (hs : s.Numbered)
    (hroom : s.intern.keys.length ≤ maxIdentities) : (w.publish s).Coherent tracking where
  hook := h.hook
  numbered := hs.withTracking _ none
  room := hroom
  keys := by
    rintro S ⟨rfl⟩
    rfl
  ids := by
    rintro S ⟨rfl⟩
    rfl
  watched := by
    rintro S ⟨rfl⟩
    rfl
  generation := by
    rintro S ⟨rfl⟩
    rfl
  records := fun rcd hrcd => (h.records rcd hrcd).trans (Nat.le_succ _)

theorem Coherent.withPending (h : w.Coherent tracking) (pending : List PendingDelta) (closed : Bool) :
    { w with pending := pending, closed := closed }.Coherent tracking :=
  ⟨h.hook, h.numbered, h.room, h.keys, h.ids, h.watched, h.generation, h.records⟩

theorem Coherent.deliver (h : w.Coherent tracking) (recs : List ChangeRecord) :
    (w.deliver recs).Coherent tracking := by
  refine ⟨h.hook, h.numbered, h.room, h.keys, h.ids, h.watched, h.generation, fun rcd hrcd => ?_⟩
  rcases List.mem_append.1 hrcd with hrcd | hrcd
  · exact h.records rcd hrcd
  · obtain ⟨rcd', -, rfl⟩ := List.mem_map.1 hrcd
    exact Nat.le_refl w.gen

theorem Coherent.queue (h : w.Coherent tracking) (ds : List RawDelta) (sync : Bool) :
    (w.queue ds sync).1.Coherent tracking := by
  obtain ⟨added, heq⟩ := w.queue_eq ds sync
  rw [heq]
  exact h.withPending _ w.closed

variable {env : Env} {op : WriterOp} {ops : List WriterOp}

section

variable (h : w.Coherent tracking)

include h

theorem Coherent.flushLocked (hopen : w.closed = false) (hflush : w.flushLocked env = some w') :
    w'.Coherent tracking := by
  have hbatch : (w.flushBatch env).1.Numbered := h.numbered.applyAll w.onChange env w.pending
  rcases flushLocked_cases hopen hflush with
    ⟨-, -, rfl⟩ | ⟨-, hroom, s, rfl | ⟨-, rfl⟩, rfl⟩
  · exact h
  · exact ((h.withPending [] w.closed).publish hbatch hroom).deliver _
  · exact ((h.withPending [] w.closed).publish (hbatch.compactBatch _)
      ((Build.compactBatch_keys_le ..).trans hroom)).deliver _

/-- Every call keeps the writer coherent. -/
theorem Coherent.step (hstep : w.step op = some w') : w'.Coherent tracking := by
  cases stepped_of_step hstep with
  | apply ds => exact h.queue ds false
  | applyInitial ds => exact h.queue ds true
  | refused => exact h
  | seeded _ _ hroom => exact h.publish (h.numbered.seedAll w.onChange _ _) hroom
  | done => exact h
  | flush hopen hflush => exact h.flushLocked hopen hflush
  | compact hopen hflush hw' =>
    have h₁ := h.flushLocked hopen hflush
    rcases hw' with rfl | rfl
    · exact h₁
    · refine h₁.publish (h₁.numbered.compactBatch _) ((Build.compactBatch_keys_le ..).trans ?_)
      rw [newBatch_toPrivate]
      exact h₁.room
  | close => exact h.withPending [] true

theorem Coherent.run (hrun : w.run ops = some w') : w'.Coherent tracking := by
  induction ops generalizing w with
  | nil =>
    cases hrun
    exact h
  | cons op ops ih =>
    obtain ⟨w₁, hstep, hrest⟩ := run_cons_eq_some hrun
    exact ih (h.step hstep) hrest

end

/-! ## Live runs -/

/-- A call that changes the graph only by live deltas. A flush has no delta of an initial
    sync in its queue, a `Compact` renumbers nothing, and a `FromObjects` is refused. -/
def LiveStep (w : Writer) : WriterOp → Prop
  | .flush _ => ∀ p ∈ w.pending, p.sync = false
  | .compact env loops =>
    (∀ p ∈ w.pending, p.sync = false) ∧ w.compact env loops = w.flushLocked env
  | .fromObjects env objs => ∃ e, w.fromObjects env objs = some (w, .error e)
  | .apply _ | .applyInitial _ | .close => True

def LiveRun : Writer → List WriterOp → Prop
  | _, [] => True
  | w, op :: ops => w.LiveStep op ∧ ∀ w', w.step op = some w' → w'.LiveRun ops

/-- What a live flush of a published writer with a change hook does: nothing, or it
    publishes a batch and delivers the records that were made. -/
theorem Coherent.flushLive (h : w.Coherent true) (hsnap : w.snap.isSome)
    (hlive : ∀ p ∈ w.pending, p.sync = false) (hflush : w.flushLocked env = some w') :
    w' = w ∨ ∃ recs s, recs ≠ [] ∧ w.newBatch.Records recs s ∧
      s.intern.keys.length ≤ maxIdentities ∧
      w' = ({ w with pending := [] }.publish s).deliver recs := by
  by_cases hclosed : w.closed = true
  · rw [Writer.flushLocked, if_pos hclosed] at hflush
    cases hflush
    exact .inl rfl
  · have hopen := Bool.eq_false_of_not_eq_true hclosed
    obtain ⟨recs, s, hfold, hlen, hrecs, -⟩ := h.numbered.applyLive env w.pending.zipIdx
      fun q hq => hlive q.1 (List.fst_mem_of_mem_zipIdx hq)
    have hbatch : w.flushBatch env = (s, recs) := by
      rw [flushBatch, h.hook]
      exact hfold
    rcases flushLocked_cases hopen hflush with
      ⟨-, -, rfl⟩ | ⟨hwork, hroom, s', rfl | ⟨hoff, -⟩, rfl⟩
    · exact .inl rfl
    · rw [hbatch] at hroom ⊢
      refine .inr ⟨recs, s, ?_, hrecs, hroom, rfl⟩
      rintro rfl
      have hnil : w.pending = [] := by
        simpa using hlen.symm
      exact hwork ⟨hnil, hsnap⟩
    · rw [h.hook] at hoff
      cases hoff

/-- What a live call of a published writer with a change hook does. -/
theorem Coherent.liveStep_cases (h : w.Coherent true) (hsnap : w.snap.isSome)
    (hlive : w.LiveStep op) (hstep : w.step op = some w') :
    (∃ pending closed, w' = { w with pending := pending, closed := closed }) ∨
      ∃ recs s, recs ≠ [] ∧ w.newBatch.Records recs s ∧
        s.intern.keys.length ≤ maxIdentities ∧
        w' = ({ w with pending := [] }.publish s).deliver recs := by
  have hqueue : ∀ ds sync, ∃ pending closed,
      (w.queue ds sync).1 = { w with pending := pending, closed := closed } := by
    intro ds sync
    obtain ⟨added, heq⟩ := w.queue_eq ds sync
    exact ⟨_, w.closed, heq⟩
  cases op with
  | apply ds =>
    cases hstep
    exact .inl (hqueue ds false)
  | applyInitial ds =>
    cases hstep
    exact .inl (hqueue ds true)
  | fromObjects env objs =>
    obtain ⟨e, hrefused⟩ := hlive
    rw [Writer.step, hrefused] at hstep
    cases hstep
    exact .inl ⟨w.pending, w.closed, rfl⟩
  | flush env =>
    cases stepped_of_step hstep with
    | done => exact .inl ⟨w.pending, w.closed, rfl⟩
    | flush _ hflush =>
      exact (h.flushLive hsnap hlive hflush).imp_left fun heq => ⟨w.pending, w.closed, heq⟩
  | compact env loops =>
    rw [Writer.step, hlive.2] at hstep
    exact (h.flushLive hsnap hlive.1 hstep).imp_left fun heq => ⟨w.pending, w.closed, heq⟩
  | close =>
    cases hstep
    exact .inl ⟨[], true, rfl⟩

/-! ## Replaying a live run -/

/-- The records delivered since `S` replay on it to a replica of the writer's batch. -/
structure Replays (S : Snapshot) (w : Writer) : Prop where
  published : w.snap.isSome
  watched : S.watched = w.watched
  since : S.generation ≤ w.gen
  replay : (Replayer.new S).replay (w.delivered.filter fun rcd => S.generation < rcd.generation) =
    .ok (w.newBatch.replica { Replayer.new S with gen := w.gen })

variable {S : Snapshot}

/-- A fresh replayer of the writer's snapshot is a replica of its batch. -/
theorem Coherent.replays (h : w.Coherent true) (hS : w.snap = some S) :
    w.Replays S := by
  have hgen := h.generation S hS
  refine ⟨by simp [hS], h.watched S hS, Nat.le_of_eq hgen, ?_⟩
  have hnone : (w.delivered.filter fun rcd => S.generation < rcd.generation) = [] := by
    rw [List.filter_eq_nil_iff]
    intro rcd hrcd
    have hle := h.records rcd hrcd
    simp only [decide_eq_true_eq]
    omega
  rw [hnone]
  refine congrArg Except.ok ?_
  simp only [Replayer.new, newBatch, hS, Build.replica, h.keys S hS, idsOfKeys_keys, hgen]

/-- `w'` is published and has all the keys and records of `w`. -/
structure Extends (w w' : Writer) : Prop where
  published : w'.snap.isSome
  keys : w.priv.intern.keys <+: w'.priv.intern.keys
  delivered : w.delivered <+: w'.delivered

/-- Live calls only add keys and records. -/
theorem Coherent.liveStep_extends (h : w.Coherent true) (hsnap : w.snap.isSome)
    (hlive : w.LiveStep op) (hstep : w.step op = some w') : w.Extends w' := by
  rcases h.liveStep_cases hsnap hlive hstep with
    ⟨pending, closed, rfl⟩ | ⟨recs, s, -, hrecs, -, rfl⟩
  · exact ⟨hsnap, List.prefix_rfl, List.prefix_rfl⟩
  · refine ⟨rfl, ?_, List.prefix_append _ _⟩
    rw [← newBatch_toPrivate w]
    exact hrecs.keys

/-- One live call: what it delivers replays on top. -/
theorem Replays.step (hw : w.Replays S) (h : w.Coherent true) (hlive : w.LiveStep op)
    (hstep : w.step op = some w')
    (hkeys : ∀ k ∈ w'.priv.intern.keys, k.length ≤ maxRestoreStringLen)
    (hsize : ∀ rcd ∈ w'.delivered, rcd.effect.length < 2 ^ 64) : w'.Replays S := by
  rcases h.liveStep_cases hw.published hlive hstep with
    ⟨pending, closed, rfl⟩ | ⟨recs, s, hne, hrecs, hroom, rfl⟩
  · exact ⟨hw.published, hw.watched, hw.since, hw.replay⟩
  · have hsince := hw.since
    refine ⟨rfl, hw.watched, hsince.trans (Nat.le_succ _), ?_⟩
    have hstamped : ∀ rcd ∈ recs.map fun rcd => { rcd with generation := w.gen + 1 },
        rcd.generation = w.gen + 1 := by
      intro rcd hrcd
      obtain ⟨_, -, rfl⟩ := List.mem_map.1 hrcd
      rfl
    have hnew : ((recs.map fun rcd => { rcd with generation := w.gen + 1 }).filter
        fun rcd => S.generation < rcd.generation) =
          recs.map fun rcd => { rcd with generation := w.gen + 1 } := by
      rw [List.filter_eq_self]
      intro rcd hrcd
      rw [hstamped rcd hrcd, decide_eq_true_eq]
      omega
    have hrest := hrecs.replay { Replayer.new S with gen := w.gen + 1 } rfl hroom hkeys
      fun rcd hrcd => hsize { rcd with generation := w.gen + 1 }
        (List.mem_append_right _ (List.mem_map_of_mem hrcd))
    change (Replayer.new S).replay ((w.delivered ++
      recs.map fun rcd : ChangeRecord => { rcd with generation := w.gen + 1 }).filter _) = _
    rw [List.filter_append, hnew, Replayer.replay_append hw.replay,
      Replayer.replay_stamp (Nat.le_succ _) (by simpa using hne) hstamped]
    exact hrest

/-- A live run: the keys and records of its end include those of every state on the way. -/
theorem Coherent.liveRun (h : w.Coherent true) (hsnap : w.snap.isSome) (hlive : w.LiveRun ops)
    (hrun : w.run ops = some w') : w.Extends w' ∧ (w.Replays S →
      (∀ k ∈ w'.priv.intern.keys, k.length ≤ maxRestoreStringLen) →
      (∀ rcd ∈ w'.delivered, rcd.effect.length < 2 ^ 64) → w'.Replays S) := by
  induction ops generalizing w with
  | nil =>
    cases hrun
    exact ⟨⟨hsnap, List.prefix_rfl, List.prefix_rfl⟩, fun hw _ _ => hw⟩
  | cons op ops ih =>
    obtain ⟨w₁, hstep, hrest⟩ := run_cons_eq_some hrun
    have hfirst := h.liveStep_extends hsnap hlive.1 hstep
    obtain ⟨hlast, hreplays⟩ := ih (h.step hstep) hfirst.published (hlive.2 w₁ hstep) hrest
    refine ⟨⟨hlast.published, hfirst.keys.trans hlast.keys,
      hfirst.delivered.trans hlast.delivered⟩, fun hw hkeys hsize => hreplays ?_ hkeys hsize⟩
    exact hw.step h hlive.1 hstep (fun k hk => hkeys k (hlast.keys.subset hk))
      fun rcd hrcd => hsize rcd (hlast.delivered.subset hrcd)

/-- A run that only queues live deltas and flushes them is live. -/
theorem liveRun_of_apply (hops : ∀ op ∈ ops, op.isLive = true)
    (hpending : ∀ p ∈ w.pending, p.sync = false) : w.LiveRun ops := by
  induction ops generalizing w with
  | nil => trivial
  | cons op ops ih =>
    have htail : ∀ op ∈ ops, op.isLive = true := fun op hop => hops op (by simp [hop])
    have hhead := hops op List.mem_cons_self
    cases op with
    | apply ds =>
      refine ⟨trivial, fun w' hstep => ih htail ?_⟩
      cases hstep
      obtain ⟨added, heq⟩ := w.queue_eq ds false
      rw [heq]
      intro p hp
      rcases List.mem_append.1 hp with hp | hp
      · exact hpending p hp
      · obtain ⟨d, -, rfl⟩ := List.mem_map.1 hp
        rfl
    | flush env =>
      refine ⟨hpending, fun w' hstep => ih htail ?_⟩
      cases stepped_of_step hstep with
      | done => exact hpending
      | flush hopen hflush =>
        rcases flushLocked_cases hopen hflush with ⟨-, -, rfl⟩ | ⟨-, -, s, -, rfl⟩
        · exact hpending
        · simp [publish, deliver]
    | _ => cases hhead

end Writer

end

namespace Sample

/-- A pod is added, and after the snapshot its owner is swapped for a binding. -/
def addRun : List WriterOp := [.apply [⟨1, .typed ownedPod⟩], .flush env]

def bindRun : List WriterOp := [.apply [⟨2, .typed boundPod⟩], .flush env]

/-- The writer after a flush that has nothing to apply. -/
def emptyWriter : Writer := (new true ∅).publish (new true ∅).newBatch

theorem liveRun_nodeRun (name : GoString) : emptyWriter.LiveRun (nodeRun name) :=
  Writer.liveRun_of_apply (by simp [nodeRun, WriterOp.isLive]) (List.forall_mem_nil _)

set_option maxRecDepth 20000 in
theorem long_name_refused :
    ∃ S ∈ emptyWriter.snap, ∃ w ∈ emptyWriter.run (nodeRun (List.replicate 5000 97)), ∃ L ∈ w.snap,
      ((Replayer.new S).replay (w.delivered.filter fun rcd =>
        S.generation < rcd.generation ∧ rcd.generation ≤ L.generation)).isOk = false := by
  decide +kernel

end Sample

open Sample

/-- A snapshot with the records after it replayed is the live snapshot, if every key is
    one that a reader accepts. -/
theorem replay_eq_live [Platform] (watched : Finset NodeKind) (before ops : List WriterOp)
    (w₀ w : Writer) (hbefore : (new true watched).run before = some w₀)
    (S : Snapshot) (hS : w₀.snap = some S)
    (hlive : w₀.LiveRun ops) (hrun : w₀.run ops = some w)
    (L : Snapshot) (hL : w.snap = some L)
    (hkeys : ∀ k ∈ L.keys, k.length ≤ maxRestoreStringLen)
    (hsize : ∀ rcd ∈ w.delivered, rcd.effect.length < 2 ^ 64) :
    ∃ r, (Replayer.new S).replay (w.delivered.filter fun rcd =>
        S.generation < rcd.generation ∧ rcd.generation ≤ L.generation) = .ok r ∧
      r.snapshot = L := by
  have h₀ := (Writer.coherent_new true watched).run hbefore
  have h := h₀.run hrun
  rw [h.keys L hL] at hkeys
  have hreplays := (h₀.liveRun (by simp [hS]) hlive hrun).2 (h₀.replays hS) hkeys hsize
  have hfilter : (w.delivered.filter fun rcd =>
      S.generation < rcd.generation ∧ rcd.generation ≤ L.generation) =
        w.delivered.filter fun rcd => S.generation < rcd.generation := by
    refine List.filter_congr fun rcd hrcd => ?_
    have hle := h.records rcd hrcd
    rw [← h.generation L hL] at hle
    simp [hle]
  rw [hfilter]
  refine ⟨_, hreplays.replay, ?_⟩
  have hsnapshot : (w.newBatch.replica { Replayer.new S with gen := w.gen }).snapshot =
      { toAdjacency := L.toAdjacency, nodes := L.nodes, keys := w.priv.intern.keys,
        ids := w.priv.intern.ids, watched := w.watched, generation := w.gen } := by
    rw [Writer.newBatch_of_snap hL, ← hreplays.watched]
    simp only [Replayer.snapshot, Build.replica, idsOfKeys_keys]
    rfl
  rw [hsnapshot, ← h.keys L hL, ← h.ids L hL, ← h.watched L hL, ← h.generation L hL]

/-- A Node with a long name is in the live snapshot, and its record does not replay. -/
theorem long_name_not_replayed :
    ∃ w₀ S w L, (new true ∅).run [.flush env] = some w₀ ∧ w₀.snap = some S ∧
      w₀.LiveRun (nodeRun (List.replicate 5000 97)) ∧
      w₀.run (nodeRun (List.replicate 5000 97)) = some w ∧ w.snap = some L ∧
      ∀ r, (Replayer.new S).replay (w.delivered.filter fun rcd =>
        S.generation < rcd.generation ∧ rcd.generation ≤ L.generation) ≠ .ok r := by
  obtain ⟨S, hS, w, hw, L, hL, hfail⟩ := long_name_refused
  refine ⟨emptyWriter, S, w, L, rfl, hS, liveRun_nodeRun _, hw, hL, fun r hr => ?_⟩
  rw [hr] at hfail
  cases hfail

/-- The update that swaps the only edge at a Node replays as it happened. -/
theorem bindRun_replayed :
    ∃ w₀ S w L r, (new true ∅).run addRun = some w₀ ∧ w₀.snap = some S ∧
      w₀.run bindRun = some w ∧ w.snap = some L ∧
      (Replayer.new S).replay (w.delivered.filter fun rcd =>
        S.generation < rcd.generation ∧ rcd.generation ≤ L.generation) = .ok r ∧
      r.snapshot = L := by
  have hrun : ∃ w₀ ∈ (new true ∅).run addRun, ∃ S ∈ w₀.snap, w₀.pending.length = 0 ∧
      ∃ w ∈ w₀.run bindRun, ∃ L ∈ w.snap, (∀ k ∈ L.keys, k.length ≤ maxRestoreStringLen) ∧
        ∀ rcd ∈ w.delivered, rcd.effect.length < 2 ^ 64 := by
    decide +kernel
  obtain ⟨w₀, hw₀, S, hS, hpending, w, hw, L, hL, hkeys, hsize⟩ := hrun
  have hlive : w₀.LiveRun bindRun := Writer.liveRun_of_apply (by decide)
    (by simp [List.length_eq_zero_iff.1 hpending])
  obtain ⟨r, hr, hsnapshot⟩ :=
    replay_eq_live ∅ addRun bindRun w₀ w hw₀ S hS hlive hw L hL hkeys hsize
  exact ⟨w₀, S, w, L, r, hw₀, hS, hw, hL, hr, hsnapshot⟩

end Lookout
