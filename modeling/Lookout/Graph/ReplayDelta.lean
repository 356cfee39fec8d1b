-- SUMMARY: The effects recorded while a delta is applied turn a replica of the batch before it into one of the batch after it.
import Lookout.Graph.RefineDelta
import Lookout.Graph.Replay

/-!
# Replaying one delta

A replica of a batch is a replayer with the same nodes, adjacency and keys. Each
mutation of the batch emits effects that turn a replica of the batch before into a
replica of the batch after. This needs little of the batch: no invariant about
edges or reference counts, only that the numbers in its tables are given out.
-/

namespace Lookout

open Interner

variable {t t' : Interner GoString}

/-- The numbers of an edge are given out, or `noNode`. -/
def HalfEdge.Within (t : Interner GoString) (e : HalfEdge) : Prop :=
  e.src ≤ t.keys.length ∧ e.dst ≤ t.keys.length

/-- The numbers of an effect are given out, and its key has a number. -/
def Effect.Within (t : Interner GoString) : Effect → Prop
  | .nodeNew id _ key => id ≤ t.keys.length ∧ key ∈ t.keys
  | .observe id _ | .unobserve id | .gc id => id ≤ t.keys.length
  | .edgeAdd e | .edgeRemove e => e.Within t

theorem HalfEdge.Within.mono {e : HalfEdge} (h : e.Within t) (ht : t.keys <+: t'.keys) :
    e.Within t' :=
  ⟨h.1.trans ht.length_le, h.2.trans ht.length_le⟩

theorem Effect.Within.mono {e : Effect} (h : e.Within t) (ht : t.keys <+: t'.keys) :
    e.Within t' := by
  cases e with
  | nodeNew id kind key => exact ⟨h.1.trans ht.length_le, ht.subset h.2⟩
  | observe | unobserve | gc => exact Nat.le_trans h ht.length_le
  | edgeAdd | edgeRemove => exact HalfEdge.Within.mono h ht

variable [Platform]

namespace Build

/-- The replayer that agrees with the batch, and with `r` in what no effect touches. -/
def replica (s : Build) (r : Replayer) : Replayer :=
  { r with
    toAdjacency := s.toAdjacency
    nodes := s.nodes
    keys := s.intern.keys
    ids := s.intern.ids }

/-- From `s` to `s'` the effects are recorded, and they take replicas to replicas. -/
structure Emits (s : Build) (effects : List Effect) (s' : Build) : Prop where
  keys : s.intern.keys <+: s'.intern.keys
  log : s'.log = s.log.map (· ++ effects)
  within : ∀ e ∈ effects, e.Within s'.intern
  replay : ∀ r, (s.replica r).performAll effects = .ok (s'.replica r)

/-- The numbers in the batch's tables are given out. -/
structure Numbered (s : Build) : Prop where
  nodes : s.intern.Covers s.nodes
  declared : ∀ id es, s.declared.lookup id = some es → ∀ e ∈ es, e.Within s.intern
  podLabels : ∀ ns, s.intern.Covers (Map.getD s.podLabels ns ∅)
  selectors : ∀ ns, s.intern.Covers (Map.getD s.selectors ns ∅)

/-- If `s` is numbered, then so is `s'`, and a replica follows from one to the other. -/
def Mirrored (s s' : Build) : Prop := s.Numbered → (∃ effects, s.Emits effects s') ∧ s'.Numbered

/-- The same, with at least one effect. -/
def Recorded (s s' : Build) : Prop :=
  s.Numbered → (∃ effects, effects ≠ [] ∧ s.Emits effects s') ∧ s'.Numbered

variable {s s' s'' : Build}

theorem Emits.trans {effects effects' : List Effect} (h : s.Emits effects s')
    (h' : s'.Emits effects' s'') : s.Emits (effects ++ effects') s'' where
  keys := h.keys.trans h'.keys
  log := by
    rw [h'.log, h.log, Option.map_map]
    congr 1
    funext l
    exact List.append_assoc ..
  within := by
    intro e he
    rcases List.mem_append.1 he with he | he
    · exact (h.within e he).mono h'.keys
    · exact h'.within e he
  replay := by
    intro r
    rw [Replayer.performAll, List.foldlM_append]
    exact (congrArg (· >>= _) (h.replay r)).trans (h'.replay r)

/-- A step that touches nothing that a replica has. -/
theorem Emits.of_same (hadj : s'.toAdjacency = s.toAdjacency) (hnodes : s'.nodes = s.nodes)
    (hintern : s'.intern = s.intern) (hlog : s'.log = s.log) : s.Emits [] s' where
  keys := by rw [hintern]
  log := by simp [hlog]
  within := by simp
  replay := by
    intro r
    unfold replica
    rw [hadj, hnodes, hintern]
    rfl

/-- Without effects no node changes. -/
theorem Emits.nodes_of_nil (h : s.Emits [] s') : s'.nodes = s.nodes := by
  have hreplay := h.replay ⟨s.toAdjacency, s.nodes, [], ∅, none, 0, false⟩
  exact (congrArg Replayer.nodes (Except.ok.inj hreplay)).symm

theorem Mirrored.refl (s : Build) : s.Mirrored s :=
  fun h => ⟨⟨[], .of_same rfl rfl rfl rfl⟩, h⟩

theorem Mirrored.trans (h : s.Mirrored s') (h' : s'.Mirrored s'') : s.Mirrored s'' := by
  intro hs
  obtain ⟨⟨_, he⟩, hs'⟩ := h hs
  obtain ⟨⟨_, he'⟩, hs''⟩ := h' hs'
  exact ⟨⟨_, he.trans he'⟩, hs''⟩

theorem Recorded.mirrored (h : s.Recorded s') : s.Mirrored s' := by
  intro hs
  obtain ⟨⟨effects, -, he⟩, hs'⟩ := h hs
  exact ⟨⟨effects, he⟩, hs'⟩

theorem Recorded.trans (h : s.Recorded s') (h' : s'.Mirrored s'') : s.Recorded s'' := by
  intro hs
  obtain ⟨⟨effects, hne, he⟩, hs'⟩ := h hs
  obtain ⟨⟨_, he'⟩, hs''⟩ := h' hs'
  exact ⟨⟨_, by simp [hne], he.trans he'⟩, hs''⟩

theorem Mirrored.trans_recorded (h : s.Mirrored s') (h' : s'.Recorded s'') : s.Recorded s'' := by
  intro hs
  obtain ⟨⟨_, he⟩, hs'⟩ := h hs
  obtain ⟨⟨effects, hne, he'⟩, hs''⟩ := h' hs'
  exact ⟨⟨_, by simp [hne], he.trans he'⟩, hs''⟩

/-- A step that records one effect and keeps the interner and the tables. -/
theorem Recorded.single {e : Effect} (hlog : s'.log = s.log.map (· ++ [e]))
    (hintern : s'.intern = s.intern) (hdeclared : s'.declared = s.declared)
    (hlabels : s'.podLabels = s.podLabels) (hsel : s'.selectors = s.selectors)
    (hnodes : s.Numbered → s.intern.Covers s'.nodes)
    (hwithin : s.Numbered → e.Within s.intern)
    (hreplay : ∀ r, (s.replica r).perform e = .ok (s'.replica r)) : s.Recorded s' := by
  intro hs
  refine ⟨⟨[e], by simp, ⟨by rw [hintern], hlog, ?_, ?_⟩⟩, ?_⟩
  · rintro _ he
    rw [List.mem_singleton.1 he, hintern]
    exact hwithin hs
  · intro r
    rw [Replayer.performAll, List.foldlM_cons, hreplay]
    rfl
  · refine ⟨hintern ▸ hnodes hs, ?_, ?_, ?_⟩
    · rw [hdeclared, hintern]
      exact hs.declared
    · rw [hlabels, hintern]
      exact hs.podLabels
    · rw [hsel, hintern]
      exact hs.selectors

/-! ## Primitive mutations -/

variable {id : NodeID} {key ns : GoString}

omit [Platform] in
theorem le_of_keyOf? (h : (t.keyOf? id).isSome) : id ≤ t.keys.length :=
  (keyOf?_isSome.1 h).2

theorem Numbered.le_of_mem (h : s.Numbered) (hid : id ∈ s.nodes) : id ≤ s.intern.keys.length :=
  le_of_keyOf? (h.nodes id (Map.mem_iff_ne_none.1 hid))

variable {info : NodeInfo} {e : HalfEdge} {es : List HalfEdge} {src pod self : NodeID}

/-- Rewriting a node's record, with the effect that makes a replayer rewrite it. -/
theorem recorded_update {info' : NodeInfo} (hinfo : s.nodes.lookup id = some info) {e : Effect}
    (he : ∀ t : Interner GoString, id ≤ t.keys.length → e.Within t)
    (hreplay : ∀ r : Replayer, r.nodes.lookup id = some info →
      r.perform e = .ok { r with nodes := r.nodes.insert id info' }) :
    s.Recorded ({ s with nodes := s.nodes.insert id info' }.record e) := by
  have hne : s.nodes.lookup id ≠ none := by simp [hinfo]
  exact .single rfl rfl rfl rfl rfl (fun hs => hs.nodes.insert (hs.nodes id hne) _)
    (fun hs => he _ (hs.le_of_mem (Map.mem_iff_ne_none.2 hne))) fun r => hreplay _ hinfo

theorem recorded_observe (hid : id ∈ s.nodes) (kind : NodeKind) :
    s.Recorded (s.observe id kind) := by
  obtain ⟨info, hinfo⟩ := Option.ne_none_iff_exists'.1 (Map.mem_iff_ne_none.1 hid)
  have hget : Map.getD s.nodes id ⟨.unknown, false, noNode⟩ = info := by simp [Map.getD, hinfo]
  unfold observe
  rw [hget]
  refine recorded_update hinfo (fun _ h => h) fun r hr => ?_
  change r.update _ _ _ = _
  rw [Replayer.update, hr]

theorem mirrored_maybeGC (s : Build) (id : NodeID) : s.Mirrored (s.maybeGC id) := by
  fun_cases maybeGC with
  | case5 _ info hinfo =>
    have hid : id ∈ s.nodes := Map.mem_iff_ne_none.2 (by simp [hinfo])
    refine Recorded.mirrored (.single rfl rfl rfl rfl rfl (fun hs => hs.nodes.erase id)
      (fun hs => hs.le_of_mem hid) fun r => ?_)
    exact if_pos hid
  | _ => exact .refl s

theorem mirrored_addEdge (he : e.Within s.intern) : s.Mirrored (s.addEdge e) := by
  unfold addEdge
  dsimp only
  split
  · exact Recorded.mirrored (.single rfl rfl rfl rfl rfl (fun hs => hs.nodes) (fun _ => he)
      fun r => rfl)
  · exact .refl s

theorem mirrored_removeEdge (he : e.Within s.intern) : s.Mirrored (s.removeEdge e) := by
  unfold removeEdge
  dsimp only
  split
  · refine Mirrored.trans (Recorded.mirrored ?_)
      ((mirrored_maybeGC _ e.src).trans (mirrored_maybeGC _ e.dst))
    exact .single rfl rfl rfl rfl rfl (fun hs => hs.nodes) (fun _ => he)
      fun r => rfl
  · exact .refl s

/-! ## Nodes -/

/-- The namespace link that a replayer computes for a new node. -/
def NsLink (t : Interner GoString) (key : GoString) (ns : NodeID) : Prop :=
  if (splitKey key).1 = [] then ns = noNode
  else t.idOf? (nodeKey .namespace_ [] (splitKey key).1) = some ns

theorem nsOf_replica {ns : NodeID} (h : NsLink s.intern key ns) (r : Replayer) (id : NodeID) :
    (s.replica r).nsOf id key = .ok ns := by
  unfold Replayer.nsOf
  unfold NsLink at h
  dsimp only
  split
  · next hnone =>
    rw [if_pos hnone] at h
    rw [h]
  · next hsome =>
    rw [if_neg hsome] at h
    rw [show (s.replica r).ids.lookup _ = some ns from h]

omit [Platform] in
theorem NsLink.intern {ns : NodeID} (h : NsLink t key ns) (k : GoString) :
    NsLink (t.intern k).1 key ns := by
  unfold NsLink at h ⊢
  split
  · next hnone => rwa [if_pos hnone] at h
  · next hsome =>
    rw [if_neg hsome, idOf?_eq_some] at h
    rw [idOf?_eq_some]
    exact keyOf?_intern k h

theorem Numbered.internKey (h : s.Numbered) (key : GoString) : (s.internKey key).1.Numbered := by
  have hkeys := keys_intern_extends s.intern key
  exact ⟨h.nodes.intern key, fun id es hes e he => (h.declared id es hes e he).mono hkeys,
    fun ns => (h.podLabels ns).intern key, fun ns => (h.selectors ns).intern key⟩

/-- A replayer gives a key the number that the batch gives it. -/
theorem intern_replica (s : Build) (hkey : key ≠ []) (r : Replayer) :
    (s.replica r).intern (s.internKey key).2 key = .ok ((s.internKey key).1.replica r) := by
  cases hid : s.intern.idOf? key with
  | some id =>
    have hintern := intern_of_idOf? hid
    have hat : keyAt (s.replica r).keys id = some key := idOf?_eq_some.1 hid
    simp only [internKey, hintern]
    exact Replayer.intern_of_known hat hkey
  | none =>
    obtain ⟨hkeys, hids, hnew⟩ := intern_of_fresh hid
    have happend := (s.replica r).intern_append hkey (n := 0) (by decide)
    simp only [internKey, hnew]
    refine happend.trans ?_
    simp [replica, hkeys, hids]

theorem mirrored_ensure {ns : NodeID} (hkey : key ≠ []) (hns : NsLink s.intern key ns)
    (kind : NodeKind) : s.Mirrored (s.ensure kind key ns).1 := by
  intro hs
  have hnum := hs.internKey key
  have hkeyOf := internKey_keyOf? s key
  unfold ensure
  dsimp only
  split
  · next hmem =>
    -- The node is there, so its number was given out before.
    obtain ⟨key', hkey'⟩ := Option.isSome_iff_exists.1
      (hs.nodes _ (Map.mem_iff_ne_none.1 hmem))
    have heq : key' = key := by
      have hgrow := grows_internKey s key _ _ hkey'
      rw [hkeyOf] at hgrow
      exact (Option.some.inj hgrow).symm
    have hsame := intern_of_idOf? (idOf?_eq_some.2 (heq ▸ hkey'))
    have hs₁ : (s.internKey key).1 = s := by
      unfold internKey
      rw [hsame]
    rw [hs₁]
    exact Mirrored.refl s hs
  · next hnot =>
    refine ⟨⟨[.nodeNew (s.internKey key).2 kind key], ⟨?_, rfl, ?_, ?_⟩⟩, ?_⟩
    · exact keys_intern_extends s.intern key
    · intro e he
      cases List.mem_singleton.1 he
      exact ⟨le_of_keyOf? (Option.isSome_iff_exists.2 ⟨_, hkeyOf⟩),
        mem_keys_of_keyOf? hkeyOf⟩
    · intro r
      have hlink := nsOf_replica (s := (s.internKey key).1) (hns.intern key) r (s.internKey key).2
      rw [Replayer.performAll, List.foldlM_cons, Replayer.perform,
        Replayer.create_of_intern (intern_replica s hkey r) hnot hlink]
      rfl
    · exact ⟨hnum.nodes.insert (by simp [hkeyOf]) _, hnum.declared, hnum.podLabels, hnum.selectors⟩

omit [Platform] in
theorem nsLink_cluster (t : Interner GoString) (kind : NodeKind) (name : GoString) :
    NsLink t (nodeKey kind [] name) noNode := by
  unfold NsLink
  rw [splitKey_nodeKey kind (by simp), if_pos rfl]

theorem mirrored_node (s : Build) (kind : NodeKind) (hslash : slash ∉ ns) (name : GoString) :
    s.Mirrored (s.node kind ns name).1 := by
  unfold node
  split
  · next hns =>
    subst hns
    exact mirrored_ensure (nodeKey_ne_nil _ _ _) (nsLink_cluster _ kind name) kind
  · next hns =>
    refine .trans (mirrored_ensure (nodeKey_ne_nil _ _ _) (nsLink_cluster _ .namespace_ ns) _)
      (mirrored_ensure (nodeKey_ne_nil _ _ _) ?_ kind)
    rw [NsLink, splitKey_nodeKey kind hslash, if_neg hns]
    exact idOf?_eq_some.2 (ensure_keyOf? s .namespace_ _ noNode)

/-- Interning the key of a node first makes no difference to creating the node. -/
theorem ensure_internKey (s : Build) (kind : NodeKind) (key : GoString) (ns : NodeID) :
    (s.internKey key).1.ensure kind key ns = s.ensure kind key ns := by
  have hknown : (s.intern.intern key).1.idOf? key = some (s.intern.intern key).2 := by
    rw [idOf?_intern, if_pos rfl]
  have hagain : (s.internKey key).1.internKey key = s.internKey key := by
    unfold internKey
    rw [intern_of_idOf? hknown]
  unfold ensure
  rw [hagain]

/-- A known key can be looked up before or after another one is interned. -/
theorem ensure_internKey_comm {k : GoString} (hid : s.intern.idOf? k = some id) (kind : NodeKind)
    (ns : NodeID) :
    (s.internKey key).1.ensure kind k ns =
      (((s.ensure kind k ns).1.internKey key).1, (s.ensure kind k ns).2) := by
  have hsame := intern_of_idOf? hid
  have hlater : (s.intern.intern key).1.idOf? k = some id := by
    rw [idOf?_eq_some] at hid ⊢
    exact keyOf?_intern key hid
  unfold ensure internKey
  simp only [hsame, intern_of_idOf? hlater]
  split <;> rfl

/-- The number of a key that is not known is not the number of a node. -/
theorem Numbered.not_mem_of_lt (h : s.Numbered) (hid : s.intern.keys.length < id) : id ∉ s.nodes :=
  fun hmem => absurd (h.le_of_mem hmem) (Nat.not_le.2 hid)

/-- Creating a node whose number is known and that is not there. -/
theorem ensure_of_known (hid : s.intern.idOf? key = some id) (hnot : id ∉ s.nodes) (kind : NodeKind)
    (ns : NodeID) :
    s.ensure kind key ns =
      ({ s with
          nodes := s.nodes.insert id ⟨kind, decide (kind = NodeKind.namespace_), ns⟩ }.record
        (.nodeNew id kind key), id) := by
  unfold ensure internKey
  simp only [intern_of_idOf? hid]
  rw [if_neg hnot]

/-- Both an object and its namespace are new, and the object has its number first. -/
theorem mirrored_node_of_fresh {kind : NodeKind} {name : GoString} (hslash : slash ∉ ns)
    (hns : ns ≠ []) (hkey : s.intern.idOf? (nodeKey kind ns name) = none)
    (hnskey : s.intern.idOf? (nodeKey .namespace_ [] ns) = none) :
    s.Mirrored ((s.internKey (nodeKey kind ns name)).1.node kind ns name).1 := by
  intro hs
  have hne : nodeKey .namespace_ [] ns ≠ nodeKey kind ns name := fun heq =>
    hns (nodeKey_injective (by simp) hslash heq).2.1.symm
  have hsplit : (splitKey (nodeKey kind ns name)).1 = ns := by rw [splitKey_nodeKey kind hslash]
  unfold node
  rw [if_neg hns, ← ensure_internKey (s.internKey _).1 .namespace_ (nodeKey .namespace_ [] ns)]
  generalize nodeKey kind ns name = key at *
  -- The interner after both keys.
  obtain ⟨hkeys₁, hids₁, hid₁⟩ := intern_of_fresh hkey
  have hnskey₁ : (s.intern.intern key).1.idOf? (nodeKey .namespace_ [] ns) = none := by
    rw [idOf?_intern, if_neg hne]
    exact hnskey
  obtain ⟨hkeys₂, hids₂, hid₂⟩ := intern_of_fresh hnskey₁
  have hnum := (hs.internKey key).internKey (nodeKey .namespace_ [] ns)
  generalize hs₂ : ((s.internKey key).1.internKey (nodeKey .namespace_ [] ns)).1 = s₂ at *
  have hkeys : s₂.intern.keys = s.intern.keys ++ [key] ++ [nodeKey .namespace_ [] ns] := by
    rw [← hs₂]
    exact hkeys₂.trans (by rw [hkeys₁])
  have hlen : (s.intern.intern key).1.keys.length = s.intern.keys.length + 1 := by simp [hkeys₁]
  have hids : s₂.intern.ids = (s.intern.ids.insert key (s.intern.keys.length + 1)).insert
      (nodeKey .namespace_ [] ns) (s.intern.keys.length + 2) := by
    rw [← hs₂]
    exact hids₂.trans (by rw [hids₁, hlen])
  have hidns : s₂.intern.idOf? (nodeKey .namespace_ [] ns) = some (s.intern.keys.length + 2) := by
    rw [idOf?, hids, Map.lookup_insert, if_pos rfl]
  have hidkey : s₂.intern.idOf? key = some (s.intern.keys.length + 1) := by
    rw [idOf?, hids, Map.lookup_insert, if_neg (Ne.symm hne), Map.lookup_insert, if_pos rfl]
  have hnodes : s₂.nodes = s.nodes := by rw [← hs₂]; rfl
  have hlog : s₂.log = s.log := by rw [← hs₂]; rfl
  have hadj : s₂.toAdjacency = s.toAdjacency := by rw [← hs₂]; rfl
  have hnot : s.intern.keys.length + 1 ∉ s.nodes := hs.not_mem_of_lt (by omega)
  have hnot' : s.intern.keys.length + 2 ∉ s.nodes := hs.not_mem_of_lt (by omega)
  rw [ensure_of_known hidns (by rwa [hnodes])]
  rw [ensure_of_known ?_ ?_]
  rotate_left 2
  · exact hidkey
  · simp [record, hnodes, hnot]
  refine ⟨⟨[.nodeNew (s.intern.keys.length + 2) .namespace_ (nodeKey .namespace_ [] ns),
    .nodeNew (s.intern.keys.length + 1) kind key], ⟨?_, ?_, ?_, ?_⟩⟩, ?_⟩
  · change s.intern.keys <+: s₂.intern.keys
    rw [hkeys, List.append_assoc]
    exact List.prefix_append _ _
  · simp only [record, Option.map_map]
    congr 1
    funext l
    simp
  · intro e he
    change e.Within s₂.intern
    rcases List.mem_pair.1 he with rfl | rfl
    · exact ⟨by simp [hkeys], by simp [hkeys]⟩
    · exact ⟨by simp [hkeys], by simp [hkeys]⟩
  · intro r
    refine ((s.replica r).performAll_swapped kind hns hsplit hne hnot hnot').trans ?_
    simp only [replica, record, hkeys, hids, hnodes, hadj]
    rfl
  · have hsome : ∀ {k id}, s₂.intern.idOf? k = some id → (s₂.intern.keyOf? id).isSome :=
      fun h => Option.isSome_iff_exists.2 ⟨_, idOf?_eq_some.1 h⟩
    exact ⟨(hnum.nodes.insert (hsome hidns) _).insert (hsome hidkey) _, hnum.declared,
      hnum.podLabels, hnum.selectors⟩

section

variable (s : Build) (kind : NodeKind)

/-- Creating the node of an object whose key was interned first. -/
theorem mirrored_tracked_node (hslash : slash ∉ ns) (name : GoString) :
    s.Mirrored ((s.internKey (nodeKey kind ns name)).1.node kind ns name).1 := by
  by_cases hns : ns = []
  · have hnode := mirrored_node s kind hslash name
    unfold node at hnode ⊢
    rw [if_pos hns] at hnode ⊢
    rwa [ensure_internKey]
  cases hnskey : s.intern.idOf? (nodeKey .namespace_ [] ns) with
  | some id =>
    have hnode := mirrored_node s kind hslash name
    unfold node at hnode ⊢
    rw [if_neg hns] at hnode ⊢
    rw [ensure_internKey_comm hnskey]
    rwa [ensure_internKey]
  | none =>
    cases hkey : s.intern.idOf? (nodeKey kind ns name) with
    | some id =>
      have hsame : (s.internKey (nodeKey kind ns name)).1 = s := by
        unfold internKey
        rw [intern_of_idOf? hkey]
      rw [hsame]
      exact mirrored_node s kind hslash name
    | none => exact mirrored_node_of_fresh hslash hns hkey hnskey

theorem ensure_mem (key : GoString) (ns : NodeID) :
    (s.ensure kind key ns).2 ∈ (s.ensure kind key ns).1.nodes := by
  unfold ensure
  dsimp only
  split
  · assumption
  · exact Finmap.mem_insert.2 (.inl rfl)

theorem node_mem (ns name : GoString) :
    (s.node kind ns name).2 ∈ (s.node kind ns name).1.nodes := by
  unfold node
  split <;> exact ensure_mem ..

theorem node_known (ns name : GoString) :
    ((s.node kind ns name).1.intern.keyOf? (s.node kind ns name).2).isSome :=
  Option.isSome_iff_exists.2 ⟨_, node_keyOf? s kind ns name⟩

end

/-! ## Declared edges and selectors -/

/-- A step that only changes the tables. -/
theorem Mirrored.tables (hadj : s'.toAdjacency = s.toAdjacency) (hnodes : s'.nodes = s.nodes)
    (hintern : s'.intern = s.intern) (hlog : s'.log = s.log)
    (hnum : s.Numbered → s'.Numbered) : s.Mirrored s' :=
  fun hs => ⟨⟨[], .of_same hadj hnodes hintern hlog⟩, hnum hs⟩

theorem mirrored_foldl {f : Build → HalfEdge → Build}
    (hf : ∀ (s : Build) (e : HalfEdge), e.Within s.intern → s.Mirrored (f s e))
    (hintern : ∀ s e, (f s e).intern = s.intern) (hes : ∀ e ∈ es, e.Within s.intern) :
    s.Mirrored (es.foldl f s) := by
  induction es generalizing s with
  | nil => exact .refl s
  | cons e es ih =>
    refine (hf s e (hes e (by simp))).trans (ih fun e' he' => ?_)
    rw [hintern]
    exact hes e' (by simp [he'])

theorem mirrored_writeDeclared {o : Option (List HalfEdge)} {m : Map NodeID (List HalfEdge)}
    (hm : Map.Writes src o s.declared m) (ho : ∀ es, o = some es → ∀ e ∈ es, e.Within s.intern) :
    s.Mirrored { s with declared := m } :=
  .tables rfl rfl rfl rfl fun hs =>
    ⟨hs.nodes, hm.forall_lookup (P := fun _ es => ∀ e ∈ es, e.Within s.intern) ho hs.declared,
      hs.podLabels, hs.selectors⟩

theorem mirrored_insertDeclared (s : Build) (src : NodeID) (hes : ∀ e ∈ es, e.Within s.intern) :
    s.Mirrored { s with declared := s.declared.insert src es } :=
  mirrored_writeDeclared (Map.writes_insert _ _ _) fun _ heq => Option.some.inj heq ▸ hes

theorem mirrored_storeDeclared (s : Build) (src : NodeID) (hes : ∀ e ∈ es, e.Within s.intern) :
    s.Mirrored (s.storeDeclared src es) := by
  unfold storeDeclared
  split
  · exact mirrored_writeDeclared (Map.writes_erase _ _) fun _ heq =>
      absurd heq.symm (Option.some_ne_none _)
  · exact mirrored_insertDeclared s src hes

theorem Numbered.getD_declared (h : s.Numbered) (src : NodeID) :
    ∀ e ∈ Map.getD s.declared src [], e.Within s.intern := by
  intro e he
  unfold Map.getD at he
  cases hes : s.declared.lookup src with
  | none => simp [hes] at he
  | some es => exact h.declared src es hes e (by simpa [hes] using he)

theorem mirrored_setDeclared (s : Build) (src : NodeID) {want : List HalfEdge}
    (hwant : ∀ e ∈ want, e.Within s.intern) : s.Mirrored (s.setDeclared src want) := by
  intro hs
  have hold := hs.getD_declared src
  simp only [setDeclared]
  split
  · exact Mirrored.refl s hs
  · generalize hr : List.foldl removeEdge s _ = r
    have hremove : s.Mirrored r := hr ▸ mirrored_foldl (fun _ _ => mirrored_removeEdge)
      removeEdge_intern fun e he => hold e (List.mem_of_mem_filter he)
    have hri : r.intern = s.intern := hr ▸ removeEdges_intern s _
    generalize ha : List.foldl addEdge r _ = a
    have huniq : ∀ e ∈ uniq want, e.Within s.intern :=
      fun e he => hwant e (((uniq_spec want).2 e).1 he)
    have hadd : r.Mirrored a := ha ▸ mirrored_foldl (fun _ _ => mirrored_addEdge)
      addEdge_intern fun e he => hri ▸ huniq e (List.mem_of_mem_filter he)
    have hai : a.intern = s.intern := (ha ▸ addEdges_intern r _).trans hri
    exact (hremove.trans (hadd.trans (mirrored_storeDeclared a src (hai ▸ huniq)))) hs

theorem mirrored_setSelectorEdge {kind : EdgeKind} (he : HalfEdge.Within s.intern ⟨src, pod, kind⟩)
    (want : Bool) : s.Mirrored (s.setSelectorEdge src pod kind want) := by
  intro hs
  have hcur := hs.getD_declared src
  simp only [setSelectorEdge]
  split
  · split
    · refine ((mirrored_addEdge he).trans (mirrored_insertDeclared _ src fun e' he' => ?_)) hs
      rw [addEdge_intern]
      rcases List.mem_append.1 he' with he' | he'
      · exact hcur e' he'
      · rwa [List.mem_singleton.1 he']
    · exact Mirrored.refl s hs
  · split
    · exact Mirrored.refl s hs
    · next hi _ =>
      refine ((mirrored_removeEdge he).trans (mirrored_storeDeclared _ src fun e' he' => ?_)) hs
      rw [(swapDelete_perm (List.idxOf?_eq_some_iff.1 hi).1).mem_iff] at he'
      rw [removeEdge_intern]
      exact hcur e' (List.mem_of_mem_eraseIdx he')

/-- Changing the selectors of one namespace. -/
theorem mirrored_updateSelectors {f : Map NodeID SelEntry → Map NodeID SelEntry}
    (hf : s.Numbered → s.intern.Covers (f (Map.getD s.selectors ns ∅))) :
    s.Mirrored { s with selectors := updateNs s.selectors ns f } :=
  .tables rfl rfl rfl rfl fun hs =>
    ⟨hs.nodes, hs.declared, hs.podLabels, covers_updateNs hs.selectors (hf hs)⟩

/-- Changing the pod labels of one namespace. -/
theorem mirrored_updateLabels {f : Map NodeID Labels → Map NodeID Labels}
    (hf : s.Numbered → s.intern.Covers (f (Map.getD s.podLabels ns ∅))) :
    s.Mirrored { s with podLabels := updateNs s.podLabels ns f } :=
  .tables rfl rfl rfl rfl fun hs =>
    ⟨hs.nodes, hs.declared, covers_updateNs hs.podLabels (hf hs), hs.selectors⟩

theorem mirrored_reselect (s : Build) (o : Map.RangeOrder) (ns : GoString)
    (hpod : pod ≤ s.intern.keys.length) (want : SelEntry → Bool) :
    s.Mirrored (s.reselect o ns pod want) := by
  intro hs
  have hsels := hs.selectors ns
  unfold reselect
  generalize Map.getD s.selectors ns ∅ = sels at hsels ⊢
  dsimp only
  generalize Map.range o sels = ids
  suffices h : s.Mirrored (ids.foldl (reselectSource sels pod want) s) from h hs
  clear hs
  induction ids generalizing s with
  | nil => exact .refl s
  | cons src ids ih =>
    have hstep : s.Mirrored (reselectSource sels pod want s src) ∧
        (reselectSource sels pod want s src).intern = s.intern := by
      unfold reselectSource
      cases hent : sels.lookup src with
      | none => exact ⟨.refl s, rfl⟩
      | some ent =>
        exact ⟨mirrored_setSelectorEdge ⟨le_of_keyOf? (hsels src (by simp [hent])), hpod⟩ _,
          setSelectorEdge_intern ..⟩
    exact hstep.1.trans (ih _ (hstep.2 ▸ hpod) (hstep.2 ▸ hsels))

/-! ## Deltas -/

theorem mirrored_link (self : NodeID) (p : Build × List HalfEdge) (l : Link) :
    p.1.Mirrored (link self p l).1 := by
  have hnode := mirrored_node p.1 l.kind l.ns.noSlash l.name
  unfold link
  split
  · exact hnode.trans (recorded_observe (node_mem ..) l.kind).mirrored
  · exact hnode

/-- The numbers of declared edges are given out once the nodes of the links are there. -/
theorem link_within {p : Build × List HalfEdge} (hself : self ≤ p.1.intern.keys.length)
    (hdecl : ∀ e ∈ p.2, e.Within p.1.intern) (l : Link) :
    ∀ e ∈ (link self p l).2, e.Within (link self p l).1.intern := by
  have hkeys : p.1.intern.keys <+: (link self p l).1.intern.keys := by
    rw [link_intern]
    exact keys_internAll_extends ..
  have hother : (p.1.node l.kind l.ns.text l.name).2 ≤ (link self p l).1.intern.keys.length := by
    refine (le_of_keyOf? (node_known p.1 l.kind l.ns.text l.name)).trans (Nat.le_of_eq ?_)
    rw [link_intern, node_intern]
    rfl
  intro e he
  rcases List.mem_append.1 he with he | he
  · exact (hdecl e he).mono hkeys
  · rw [List.mem_singleton.1 he]
    split
    · exact ⟨hother, hself.trans hkeys.length_le⟩
    · exact ⟨hself.trans hkeys.length_le, hother⟩

theorem mirrored_declare (hself : self ≤ s.intern.keys.length) (links : List Link) :
    s.Mirrored (s.declare self links).1 ∧
      ∀ e ∈ (s.declare self links).2, e.Within (s.declare self links).1.intern := by
  unfold declare
  induction links using List.reverseRecOn with
  | nil => exact ⟨.refl s, by simp⟩
  | append_singleton links l ih =>
    have hkeys : s.intern.keys <+: (s.declare self links).1.intern.keys := by
      rw [declare_intern]
      exact keys_internAll_extends ..
    rw [List.foldl_append]
    exact ⟨ih.1.trans (mirrored_link self _ l),
      link_within (hself.trans hkeys.length_le) ih.2 l⟩

/-- Deleting an object leaves a trace: either its node was collected on the way, or
    it is flipped to unobserved. -/
theorem Mirrored.markDeleted (h : s.Mirrored s') (hid : id ∈ s.nodes) :
    s.Recorded (s'.markDeleted id) := by
  intro hs
  obtain ⟨⟨effects, he⟩, hs'⟩ := h hs
  cases hinfo : s'.nodes.lookup id with
  | some info =>
    have hrec : s'.Recorded (s'.markDeleted id) := by
      unfold Build.markDeleted
      rw [hinfo]
      refine (recorded_update (e := .unobserve id) hinfo (fun _ h => h) fun r hr => ?_).trans
        (mirrored_maybeGC _ id)
      change r.update _ _ _ = _
      rw [Replayer.update, hr]
    exact h.trans_recorded hrec hs
  | none =>
    have hsame : s'.markDeleted id = s' := by
      unfold Build.markDeleted
      rw [hinfo]
    rw [hsame]
    refine ⟨⟨effects, ?_, he⟩, hs'⟩
    rintro rfl
    exact Map.mem_iff_ne_none.1 hid (he.nodes_of_nil ▸ hinfo)

/-- Observing an object's node and following its links. -/
theorem recorded_declareObject (hmem : id ∈ s.nodes) (hid : (s.intern.keyOf? id).isSome)
    (kind : NodeKind) (links : List Link) :
    s.Recorded ((s.observe id kind).declare id links).1 ∧
      (((s.observe id kind).declare id links).1.intern.keyOf? id).isSome ∧
      ∀ e ∈ ((s.observe id kind).declare id links).2,
        e.Within ((s.observe id kind).declare id links).1.intern := by
  obtain ⟨hdecl, hwithin⟩ := mirrored_declare (s := s.observe id kind) (le_of_keyOf? hid) links
  refine ⟨(recorded_observe hmem kind).trans hdecl, ?_, hwithin⟩
  obtain ⟨key, hkey⟩ := Option.isSome_iff_exists.1 hid
  rw [declare_intern]
  exact Option.isSome_iff_exists.2 ⟨key, keyOf?_internAll _ hkey⟩

theorem recorded_applyLinks (s : Build) (op : Op) (kind : NodeKind) (m : ObjectMeta)
    (links : List Link) :
    (s.node kind m.ns.text m.name).1.Recorded (s.applyLinks op kind m links) := by
  have hmem := node_mem s kind m.ns.text m.name
  have hid := node_known s kind m.ns.text m.name
  unfold applyLinks
  generalize s.node kind m.ns.text m.name = p at *
  split
  · exact (mirrored_setDeclared p.1 p.2 (by simp)).markDeleted hmem
  · obtain ⟨hdecl, -, hwithin⟩ := recorded_declareObject hmem hid kind links
    exact hdecl.trans (mirrored_setDeclared _ p.2 hwithin)

theorem recorded_applySelecting (s : Build) (o : Map.RangeOrder) (op : Op) (kind : NodeKind)
    (m : ObjectMeta) (entry : Option SelEntry) :
    (s.node kind m.ns.text m.name).1.Recorded (s.applySelecting o op kind m entry) := by
  have hmem := node_mem s kind m.ns.text m.name
  have hid := node_known s kind m.ns.text m.name
  simp only [applySelecting]
  generalize s.node kind m.ns.text m.name = p at *
  have hdrop : ∀ s : Build, s.Mirrored (s.dropSelector m.ns.text p.2) :=
    fun s => mirrored_updateSelectors fun hs => (hs.selectors _).erase p.2
  split
  · exact ((hdrop p.1).trans (mirrored_setDeclared _ p.2 (by simp))).markDeleted hmem
  · obtain ⟨hdecl, hid', hwithin⟩ := recorded_declareObject hmem hid kind (ownerLinks m)
    refine hdecl.trans ?_
    generalize (p.1.observe p.2 kind).declare p.2 (ownerLinks m) = q at *
    cases entry with
    | none => exact (hdrop q.1).trans (mirrored_setDeclared _ p.2 hwithin)
    | some ent =>
      have hset : q.1.Mirrored (q.1.setSelector m.ns.text p.2 ent) :=
        mirrored_updateSelectors fun hs => (hs.selectors _).insert hid' ent
      refine hset.trans fun hs => mirrored_setDeclared _ p.2 (fun e he => ?_) hs
      rcases List.mem_append.1 he with he | he
      · exact hwithin e he
      · obtain ⟨pod, hpod, rfl⟩ := List.mem_map.1 he
        have hpods := Map.mem_range.1 (List.mem_filter.1 hpod).1
        exact ⟨le_of_keyOf? hid', le_of_keyOf? (hs.podLabels _ pod (Map.mem_iff_ne_none.1 hpods))⟩

theorem recorded_applyPod (s : Build) (o : Map.RangeOrder) (op : Op) (pod : Pod) :
    (s.node .pod pod.metadata.ns.text pod.metadata.name).1.Recorded (s.applyPod o op pod) := by
  have hmem := node_mem s .pod pod.metadata.ns.text pod.metadata.name
  have hid := node_known s .pod pod.metadata.ns.text pod.metadata.name
  simp only [applyPod]
  generalize s.node .pod pod.metadata.ns.text pod.metadata.name = p at *
  split
  · have hclear : p.1.Mirrored (p.1.setDeclared p.2 []) := mirrored_setDeclared p.1 p.2 (by simp)
    have hle : p.2 ≤ (p.1.setDeclared p.2 []).intern.keys.length := by
      rw [setDeclared_intern]
      exact le_of_keyOf? hid
    have hsel := mirrored_reselect (p.1.setDeclared p.2 []) o pod.metadata.ns.text hle fun _ => false
    exact (hclear.trans (hsel.trans
      (mirrored_updateLabels fun hs => (hs.podLabels _).erase p.2))).markDeleted hmem
  · obtain ⟨hdecl, hid', hwithin⟩ := recorded_declareObject hmem hid .pod pod.links
    generalize (p.1.observe p.2 .pod).declare p.2 pod.links = q at *
    rw [← setDeclared_intern q.1 p.2 q.2] at hid'
    refine (hdecl.trans (mirrored_setDeclared _ p.2 hwithin)).trans
      ((mirrored_updateLabels fun hs => (hs.podLabels _).insert hid' _).trans
        (mirrored_reselect _ o _ ?_ _))
    exact le_of_keyOf? hid'

/-- Applying a delta, after its object's node is there. -/
theorem recorded_applyDelta (s : Build) (o : Map.RangeOrder) (d : Delta) :
    (s.node d.object.kind d.object.metadata.ns.text d.object.metadata.name).1.Recorded
      (s.applyDelta o d) := by
  obtain ⟨op, obj⟩ := d
  cases obj with
  | pod pod => exact recorded_applyPod s o op pod
  | service svc => exact recorded_applySelecting s o op .service svc.metadata _
  | networkPolicy np => exact recorded_applySelecting s o op .networkPolicy np.metadata _
  | _ => exact recorded_applyLinks s op _ _ _

end Build
end Lookout
