-- SUMMARY: The writer's batch refines the identity-level machine: every maintenance operation commutes with the view by keys.
import Lookout.Graph.Topology

/-!
# The batch refines the identity-level machine

`Build.view` reads a batch through its interner. `Build.WF` collects what the
numbered representation keeps: the adjacency is mirrored and sorted, reference
counts are degrees, and every number in use belongs to a key. `Refines s T` says
that `s` keeps it and means `T`. Each maintenance function of the writer gets one
lemma: it takes refining batches to refining batches.
-/

namespace Lookout

open Interner

variable {t : Interner GoString} {e : HalfEdge} {k : KeyEdge} {r : Map NodeID Int}

/-! ## Naming edges -/

/-- The identities at the two ends of a numbered edge. -/
def HalfEdge.Names (t : Interner GoString) (e : HalfEdge) (k : KeyEdge) : Prop :=
  t.keyOf? e.src = some k.src ∧ t.keyOf? e.dst = some k.dst ∧ e.kind = k.kind

/-- Both ends of the edge have a key. -/
def HalfEdge.Valid (t : Interner GoString) (e : HalfEdge) : Prop := ∃ k, e.Names t k

theorem HalfEdge.valid_iff : e.Valid t ↔ (t.keyOf? e.src).isSome ∧ (t.keyOf? e.dst).isSome := by
  simp only [Option.isSome_iff_exists]
  constructor
  · rintro ⟨k, hs, hd, -⟩
    exact ⟨⟨_, hs⟩, ⟨_, hd⟩⟩
  · rintro ⟨⟨a, ha⟩, ⟨b, hb⟩⟩
    exact ⟨⟨a, b, e.kind⟩, ha, hb, rfl⟩

variable {info : NodeInfo}

theorem HalfEdge.Names.inj {f : HalfEdge} (he : e.Names t k) (hf : f.Names t k) : e = f := by
  have hsrc := keyOf?_inj he.1 hf.1
  have hdst := keyOf?_inj he.2.1 hf.2.1
  have hkind := he.2.2.trans hf.2.2.symm
  cases e
  cases f
  simp_all

theorem HalfEdge.Names.unique {k' : KeyEdge} (h : e.Names t k) (h' : e.Names t k') : k = k' := by
  obtain ⟨hs, hd, hk⟩ := h
  obtain ⟨hs', hd', hk'⟩ := h'
  cases k
  cases k'
  simp_all

theorem HalfEdge.Names.intern (h : e.Names t k) (key : GoString) : e.Names (t.intern key).1 k :=
  ⟨keyOf?_intern key h.1, keyOf?_intern key h.2.1, h.2.2⟩

theorem HalfEdge.Valid.intern (h : e.Valid t) (key : GoString) : e.Valid (t.intern key).1 := by
  obtain ⟨k, hk⟩ := h
  exact ⟨k, hk.intern key⟩

/-- The edges between identities that a set of numbered edges names. -/
def named (t : Interner GoString) (P : HalfEdge → Prop) : Set KeyEdge := {k | ∃ e, P e ∧ e.Names t k}

section named

variable {P Q : HalfEdge → Prop}

theorem mem_named_iff (h : e.Names t k) : k ∈ named t P ↔ P e := by
  constructor
  · rintro ⟨f, hf, hk⟩
    exact h.inj hk ▸ hf
  · exact fun hP => ⟨e, hP, h⟩

theorem named_congr (h : ∀ e, P e ↔ Q e) : named t P = named t Q := by
  ext k
  simp only [named, h]

theorem named_or : named t (fun e => P e ∨ Q e) = named t P ∪ named t Q := by
  ext k
  simp only [named, Set.mem_union, Set.mem_ofPred_eq, or_and_right, exists_or]

theorem named_and_not : named t (fun e => P e ∧ ¬ Q e) = named t P \ named t Q := by
  ext k
  constructor
  · rintro ⟨e, ⟨hP, hQ⟩, hk⟩
    exact ⟨⟨e, hP, hk⟩, fun h => hQ ((mem_named_iff hk).1 h)⟩
  · rintro ⟨⟨e, hP, hk⟩, hQ⟩
    exact ⟨e, ⟨hP, fun h => hQ ⟨e, h, hk⟩⟩, hk⟩

theorem named_eq (h : e.Names t k) : named t (fun f => f = e) = {k} := by
  ext k'
  constructor
  · rintro ⟨f, rfl, hk'⟩
    exact hk'.unique h
  · rintro rfl
    exact ⟨e, rfl, h⟩

@[simp] theorem named_false : named t (fun _ => False) = ∅ := by
  ext k
  simp [named]

theorem named_nil : named t (· ∈ ([] : List HalfEdge)) = ∅ := by
  simp

/-- A growing interner does not change the names of valid edges. -/
theorem named_of_grows {t' : Interner GoString}
    (hgrow : ∀ id key, t.keyOf? id = some key → t'.keyOf? id = some key)
    (hP : ∀ e, P e → e.Valid t) : named t' P = named t P := by
  have hnames : ∀ (e : HalfEdge) k, e.Names t k → e.Names t' k :=
    fun e k h => ⟨hgrow _ _ h.1, hgrow _ _ h.2.1, h.2.2⟩
  ext k
  constructor
  · rintro ⟨e, he, hk⟩
    obtain ⟨k', hk'⟩ := hP e he
    exact ⟨e, he, (hnames e k' hk').unique hk ▸ hk'⟩
  · rintro ⟨e, he, hk⟩
    exact ⟨e, he, hnames e k hk⟩

end named

/-! ## The view and the invariant -/

/-- What a node record says, with its namespace named. -/
def NodeInfo.view (t : Interner GoString) (info : NodeInfo) : NodeView :=
  ⟨info.kind, info.observed, t.keyOf? info.ns⟩

/-- A node's namespace link is empty or belongs to a key. -/
def NodeInfo.Linked (t : Interner GoString) (info : NodeInfo) : Prop :=
  info.ns = noNode ∨ (t.keyOf? info.ns).isSome

theorem NodeInfo.view_intern (h : info.Linked t) (key : GoString) :
    info.view (t.intern key).1 = info.view t := by
  rcases h with h | h
  · simp [view, h, noNode, keyOf?, keyAt]
  · obtain ⟨x, hx⟩ := Option.isSome_iff_exists.1 h
    simp [view, hx, keyOf?_intern]

theorem NodeInfo.Linked.intern (h : info.Linked t) (key : GoString) :
    info.Linked (t.intern key).1 := by
  refine h.imp_right fun hns => ?_
  obtain ⟨x, hx⟩ := Option.isSome_iff_exists.1 hns
  exact Option.isSome_iff_exists.2 ⟨x, keyOf?_intern key hx⟩

variable [Platform]

namespace Build

/-- The topology a batch means. -/
def view (s : Build) : Topology where
  node k := (s.intern.read s.nodes k).map (NodeInfo.view s.intern)
  edges := named s.intern (· ∈ s.toAdjacency)
  declared k := named s.intern fun e => ∃ es, s.intern.read s.declared k = some es ∧ e ∈ es
  podLabels ns := s.intern.read (Map.getD s.podLabels ns ∅)
  selectors ns := s.intern.read (Map.getD s.selectors ns ∅)
  tracked := s.intern.read s.tracked

/-- The invariant of the numbered representation. -/
structure WF (s : Build) : Prop where
  adjacency : s.toAdjacency.WF
  refcnt : ∀ id, Map.getD s.refcnt id 0 = s.degree id
  ends : ∀ e ∈ s.toAdjacency, e.Valid s.intern
  nodes : s.intern.Covers s.nodes
  nsLinks : ∀ id info, s.nodes.lookup id = some info → info.Linked s.intern
  declared : s.intern.Covers s.declared
  declaredEnds : ∀ id es, s.declared.lookup id = some es →
    es ≠ [] ∧ es.Nodup ∧ ∀ e ∈ es, e.Valid s.intern
  podLabels : ∀ ns, s.intern.Covers (Map.getD s.podLabels ns ∅)
  selectors : ∀ ns, s.intern.Covers (Map.getD s.selectors ns ∅)
  tracked : s.intern.Covers s.tracked

/-- The batch keeps the invariant and means `T`. -/
structure Refines (s : Build) (T : Topology) : Prop where
  wf : s.WF
  means : s.view = T

/-- Every number of `s` keeps its key in `s'`. -/
def Grows (s s' : Build) : Prop :=
  ∀ id key, s.intern.keyOf? id = some key → s'.intern.keyOf? id = some key

theorem Grows.of_internAll {s s' : Build} {ks : List GoString} (h : s'.intern = s.intern.internAll ks) :
    s.Grows s' :=
  fun _ _ hk => h ▸ keyOf?_internAll ks hk

/-- The keys that creating the node of an identity interns, in order. -/
def identityKeys (kind : NodeKind) (ns name : GoString) : List GoString :=
  (Topology.nsKey ns).toList ++ [nodeKey kind ns name]

variable {s : Build} {T : Topology} {key : GoString} {id : NodeID}

theorem view_node (h : s.intern.keyOf? id = some key) :
    s.view.node key = (s.nodes.lookup id).map (NodeInfo.view s.intern) := by
  change (s.intern.read s.nodes key).map _ = _
  rw [read_of_keyOf? h]

theorem Refines.withLog (h : s.Refines T) (log : Option (List Effect)) :
    { s with log := log }.Refines T :=
  ⟨{ h.wf with }, h.means⟩

theorem Refines.record (h : s.Refines T) (e : Effect) : (s.record e).Refines T :=
  h.withLog _

/-! ## Interning and nodes -/

theorem Refines.internKey (h : s.Refines T) (key : GoString) : (s.internKey key).1.Refines T := by
  have hw := h.wf
  refine ⟨?_, ?_⟩
  · constructor
    · exact hw.adjacency
    · exact hw.refcnt
    · exact fun e he => (hw.ends e he).intern key
    · exact hw.nodes.intern key
    · exact fun id info hid => (hw.nsLinks id info hid).intern key
    · exact hw.declared.intern key
    · intro id es hid
      obtain ⟨hne, hnodup, hvalid⟩ := hw.declaredEnds id es hid
      exact ⟨hne, hnodup, fun e he => (hvalid e he).intern key⟩
    · exact fun ns => (hw.podLabels ns).intern key
    · exact fun ns => (hw.selectors ns).intern key
    · exact hw.tracked.intern key
  · rw [← h.means]
    simp only [view, Build.internKey, Topology.mk.injEq]
    refine ⟨?_, ?_, ?_, ?_, ?_, ?_⟩
    · funext k
      rw [read_intern hw.nodes]
      cases hr : s.intern.read s.nodes k with
      | none => rfl
      | some info =>
        obtain ⟨id, -, hid⟩ := read_eq_some.1 hr
        rw [Option.map_some, Option.map_some, NodeInfo.view_intern (hw.nsLinks id info hid)]
    · exact named_of_grows (fun _ _ => keyOf?_intern key) hw.ends
    · funext k
      rw [read_intern hw.declared]
      refine named_of_grows (fun _ _ => keyOf?_intern key) ?_
      rintro e ⟨es, hes, he⟩
      obtain ⟨id, -, hid⟩ := read_eq_some.1 hes
      exact (hw.declaredEnds id es hid).2.2 e he
    · funext ns
      exact read_intern (hw.podLabels ns) key
    · funext ns
      exact read_intern (hw.selectors ns) key
    · exact read_intern hw.tracked key

theorem internKey_keyOf? (s : Build) (key : GoString) :
    (s.internKey key).1.intern.keyOf? (s.internKey key).2 = some key :=
  keyOf?_intern_self s.intern key

theorem grows_internKey (s : Build) (key : GoString) : s.Grows (s.internKey key).1 :=
  fun _ _ h => keyOf?_intern key h

/-- Replacing one node record, under reference counts that are still the degrees. -/
theorem Refines.writeNode (h : s.Refines T) (hid : s.intern.keyOf? id = some key)
    {o : Option NodeInfo} {m : Map NodeID NodeInfo} (hm : Map.Writes id o s.nodes m)
    (hns : ∀ info, o = some info → info.Linked s.intern) (hr : ∀ id, Map.getD r id 0 = s.degree id) :
    { s with nodes := m, refcnt := r }.Refines
      (T.setNode key (o.map (NodeInfo.view s.intern))) := by
  refine ⟨{ h.wf with
    refcnt := hr
    nodes := h.wf.nodes.writes (fun _ => by simp [hid]) hm
    nsLinks := hm.forall_lookup hns h.wf.nsLinks }, ?_⟩
  rw [← h.means]
  simp only [view, Topology.setNode, read_writes hid hm, Topology.mk.injEq, and_true]
  funext k
  by_cases hk : k = key
  · simp [hk]
  · simp [Function.update_of_ne hk]

/-- Writing one node record. -/
theorem Refines.setNode (h : s.Refines T) (hid : s.intern.keyOf? id = some key) (info : NodeInfo)
    (hns : info.Linked s.intern) : { s with nodes := s.nodes.insert id info }.Refines
      (T.setNode key (some (info.view s.intern))) :=
  h.writeNode hid (Map.writes_insert _ _ _) (fun _ hinfo => Option.some.inj hinfo ▸ hns) h.wf.refcnt

@[simp] theorem ensure_snd (s : Build) (kind : NodeKind) (key : GoString) (ns : NodeID) :
    (s.ensure kind key ns).2 = (s.internKey key).2 := by
  simp only [ensure]
  split <;> rfl

@[simp] theorem ensure_intern (s : Build) (kind : NodeKind) (key : GoString) (ns : NodeID) :
    (s.ensure kind key ns).1.intern = (s.internKey key).1.intern := by
  simp only [ensure]
  split <;> rfl

theorem mem_nodes_iff (hid : s.intern.keyOf? id = some key) :
    id ∈ s.nodes ↔ s.view.node key ≠ none := by
  rw [view_node hid, Map.mem_iff_ne_none, ne_eq, ne_eq, Option.map_eq_none_iff]

theorem Refines.ensure (h : s.Refines T) (kind : NodeKind) (key : GoString) (ns : NodeID)
    (hns : ns = noNode ∨ (s.intern.keyOf? ns).isSome) :
    (s.ensure kind key ns).1.Refines (T.ensure kind key (s.intern.keyOf? ns)) := by
  have hp := h.internKey key
  have hid := internKey_keyOf? s key
  have hmem := mem_nodes_iff hid
  rw [hp.means] at hmem
  unfold Build.ensure Topology.ensure
  cases hn : T.node key with
  | some n =>
    have : (s.internKey key).2 ∈ (s.internKey key).1.nodes := hmem.2 (by simp [hn])
    simpa only [this, if_true] using hp
  | none =>
    have : (s.internKey key).2 ∉ (s.internKey key).1.nodes := fun hin => hmem.1 hin hn
    simp only [this]
    have hlinked : NodeInfo.Linked s.intern ⟨kind, decide (kind = .namespace_), ns⟩ := hns
    have hview := NodeInfo.view_intern hlinked key
    have hset := hp.setNode hid ⟨kind, decide (kind = .namespace_), ns⟩
      (hlinked.intern key)
    exact (hview ▸ hset).record _

theorem ensure_keyOf? (s : Build) (kind : NodeKind) (key : GoString) (ns : NodeID) :
    (s.ensure kind key ns).1.intern.keyOf? (s.ensure kind key ns).2 = some key := by
  rw [ensure_intern, ensure_snd]
  exact internKey_keyOf? s key

theorem Refines.node (h : s.Refines T) (kind : NodeKind) (ns name : GoString) :
    (s.node kind ns name).1.Refines (T.addNode kind ns name) := by
  unfold Build.node Topology.addNode Topology.nsKey
  by_cases hns : ns = []
  · simp only [hns]
    exact h.ensure kind _ noNode (.inl rfl)
  · simp only [hns]
    have hnsid := ensure_keyOf? s .namespace_ (nodeKey .namespace_ [] ns) noNode
    have hfirst := h.ensure .namespace_ (nodeKey .namespace_ [] ns) noNode (.inl rfl)
    have hsecond := hfirst.ensure kind (nodeKey kind ns name) _
      (.inr (Option.isSome_iff_exists.2 ⟨_, hnsid⟩))
    rw [hnsid] at hsecond
    exact hsecond

theorem node_keyOf? (s : Build) (kind : NodeKind) (ns name : GoString) :
    (s.node kind ns name).1.intern.keyOf? (s.node kind ns name).2 =
      some (nodeKey kind ns name) := by
  unfold node
  split
  · exact ensure_keyOf? ..
  · exact ensure_keyOf? ..

theorem node_intern (s : Build) (kind : NodeKind) (ns name : GoString) :
    (s.node kind ns name).1.intern = s.intern.internAll (identityKeys kind ns name) := by
  unfold node identityKeys Topology.nsKey
  split <;> simp [internAll, internKey]

theorem Refines.observe (h : s.Refines T) (hid : s.intern.keyOf? id = some key) (kind : NodeKind) :
    (s.observe id kind).Refines (T.observe key kind) := by
  unfold Build.observe Topology.observe
  rw [← h.means, view_node hid]
  cases hn : s.nodes.lookup id with
  | none =>
    have hset := h.setNode hid ⟨kind, true, noNode⟩ (.inl rfl)
    rw [← h.means] at hset
    simpa [Map.getD, hn, NodeInfo.view, noNode, keyOf?, keyAt] using hset.record _
  | some info =>
    have hset := h.setNode hid { info with kind := kind, observed := true }
      (h.wf.nsLinks id info hn)
    rw [← h.means] at hset
    simpa [Map.getD, hn, NodeInfo.view] using hset.record _

/-! ## Collection -/

theorem WF.touched_iff (h : s.WF) (hid : s.intern.keyOf? id = some key) :
    Touched s.view.edges key ↔ 0 < Map.getD s.refcnt id 0 := by
  have hpos : 0 < Map.getD s.refcnt id 0 ↔ s.degree id ≠ 0 := by
    rw [h.refcnt]
    omega
  rw [hpos, ne_eq, h.adjacency.degree_eq_zero]
  push Not
  constructor
  · rintro ⟨k, ⟨e, he, hk⟩, htouch⟩
    refine ⟨e, he, fun hsrc => ?_⟩
    rcases htouch with rfl | rfl
    · exact absurd (keyOf?_inj hk.1 hid) hsrc
    · exact keyOf?_inj hk.2.1 hid
  · rintro ⟨e, he, htouch⟩
    obtain ⟨k, hk⟩ := h.ends e he
    refine ⟨k, ⟨e, he, hk⟩, ?_⟩
    by_cases hsrc : e.src = id
    · have := hk.1
      rw [hsrc, hid] at this
      exact .inl (Option.some.inj this).symm
    · have := hk.2.1
      rw [htouch hsrc, hid] at this
      exact .inr (Option.some.inj this).symm

/-- Dropping the record of a node that no edge touches. -/
theorem Refines.eraseNode (h : s.Refines T) (hid : s.intern.keyOf? id = some key)
    (hdeg : s.degree id = 0) :
    { s with nodes := s.nodes.erase id, refcnt := s.refcnt.erase id }.Refines
      (T.setNode key none) := by
  refine h.writeNode hid (Map.writes_erase _ _) (fun _ hnone => absurd hnone.symm (Option.some_ne_none _)) fun id' => ?_
  rw [Map.getD_erase]
  split
  · next heq => rw [heq, hdeg]; rfl
  · exact h.wf.refcnt id'

theorem Refines.maybeGC (h : s.Refines T) (hid : s.intern.keyOf? id = some key) :
    (s.maybeGC id).Refines (T.collect key) := by
  have htouch := h.wf.touched_iff hid
  have hnode := view_node hid
  rw [h.means] at htouch hnode
  unfold Build.maybeGC
  by_cases hpos : 0 < Map.getD s.refcnt id 0
  · rw [if_pos hpos, Topology.collect_eq_self fun hc => hc.1 (htouch.2 hpos)]
    exact h
  · have huntouched : ¬ Touched T.edges key := fun ht => hpos (htouch.1 ht)
    have hdeg : s.degree id = 0 := by
      have := h.wf.refcnt id
      omega
    rw [if_neg hpos]
    cases hn : s.nodes.lookup id with
    | none =>
      rw [hn] at hnode
      rw [Topology.collect_eq_self fun hc => Topology.not_collectableAt hnode hc.2]
      exact h
    | some info =>
      have hcoll : T.CollectableAt key ↔
          info.kind ≠ .namespace_ ∧ (info.observed = false ∨ info.kind.Derived) := by
        rw [Topology.CollectableAt, hnode, hn]
        simp [NodeView.Collectable, NodeInfo.view]
      simp only
      split
      · next hkind =>
        rw [Topology.collect_eq_self fun hc => (hcoll.1 hc.2).1 hkind]
        exact h
      · split
        · next hobs =>
          have hkept : ¬ T.CollectableAt key := by
            rw [hcoll, NodeKind.Derived]
            simp [hobs]
          rw [Topology.collect_eq_self fun hc => hkept hc.2]
          exact h
        · next hkind hobs =>
          have hgone : T.CollectableAt key := by
            rw [hcoll, NodeKind.Derived]
            refine ⟨hkind, ?_⟩
            by_cases ho : info.observed = true
            · simpa [or_iff_not_imp_left] using hobs
            · exact .inl (by simpa using ho)
          rw [Topology.collect_eq_setNode huntouched hgone]
          exact (h.eraseNode hid hdeg).record _

@[simp] theorem maybeGC_intern (s : Build) (id : NodeID) : (s.maybeGC id).intern = s.intern := by
  unfold maybeGC
  split
  · rfl
  · split
    · rfl
    · split
      · rfl
      · split <;> rfl

theorem Refines.markDeleted (h : s.Refines T) (hid : s.intern.keyOf? id = some key) :
    (s.markDeleted id).Refines (T.markDeleted key) := by
  have hnode := view_node hid
  rw [h.means] at hnode
  unfold Build.markDeleted Topology.markDeleted
  cases hn : s.nodes.lookup id with
  | none =>
    rw [hn] at hnode
    rw [hnode]
    exact h
  | some info =>
    rw [hn] at hnode
    rw [hnode]
    have hset := h.setNode hid { info with observed := false }
      (h.wf.nsLinks id info hn)
    exact (hset.record (.unobserve id)).maybeGC hid

/-! ## Edges -/

theorem getD_bump (s : Build) (id x : NodeID) (d : Int) :
    Map.getD (s.bump id d).refcnt x 0 = Map.getD s.refcnt x 0 + if x = id then d else 0 := by
  unfold bump
  rw [Map.getD_insert]
  split
  · next h => rw [h]
  · exact (Int.add_zero _).symm

/-- Replacing the adjacency together with its reference counts. -/
theorem Refines.withAdjacency (h : s.Refines T) {a : Adjacency} (ha : a.WF)
    (hr : ∀ id, Map.getD r id 0 = a.degree id) (hends : ∀ e ∈ a, e.Valid s.intern) :
    { s with toAdjacency := a, refcnt := r }.Refines
      (T.withEdges (named s.intern (· ∈ a))) := by
  refine ⟨{ h.wf with adjacency := ha, refcnt := hr, ends := hends }, ?_⟩
  rw [← h.means]
  rfl

theorem Refines.addEdge (h : s.Refines T) (hk : e.Names s.intern k) :
    (s.addEdge e).Refines (T.addEdges {k}) := by
  have ha := h.wf.adjacency
  have hmem : k ∈ T.edges ↔ e ∈ s.toAdjacency := by
    rw [← h.means]
    exact mem_named_iff hk
  unfold Build.addEdge
  by_cases he : e ∈ s.toAdjacency
  · rw [ha.add_of_mem he]
    have hsame : T.addEdges {k} = T := by
      ext1 <;> try rfl
      exact Set.union_eq_self_of_subset_right (Set.singleton_subset_iff.2 (hmem.2 he))
    simpa only [Bool.false_eq_true, if_false, hsame] using h
  · have hflag : (s.toAdjacency.add e).2 = true := by rw [ha.add_of_not_mem he]
    simp only [hflag]
    have hstep := h.withAdjacency
      (r := (({ s with toAdjacency := (s.toAdjacency.add e).1 }.bump e.src 1).bump e.dst 1).refcnt)
      (ha.add e) ?_ ?_
    · have hedges : named s.intern (· ∈ (s.toAdjacency.add e).1) = T.edges ∪ {k} := by
        rw [named_congr fun f => ha.mem_add, named_or, named_eq hk, Set.union_comm, ← h.means]
        rfl
      rw [hedges] at hstep
      exact hstep.record _
    · intro id
      rw [getD_bump, getD_bump, ha.degree_add he]
      rw [h.wf.refcnt]
      split <;> split <;> simp
    · intro f hf
      rcases ha.mem_add.1 hf with rfl | hf
      · exact ⟨k, hk⟩
      · exact h.wf.ends f hf

theorem Refines.removeEdge (h : s.Refines T) (hk : e.Names s.intern k) :
    (s.removeEdge e).Refines (T.dropEdges {k}) := by
  have ha := h.wf.adjacency
  have hmem : k ∈ T.edges ↔ e ∈ s.toAdjacency := by
    rw [← h.means]
    exact mem_named_iff hk
  unfold Build.removeEdge
  by_cases he : e ∈ s.toAdjacency
  · have hflag : (s.toAdjacency.remove e).2 = true := by rw [ha.remove_of_mem he]
    simp only [hflag]
    have hstep := h.withAdjacency
      (r := (({ s with toAdjacency := (s.toAdjacency.remove e).1 }.bump e.src (-1)).bump
        e.dst (-1)).refcnt) (ha.remove e) ?_ ?_
    · have hedges : named s.intern (· ∈ (s.toAdjacency.remove e).1) = T.edges \ {k} := by
        rw [named_congr fun f => ha.mem_remove, named_and_not, named_eq hk, ← h.means]
        rfl
      rw [hedges] at hstep
      rw [Topology.dropEdges_singleton (hmem.2 he)]
      refine ((hstep.record (.edgeRemove e)).maybeGC hk.1).maybeGC ?_
      rw [maybeGC_intern]
      exact hk.2.1
    · intro id
      have hdeg := ha.degree_remove he id
      rw [getD_bump, getD_bump]
      rw [h.wf.refcnt, ← hdeg]
      split <;> split <;> simp
    · intro f hf
      exact h.wf.ends f (ha.mem_remove.1 hf).1
  · rw [ha.remove_of_not_mem he, Topology.dropEdges_of_disjoint]
    · simpa using h
    · rintro f rfl hf
      exact he (hmem.1 hf)

@[simp] theorem addEdge_intern (s : Build) (e : HalfEdge) : (s.addEdge e).intern = s.intern := by
  simp only [addEdge]
  split <;> rfl

@[simp] theorem removeEdge_intern (s : Build) (e : HalfEdge) :
    (s.removeEdge e).intern = s.intern := by
  simp only [removeEdge]
  split
  · simp only [maybeGC_intern]
    rfl
  · rfl

end Build

end Lookout
