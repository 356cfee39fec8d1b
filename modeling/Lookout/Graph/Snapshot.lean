-- SUMMARY: Published snapshots: mirrored adjacency slices, and what a snapshot says about identities.
import Lookout.Graph.Types

/-!
# Snapshots

Snapshots, the writer's batches and the replayer all hold the forward slices, the reverse
slices and the number of edges. They share the two operations on them, which are idempotent
and report whether they changed anything.

Node numbers are private to the writer that published a snapshot, so two snapshots are
compared by identity: `HasEdge` and `Observes` read a snapshot through its keys.
-/

namespace Lookout

open SortedList

/-! ## Adjacency -/

structure Adjacency where
  out : Map NodeID (List Edge)
  in_ : Map NodeID (List Edge)
  edges : Int

/-- Store a slice, without an entry for the empty one. -/
def storeEdges (m : Map NodeID (List Edge)) (id : NodeID) (edges : List Edge) :
    Map NodeID (List Edge) :=
  if edges = [] then m.erase id else m.insert id edges

theorem getD_storeEdges (m : Map NodeID (List Edge)) (id id' : NodeID) (edges : List Edge) :
    Map.getD (storeEdges m id edges) id' [] = if id' = id then edges else Map.getD m id' [] := by
  unfold storeEdges
  split
  · next h => rw [Map.getD_erase, h]
  · rw [Map.getD_insert]

theorem lookup_storeEdges_ne_nil {m : Map NodeID (List Edge)} {id id' : NodeID}
    {edges l : List Edge} (hm : ∀ l, m.lookup id' = some l → l ≠ [])
    (h : (storeEdges m id edges).lookup id' = some l) : l ≠ [] := by
  unfold storeEdges at h
  split at h
  · exact hm l (Map.of_lookup_erase h).2
  · next hne =>
    rcases Map.of_lookup_insert h with ⟨-, rfl⟩ | ⟨-, h⟩
    · exact hne
    · exact hm l h

theorem total_storeEdges (m : Map NodeID (List Edge)) (id : NodeID) (edges : List Edge) :
    Map.total (storeEdges m id edges) + (Map.getD m id []).length =
      Map.total m + edges.length := by
  unfold storeEdges
  split
  · next h =>
    rw [Map.total_erase, h]
    rfl
  · exact Map.total_insert m id edges

namespace Adjacency

def empty : Adjacency := ⟨∅, ∅, 0⟩

/-- The outbound edges of `id`. -/
def outOf (a : Adjacency) (id : NodeID) : List Edge := Map.getD a.out id []

/-- The inbound edges of `id`. -/
def inOf (a : Adjacency) (id : NodeID) : List Edge := Map.getD a.in_ id []

instance : Membership HalfEdge Adjacency where
  mem a e := (⟨e.dst, e.kind⟩ : Edge) ∈ a.outOf e.src

variable {e : HalfEdge}

theorem mem_def {a : Adjacency} : e ∈ a ↔ (⟨e.dst, e.kind⟩ : Edge) ∈ a.outOf e.src :=
  Iff.rfl

instance (a : Adjacency) (e : HalfEdge) : Decidable (e ∈ a) :=
  inferInstanceAs (Decidable ((⟨e.dst, e.kind⟩ : Edge) ∈ a.outOf e.src))

/-- Insert `e`, and say whether it was absent. -/
def add (a : Adjacency) (e : HalfEdge) : Adjacency × Bool :=
  let out := insertEdge (a.outOf e.src) ⟨e.dst, e.kind⟩
  if out.2 then
    let in_ := insertEdge (a.inOf e.dst) ⟨e.src, e.kind⟩
    ({ out := a.out.insert e.src out.1
       in_ := a.in_.insert e.dst in_.1
       edges := a.edges + 1 }, true)
  else (a, false)

/-- Delete `e`, and say whether it was present. -/
def remove (a : Adjacency) (e : HalfEdge) : Adjacency × Bool :=
  let out := deleteEdge (a.outOf e.src) ⟨e.dst, e.kind⟩
  if out.2 then
    let in_ := deleteEdge (a.inOf e.dst) ⟨e.src, e.kind⟩
    ({ out := storeEdges a.out e.src out.1
       in_ := storeEdges a.in_ e.dst in_.1
       edges := a.edges - 1 }, true)
  else (a, false)

/-- The representation invariant: both sides are sorted and mirror each other, no
    empty slice is stored, and the counter counts. -/
structure WF (a : Adjacency) : Prop where
  outSorted : ∀ id, (a.outOf id).Pairwise EdgeLt
  inSorted : ∀ id, (a.inOf id).Pairwise EdgeLt
  mirror : ∀ i j k, (⟨j, k⟩ : Edge) ∈ a.outOf i ↔ (⟨i, k⟩ : Edge) ∈ a.inOf j
  outStored : ∀ id l, a.out.lookup id = some l → l ≠ []
  inStored : ∀ id l, a.in_.lookup id = some l → l ≠ []
  counted : a.edges = Map.total a.out

theorem WF.empty : Adjacency.empty.WF where
  outSorted _ := List.Pairwise.nil
  inSorted _ := List.Pairwise.nil
  mirror i j k := by simp [outOf, inOf, Adjacency.empty]
  outStored id l h := by simp [Adjacency.empty] at h
  inStored id l h := by simp [Adjacency.empty] at h
  counted := rfl

variable {a : Adjacency}

theorem WF.mem_iff_inOf (h : a.WF) : e ∈ a ↔ (⟨e.src, e.kind⟩ : Edge) ∈ a.inOf e.dst :=
  h.mirror e.src e.dst e.kind

/-- The number of edge ends at `id`. A self-loop counts twice. -/
def degree (a : Adjacency) (id : NodeID) : Nat := (a.outOf id).length + (a.inOf id).length

theorem WF.degree_eq_zero (h : a.WF) {id : NodeID} :
    a.degree id = 0 ↔ ∀ e ∈ a, e.src ≠ id ∧ e.dst ≠ id := by
  unfold degree
  rw [Nat.add_eq_zero_iff, List.length_eq_zero_iff, List.length_eq_zero_iff]
  constructor
  · rintro ⟨hout, hin⟩ e he
    constructor
    · rintro rfl
      rw [mem_def, hout] at he
      cases he
    · rintro rfl
      rw [h.mem_iff_inOf, hin] at he
      cases he
  · intro hall
    constructor
    · refine List.eq_nil_iff_forall_not_mem.2 fun x hx => ?_
      exact (hall ⟨id, x.dst, x.kind⟩ hx).1 rfl
    · refine List.eq_nil_iff_forall_not_mem.2 fun x hx => ?_
      exact (hall ⟨x.dst, id, x.kind⟩ (h.mem_iff_inOf.2 hx)).2 rfl

/-! ## Insertion -/

theorem WF.add_of_mem (h : a.WF) (he : e ∈ a) : a.add e = (a, false) := by
  have hflag : (insertEdge (a.outOf e.src) ⟨e.dst, e.kind⟩).2 = false := by
    rw [← Bool.not_eq_true, insertEdge, insert_added (h.outSorted e.src)]
    exact fun hn => hn he
  simp [add, hflag]

theorem storeEdges_insertEdge (m : Map NodeID (List Edge)) (id : NodeID) {l : List Edge}
    (hl : l.Pairwise EdgeLt) (x : Edge) :
    storeEdges m id (insertEdge l x).1 = m.insert id (insertEdge l x).1 :=
  if_neg (List.ne_nil_of_mem ((mem_insert hl x x).2 (Or.inl rfl)))

theorem WF.add_of_not_mem (h : a.WF) (he : e ∉ a) :
    a.add e =
      ({ out := storeEdges a.out e.src (insertEdge (a.outOf e.src) ⟨e.dst, e.kind⟩).1
         in_ := storeEdges a.in_ e.dst (insertEdge (a.inOf e.dst) ⟨e.src, e.kind⟩).1
         edges := a.edges + 1 }, true) := by
  have hflag : (insertEdge (a.outOf e.src) ⟨e.dst, e.kind⟩).2 = true :=
    (insert_added (h.outSorted e.src) _).2 he
  simp [add, hflag, storeEdges_insertEdge _ _ (h.outSorted e.src),
    storeEdges_insertEdge _ _ (h.inSorted e.dst)]

variable {f : HalfEdge} {l : List Edge}

theorem WF.mem_add (h : a.WF) : f ∈ (a.add e).1 ↔ f = e ∨ f ∈ a := by
  by_cases he : e ∈ a
  · rw [h.add_of_mem he]
    exact ⟨Or.inr, fun hf => hf.elim (fun hf => hf ▸ he) id⟩
  · rw [h.add_of_not_mem he, mem_def, outOf, getD_storeEdges]
    split
    · next hsrc =>
      rw [insertEdge, mem_insert (h.outSorted e.src), mem_def, hsrc]
      cases f
      cases e
      simp_all
    · next hsrc =>
      refine ⟨Or.inr, fun hf => hf.elim (fun hf => absurd (congrArg HalfEdge.src hf) hsrc) id⟩

private theorem length_insertEdge (hl : l.Pairwise EdgeLt) {e : Edge} (he : e ∉ l) :
    (insertEdge l e).1.length = l.length + 1 :=
  length_insert ((insert_added hl e).2 he)

theorem WF.degree_add (h : a.WF) (he : e ∉ a) (x : NodeID) :
    (a.add e).1.degree x =
      a.degree x + (if x = e.src then 1 else 0) + (if x = e.dst then 1 else 0) := by
  have hin : (⟨e.src, e.kind⟩ : Edge) ∉ a.inOf e.dst := fun hin => he (h.mem_iff_inOf.2 hin)
  have hlout := length_insertEdge (h.outSorted e.src) he
  have hlin := length_insertEdge (h.inSorted e.dst) hin
  rw [h.add_of_not_mem he]
  simp only [degree, outOf, inOf, getD_storeEdges] at hlout hlin ⊢
  split <;> split <;> simp_all <;> omega

/-- One slice is replaced on each side. -/
theorem WF.store (h : a.WF) {out in_ : List Edge} {edges : Int} {i j : NodeID}
    (hout : out.Pairwise EdgeLt) (hin : in_.Pairwise EdgeLt)
    (hmirror : ∀ i' j' k, (⟨j', k⟩ : Edge) ∈ (if i' = i then out else a.outOf i') ↔
      (⟨i', k⟩ : Edge) ∈ (if j' = j then in_ else a.inOf j'))
    (hcount : edges + (a.outOf i).length = a.edges + out.length) :
    WF ⟨storeEdges a.out i out, storeEdges a.in_ j in_, edges⟩ where
  outSorted id := by
    rw [outOf, getD_storeEdges]
    split
    · exact hout
    · exact h.outSorted id
  inSorted id := by
    rw [inOf, getD_storeEdges]
    split
    · exact hin
    · exact h.inSorted id
  mirror i' j' k := by
    rw [outOf, inOf, getD_storeEdges, getD_storeEdges]
    exact hmirror i' j' k
  outStored id _ := lookup_storeEdges_ne_nil (h.outStored id)
  inStored id _ := lookup_storeEdges_ne_nil (h.inStored id)
  counted := by
    have htotal := total_storeEdges a.out i out
    have hold := h.counted
    simp only [outOf] at hcount htotal ⊢
    omega

theorem WF.add (h : a.WF) (e : HalfEdge) : (a.add e).1.WF := by
  by_cases he : e ∈ a
  · rw [h.add_of_mem he]
    exact h
  · have hlen := length_insertEdge (h.outSorted e.src) he
    rw [h.add_of_not_mem he]
    refine h.store (pairwise_insert (h.outSorted e.src) _) (pairwise_insert (h.inSorted e.dst) _)
      (fun i j k => ?_) (by omega)
    have hij := h.mirror i j k
    have hmemOut := mem_insert (h.outSorted e.src) ⟨e.dst, e.kind⟩
    have hmemIn := mem_insert (h.inSorted e.dst) ⟨e.src, e.kind⟩
    simp only [insertEdge]
    split <;> split <;> simp_all

/-! ## Deletion -/

theorem WF.remove_of_not_mem (h : a.WF) (he : e ∉ a) : a.remove e = (a, false) := by
  have hflag : (deleteEdge (a.outOf e.src) ⟨e.dst, e.kind⟩).2 = false := by
    rw [← Bool.not_eq_true, deleteEdge, delete_removed (h.outSorted e.src)]
    exact he
  simp [remove, hflag]

theorem WF.remove_of_mem (h : a.WF) (he : e ∈ a) :
    a.remove e =
      ({ out := storeEdges a.out e.src (deleteEdge (a.outOf e.src) ⟨e.dst, e.kind⟩).1
         in_ := storeEdges a.in_ e.dst (deleteEdge (a.inOf e.dst) ⟨e.src, e.kind⟩).1
         edges := a.edges - 1 }, true) := by
  have hflag : (deleteEdge (a.outOf e.src) ⟨e.dst, e.kind⟩).2 = true :=
    (delete_removed (h.outSorted e.src) _).2 he
  simp [remove, hflag]

theorem WF.mem_remove (h : a.WF) : f ∈ (a.remove e).1 ↔ f ∈ a ∧ f ≠ e := by
  by_cases he : e ∈ a
  · rw [h.remove_of_mem he, mem_def, outOf, getD_storeEdges]
    split
    · next hsrc =>
      rw [deleteEdge, mem_delete (h.outSorted e.src), mem_def, hsrc]
      cases f
      cases e
      simp_all
    · next hsrc =>
      exact ⟨fun hf => ⟨hf, fun heq => hsrc (congrArg HalfEdge.src heq)⟩, fun hf => hf.1⟩
  · rw [h.remove_of_not_mem he]
    exact ⟨fun hf => ⟨hf, fun heq => he (heq ▸ hf)⟩, fun hf => hf.1⟩

private theorem length_deleteEdge (hl : l.Pairwise EdgeLt) {e : Edge} (he : e ∈ l) :
    (deleteEdge l e).1.length + 1 = l.length :=
  length_delete ((delete_removed hl e).2 he)

theorem WF.degree_remove (h : a.WF) (he : e ∈ a) (x : NodeID) :
    (a.remove e).1.degree x + (if x = e.src then 1 else 0) + (if x = e.dst then 1 else 0) =
      a.degree x := by
  have hlout := length_deleteEdge (h.outSorted e.src) he
  have hlin := length_deleteEdge (h.inSorted e.dst) (h.mem_iff_inOf.1 he)
  rw [h.remove_of_mem he]
  simp only [degree, outOf, inOf, getD_storeEdges] at hlout hlin ⊢
  split <;> split <;> simp_all <;> omega

theorem WF.remove (h : a.WF) (e : HalfEdge) : (a.remove e).1.WF := by
  by_cases he : e ∈ a
  · have hlen := length_deleteEdge (h.outSorted e.src) he
    rw [h.remove_of_mem he]
    refine h.store (pairwise_delete (h.outSorted e.src) _) (pairwise_delete (h.inSorted e.dst) _)
      (fun i j k => ?_) (by omega)
    have hij := h.mirror i j k
    have hmemOut := mem_delete (h.outSorted e.src) ⟨e.dst, e.kind⟩
    have hmemIn := mem_delete (h.inSorted e.dst) ⟨e.src, e.kind⟩
    simp only [deleteEdge]
    split <;> split <;> simp_all
  · rw [h.remove_of_not_mem he]
    exact h

end Adjacency

/-! ## Snapshots -/

structure Snapshot extends Adjacency where
  nodes : Map NodeID NodeInfo
  /-- The interner's keys at the time of the swap. -/
  keys : List GoString
  ids : Map GoString NodeID
  /-- The kinds the ingest watches. Without a set it watches all of them. -/
  watched : Option (Finset NodeKind)
  generation : Nat

/-- What a node is, without numbers: its namespace is named by its key. -/
structure NodeView where
  kind : NodeKind
  observed : Bool
  ns : Option GoString
  deriving DecidableEq, Repr

namespace Snapshot

/-- The identity key of a node. -/
def keyOf (s : Snapshot) (id : NodeID) : Option GoString := Interner.keyAt s.keys id

/-- All edges, by source and in slice order. -/
def halfEdges (s : Snapshot) : List HalfEdge :=
  (Map.sortedKeys s.out).flatMap fun id => (s.outOf id).map fun e => ⟨id, e.dst, e.kind⟩

theorem mem_halfEdges {s : Snapshot} {e : HalfEdge} : e ∈ s.halfEdges ↔ e ∈ s.toAdjacency := by
  simp only [halfEdges, List.mem_flatMap, List.mem_map, Map.mem_sortedKeys, Adjacency.mem_def]
  constructor
  · rintro ⟨id, -, e', he', rfl⟩
    exact he'
  · intro he
    refine ⟨e.src, ?_, ⟨e.dst, e.kind⟩, he, rfl⟩
    rw [Map.mem_iff_ne_none]
    intro hnone
    simp [Adjacency.outOf, Map.getD, hnone] at he

/-- The representation invariant that queries and binary searches rely on. -/
structure WellFormed (s : Snapshot) : Prop where
  outEnds : ∀ id, ∀ e ∈ s.outOf id, id ∈ s.nodes ∧ e.dst ∈ s.nodes
  inEnds : ∀ id, ∀ e ∈ s.inOf id, id ∈ s.nodes ∧ e.dst ∈ s.nodes
  mirror : ∀ i j k, (⟨j, k⟩ : Edge) ∈ s.outOf i ↔ (⟨i, k⟩ : Edge) ∈ s.inOf j
  outSorted : ∀ id, (s.outOf id).Pairwise EdgeLt
  inSorted : ∀ id, (s.inOf id).Pairwise EdgeLt
  counted : s.edges = Map.total s.out
  nsNodes : ∀ id info, s.nodes.lookup id = some info → info.ns = noNode ∨ info.ns ∈ s.nodes

/-- `Resolve`: the identity of a node, none for a number that is not a node. -/
def resolve (s : Snapshot) (id : NodeID) : Option GoString :=
  if id ∈ s.nodes then s.keyOf id else none

theorem resolve_of_mem {s : Snapshot} {id : NodeID} (h : id ∈ s.nodes) : s.resolve id = s.keyOf id :=
  if_pos h

/-- The edge of kind `k` from identity `a` to identity `b` is in the snapshot, and so are
    its ends. -/
def HasEdge (s : Snapshot) (a b : GoString) (k : EdgeKind) : Prop :=
  ∃ e ∈ s.halfEdges, s.resolve e.src = some a ∧ s.resolve e.dst = some b ∧ e.kind = k

instance (s : Snapshot) (a b : GoString) (k : EdgeKind) : Decidable (s.HasEdge a b k) :=
  inferInstanceAs (Decidable (∃ e ∈ s.halfEdges, _))

/-- The node with identity `key`, with its namespace named. -/
def nodeAt (s : Snapshot) (key : GoString) : Option NodeView :=
  (s.ids.lookup key).bind fun id =>
    (s.nodes.lookup id).map fun info => ⟨info.kind, info.observed, s.keyOf info.ns⟩

/-- Identity `key` is an observed node that is not a Namespace. -/
def Observes (s : Snapshot) (key : GoString) : Prop :=
  ∃ n ∈ s.nodeAt key, n.observed = true ∧ n.kind ≠ .namespace_

instance (s : Snapshot) (key : GoString) : Decidable (s.Observes key) :=
  inferInstanceAs (Decidable (∃ n ∈ s.nodeAt key, _))

end Snapshot

end Lookout
