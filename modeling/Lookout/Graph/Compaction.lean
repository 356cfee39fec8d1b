-- SUMMARY: Compaction renumbers the live nodes without changing what the batch means, when no edge dangles.
import Lookout.Graph.Population
import Lookout.Graph.RefineDelta

/-!
# Compaction

A compaction numbers the live nodes `1..n` in their old order and drops every key
that belongs to no node. What the batch means does not change, as long as
everything that it refers to is a node. A dangling edge would be renumbered to
the number zero, and a table entry without a node would be dropped.
-/

namespace Lookout

open Interner
open Map (getD mem_iff_ne_none nodup_sortedKeys range sortedKeys)

variable {o : Map.RangeOrder} {ids : List NodeID} {i id j : NodeID} {k : EdgeKind}
  {es : List HalfEdge}

namespace Build

/-! ## Renumbered tables -/

section tables

variable {α β : Type} {m : Map NodeID α}

theorem remapped_of_remap (h : remap ids id = some j) : remapped ids id = j := by
  simp [remapped, h]

theorem remap_of_mem (h : id ∈ ids) : remap ids id = some (remapped ids id) := by
  obtain ⟨j, hj⟩ := Option.isSome_iff_exists.1 (remap_isSome.2 h)
  rw [remapped_of_remap hj, hj]

theorem lookup_of_remap {g : α → β} {m' : Map NodeID β} (hnodup : ids.Nodup)
    (hm' : ∀ b, m'.lookup j = some b ↔
      ∃ id v, m.lookup id = some v ∧ remap ids id = some j ∧ b = g v)
    (hj : remap ids id = some j) : m'.lookup j = (m.lookup id).map g := by
  ext b
  rw [hm', Option.map_eq_some_iff]
  constructor
  · rintro ⟨id', v, hv, hj', rfl⟩
    exact ⟨v, remap_inj hnodup hj' hj ▸ hv, rfl⟩
  · rintro ⟨v, hv, rfl⟩
    exact ⟨id, v, hv, hj, rfl⟩

variable {g : α → β} {b : β}

/-- A loop that moves each entry to the new number of its key. -/
theorem lookup_rebuild_renumbered (hnodup : ids.Nodup) {f : NodeID → α → Option (NodeID × β)}
    (hf : ∀ id v, m.lookup id = some v → f id v = (remap ids id).map (·, g v)) :
    (Map.rebuild (range o m) m f).lookup j = some b ↔
      ∃ id v, m.lookup id = some v ∧ remap ids id = some j ∧ b = g v := by
  have hmoved : ∀ {id v p}, m.lookup id = some v → f id v = some p →
      remap ids id = some p.1 ∧ p.2 = g v := by
    intro id v p hv hp
    rw [hf id v hv] at hp
    obtain ⟨j, hj, rfl⟩ := Option.map_eq_some_iff.1 hp
    exact ⟨hj, rfl⟩
  rw [Map.lookup_rebuild]
  · constructor
    · rintro ⟨id, -, v, hv, hp⟩
      exact ⟨id, v, hv, hmoved hv hp⟩
    · rintro ⟨id, v, hv, hj, rfl⟩
      refine ⟨id, ?_, v, hv, by simp [hf id v hv, hj]⟩
      rw [Map.mem_range, mem_iff_ne_none]
      simp [hv]
  · intro a b v w j x y hv hw ha hb
    exact remap_inj hnodup (hmoved hv ha).1 (hmoved hw hb).1

/-- A loop that skips the numbers that are gone. -/
theorem lookup_rebuild_remap (hnodup : ids.Nodup) :
    (Map.rebuild (range o m) m fun id v =>
      (remap ids id).map (·, g v)).lookup j = some b ↔
      ∃ id v, m.lookup id = some v ∧ remap ids id = some j ∧ b = g v :=
  lookup_rebuild_renumbered hnodup fun _ _ _ => rfl

theorem lookup_remapTable (hnodup : ids.Nodup) (j : NodeID) (v : α) :
    (remapTable o ids m).lookup j = some v ↔
      ∃ id w, m.lookup id = some w ∧ remap ids id = some j ∧ v = w :=
  lookup_rebuild_remap hnodup

theorem getD_mapVals_remapTable (tables : Map GoString (Map NodeID α)) (ns : GoString) :
    getD (Map.mapVals (remapTable o ids) tables) ns ∅ =
      remapTable o ids (getD tables ns ∅) := by
  have hempty : remapTable o ids (∅ : Map NodeID α) = ∅ := by
    have hnil : range o (∅ : Map NodeID α) = [] := (o.perm _).eq_nil
    rw [remapTable, hnil]
    rfl
  have hget := Map.getD_mapVals (remapTable o ids) tables ns ∅
  rwa [hempty] at hget

theorem lookup_remapTable_of_remap (hnodup : ids.Nodup) (hj : remap ids id = some j) :
    (remapTable o ids m).lookup j = m.lookup id :=
  (lookup_of_remap hnodup (lookup_remapTable hnodup j) hj).trans Option.map_id'

theorem lookup_remapTable_of_gone (hnodup : ids.Nodup) (hj : ∀ id, remap ids id ≠ some j) :
    (remapTable o ids m).lookup j = none := by
  refine Option.eq_none_iff_forall_ne_some.2 fun v hv => ?_
  obtain ⟨id, w, -, hid, -⟩ := (lookup_remapTable hnodup j v).1 hv
  exact hj id hid

/-- A loop over a table whose numbers are all kept. -/
theorem lookup_rebuild_remapped (hnodup : ids.Nodup) (hdom : ∀ id, m.lookup id ≠ none → id ∈ ids) :
    (Map.rebuild (range o m) m fun id v => some (remapped ids id, g v)).lookup j = some b ↔
      ∃ id v, m.lookup id = some v ∧ remap ids id = some j ∧ b = g v := by
  refine lookup_rebuild_renumbered hnodup fun id v hv => ?_
  rw [remap_of_mem (hdom id (by simp [hv]))]
  rfl

end tables

/-! ## Renumbered adjacency -/

section adjacency

variable {m : Map NodeID (List Edge)} {a : Adjacency}

/-- An edge with its end renumbered. -/
def remapEdge (ids : List NodeID) (e : Edge) : Edge := ⟨remapped ids e.dst, e.kind⟩

variable {l : List Edge}

/-- Renumbering in order keeps a slice sorted. -/
theorem pairwise_remapEdge (hids : ids.Pairwise (· < ·)) (hl : l.Pairwise EdgeLt)
    (hends : ∀ e ∈ l, e.dst ∈ ids) : (l.map (remapEdge ids)).Pairwise EdgeLt := by
  rw [List.pairwise_map]
  refine hl.imp_of_mem ?_
  intro e f he hf hlt
  rw [edgeLt_iff] at hlt ⊢
  simp only [remapEdge,
    remap_lt_iff hids (remap_of_mem (hends e he)) (remap_of_mem (hends f hf))]
  exact hlt

theorem mem_map_remapEdge (hends : ∀ e ∈ l, e.dst ∈ ids) :
    (⟨j, k⟩ : Edge) ∈ l.map (remapEdge ids) ↔
      ∃ id, remap ids id = some j ∧ (⟨id, k⟩ : Edge) ∈ l := by
  constructor
  · intro h
    obtain ⟨e, he, heq⟩ := List.mem_map.1 h
    cases heq
    exact ⟨e.dst, remap_of_mem (hends e he), he⟩
  · rintro ⟨id, hid, he⟩
    refine List.mem_map.2 ⟨_, he, ?_⟩
    rw [remapEdge, remapped_of_remap hid]

section table

variable (hnodup : ids.Nodup) (hdom : ∀ id, m.lookup id ≠ none → id ∈ ids)

include hnodup hdom

theorem getD_remapAdjacency (hj : remap ids id = some j) :
    getD (remapAdjacency o ids m) j [] = (getD m id []).map (remapEdge ids) := by
  have hlookup : (remapAdjacency o ids m).lookup j = _ :=
    lookup_of_remap hnodup (fun _ => lookup_rebuild_remapped hnodup hdom) hj
  rw [getD, hlookup, getD]
  cases m.lookup id <;> rfl

theorem getD_remapAdjacency_of_gone (hj : ∀ id, remap ids id ≠ some j) :
    getD (remapAdjacency o ids m) j [] = [] := by
  unfold getD
  cases hnew : (remapAdjacency o ids m).lookup j with
  | none => rfl
  | some b =>
    obtain ⟨id, v, -, hj', -⟩ := (lookup_rebuild_remapped hnodup hdom).1 hnew
    exact absurd hj' (hj id)

/-- A slice after renumbering is a renumbered slice, or empty. -/
theorem getD_remapAdjacency_cases (j : NodeID) :
    (∃ id, remap ids id = some j ∧
      getD (remapAdjacency o ids m) j [] = (getD m id []).map (remapEdge ids)) ∨
    (∀ id, remap ids id ≠ some j) ∧ getD (remapAdjacency o ids m) j [] = [] := by
  by_cases hj : ∃ id, remap ids id = some j
  · obtain ⟨id, hid⟩ := hj
    exact .inl ⟨id, hid, getD_remapAdjacency hnodup hdom hid⟩
  · have hgone : ∀ id, remap ids id ≠ some j := fun id hid => hj ⟨id, hid⟩
    exact .inr ⟨hgone, getD_remapAdjacency_of_gone hnodup hdom hgone⟩

theorem mem_getD_remapAdjacency (hends : ∀ id, ∀ e ∈ getD m id [], e.dst ∈ ids) :
    (⟨j, k⟩ : Edge) ∈ getD (remapAdjacency o ids m) i [] ↔
      ∃ x y, remap ids x = some i ∧ remap ids y = some j ∧
        (⟨y, k⟩ : Edge) ∈ getD m x [] := by
  rcases getD_remapAdjacency_cases hnodup hdom i with ⟨x, hx, hslice⟩ | ⟨hgone, hslice⟩
  · rw [hslice, mem_map_remapEdge (hends x)]
    constructor
    · rintro ⟨y, hy, he⟩
      exact ⟨x, y, hx, hy, he⟩
    · rintro ⟨x', y, hx', hy, he⟩
      rw [remap_inj hnodup hx' hx] at he
      exact ⟨y, hy, he⟩
  · rw [hslice]
    refine iff_of_false List.not_mem_nil ?_
    rintro ⟨x, y, hx, -⟩
    exact hgone x hx

theorem total_remapAdjacency :
    Map.total (remapAdjacency o ids m) = Map.total m := by
  have hremap : ∀ id ∈ m.keys, remap ids id = some (remapped ids id) := by
    intro id hid
    rw [Finmap.mem_keys, mem_iff_ne_none] at hid
    exact remap_of_mem (hdom id hid)
  refine Map.total_rename (r := remapped ids) ?_ ?_ ?_
  · intro a ha b hb hab
    have hb' := hremap b hb
    rw [← hab] at hb'
    exact remap_inj hnodup (hremap a ha) hb'
  · ext j
    rw [Finmap.mem_keys, mem_iff_ne_none, Option.ne_none_iff_exists', Finset.mem_image]
    constructor
    · rintro ⟨b, hb⟩
      obtain ⟨id, v, hv, hj, -⟩ := (lookup_rebuild_remapped hnodup hdom).1 hb
      refine ⟨id, ?_, remapped_of_remap hj⟩
      rw [Finmap.mem_keys, mem_iff_ne_none]
      simp [hv]
    · rintro ⟨id, hid, rfl⟩
      have hj := hremap id hid
      rw [Finmap.mem_keys, mem_iff_ne_none] at hid
      obtain ⟨v, hv⟩ := Option.ne_none_iff_exists'.1 hid
      exact ⟨_, (lookup_rebuild_remapped hnodup hdom).2 ⟨id, v, hv, hj, rfl⟩⟩
  · intro id hid
    rw [getD_remapAdjacency hnodup hdom (hremap id hid), List.length_map]

end table

theorem pairwise_getD_remapAdjacency (hids : ids.Pairwise (· < ·))
    (hdom : ∀ id, m.lookup id ≠ none → id ∈ ids)
    (hends : ∀ id, ∀ e ∈ getD m id [], e.dst ∈ ids)
    (hsorted : ∀ id, (getD m id []).Pairwise EdgeLt) (j : NodeID) :
    (getD (remapAdjacency o ids m) j []).Pairwise EdgeLt := by
  rcases getD_remapAdjacency_cases hids.nodup hdom j with
    ⟨id, -, hslice⟩ | ⟨-, hslice⟩
  · rw [hslice]
    exact pairwise_remapEdge hids (hsorted id) (hends id)
  · rw [hslice]
    exact List.Pairwise.nil

/-- Both sides of an adjacency renumbered. -/
def remapGraph (o₁ o₂ : Map.RangeOrder) (ids : List NodeID) (a : Adjacency) : Adjacency :=
  ⟨remapAdjacency o₁ ids a.out, remapAdjacency o₂ ids a.in_, a.edges⟩

variable {o₁ o₂ : Map.RangeOrder}

section kept

variable (ha : a.WF) (hids : ids.Pairwise (· < ·)) (hends : ∀ e ∈ a, e.src ∈ ids ∧ e.dst ∈ ids)
include ha hids hends

omit hids in
theorem out_dom (id : NodeID) (h : a.out.lookup id ≠ none) : id ∈ ids := by
  obtain ⟨l, hl⟩ := Option.ne_none_iff_exists'.1 h
  obtain ⟨e, he⟩ := List.exists_mem_of_ne_nil l (ha.outStored id l hl)
  refine (hends ⟨id, e.dst, e.kind⟩ ?_).1
  rw [Adjacency.mem_def, Adjacency.outOf, getD, hl]
  exact he

omit hids in
theorem in_dom (id : NodeID) (h : a.in_.lookup id ≠ none) : id ∈ ids := by
  obtain ⟨l, hl⟩ := Option.ne_none_iff_exists'.1 h
  obtain ⟨e, he⟩ := List.exists_mem_of_ne_nil l (ha.inStored id l hl)
  refine (hends ⟨e.dst, id, e.kind⟩ ?_).2
  rw [Adjacency.mem_def, ha.mirror, Adjacency.inOf, getD, hl]
  exact he

omit ha hids in
theorem out_ends (id : NodeID) : ∀ e ∈ a.outOf id, e.dst ∈ ids :=
  fun e he => (hends ⟨id, e.dst, e.kind⟩ he).2

omit hids in
theorem in_ends (id : NodeID) : ∀ e ∈ a.inOf id, e.dst ∈ ids :=
  fun e he => (hends ⟨e.dst, id, e.kind⟩ ((ha.mirror _ _ _).2 he)).1

theorem outOf_remapGraph (hj : remap ids id = some j) :
    (remapGraph o₁ o₂ ids a).outOf j = (a.outOf id).map (remapEdge ids) :=
  getD_remapAdjacency hids.nodup (out_dom ha hends) hj

theorem inOf_remapGraph (hj : remap ids id = some j) :
    (remapGraph o₁ o₂ ids a).inOf j = (a.inOf id).map (remapEdge ids) :=
  getD_remapAdjacency hids.nodup (in_dom ha hends) hj

/-- The edges after renumbering are the old ones, renumbered. -/
theorem mem_outOf_remapGraph :
    (⟨j, k⟩ : Edge) ∈ (remapGraph o₁ o₂ ids a).outOf i ↔
      ∃ x y, remap ids x = some i ∧ remap ids y = some j ∧
        (⟨y, k⟩ : Edge) ∈ a.outOf x :=
  mem_getD_remapAdjacency hids.nodup (out_dom ha hends) (out_ends hends)

theorem mem_inOf_remapGraph :
    (⟨i, k⟩ : Edge) ∈ (remapGraph o₁ o₂ ids a).inOf j ↔
      ∃ x y, remap ids x = some i ∧ remap ids y = some j ∧
        (⟨y, k⟩ : Edge) ∈ a.outOf x := by
  refine (mem_getD_remapAdjacency hids.nodup (in_dom ha hends)
    (in_ends ha hends)).trans ?_
  rw [exists_comm]
  exact exists_congr fun x => exists_congr fun y => by rw [ha.mirror, and_left_comm]; rfl

theorem remapGraph_wf : (remapGraph o₁ o₂ ids a).WF := by
  have hnodup : ids.Nodup := hids.nodup
  have hstored : ∀ {o : Map.RangeOrder} {m : Map NodeID (List Edge)},
      (∀ id, m.lookup id ≠ none → id ∈ ids) → (∀ id l, m.lookup id = some l → l ≠ []) →
      ∀ j l, (remapAdjacency o ids m).lookup j = some l → l ≠ [] := by
    intro o m hdom hm j l hl
    obtain ⟨id, v, hv, -, rfl⟩ := (lookup_rebuild_remapped hnodup hdom).1 hl
    simpa using hm id v hv
  refine ⟨?_, ?_, ?_, ?_, ?_, ?_⟩
  · exact pairwise_getD_remapAdjacency hids (out_dom ha hends) (out_ends hends) ha.outSorted
  · exact pairwise_getD_remapAdjacency hids (in_dom ha hends) (in_ends ha hends) ha.inSorted
  · intro i j k
    rw [mem_outOf_remapGraph ha hids hends, mem_inOf_remapGraph ha hids hends]
  · exact hstored (out_dom ha hends) ha.outStored
  · exact hstored (in_dom ha hends) ha.inStored
  · rw [remapGraph, total_remapAdjacency hnodup (out_dom ha hends)]
    exact ha.counted

theorem degree_remapGraph (hj : remap ids id = some j) :
    (remapGraph o₁ o₂ ids a).degree j = a.degree id := by
  rw [Adjacency.degree, outOf_remapGraph ha hids hends hj, inOf_remapGraph ha hids hends hj,
    List.length_map, List.length_map, Adjacency.degree]

theorem degree_remapGraph_of_gone (hj : ∀ id, remap ids id ≠ some j) :
    (remapGraph o₁ o₂ ids a).degree j = 0 := by
  have hnodup : ids.Nodup := hids.nodup
  rw [Adjacency.degree, Adjacency.outOf, Adjacency.inOf, remapGraph,
    getD_remapAdjacency_of_gone hnodup (out_dom ha hends) hj,
    getD_remapAdjacency_of_gone hnodup (in_dom ha hends) hj]
  rfl

end kept

end adjacency

/-! ## Renumbered edges -/

section edges

variable {t : Interner GoString}

/-- `e'` is `e` with both ends renumbered. -/
def RemapsTo (ids : List NodeID) (e e' : HalfEdge) : Prop :=
  remap ids e.src = some e'.src ∧ remap ids e.dst = some e'.dst ∧
    e.kind = e'.kind

def remapHalfEdge (ids : List NodeID) (e : HalfEdge) : HalfEdge :=
  ⟨remapped ids e.src, remapped ids e.dst, e.kind⟩

variable {e : HalfEdge}

theorem remapsTo_remapHalfEdge (hends : e.src ∈ ids ∧ e.dst ∈ ids) :
    RemapsTo ids e (remapHalfEdge ids e) :=
  ⟨remap_of_mem hends.1, remap_of_mem hends.2, rfl⟩

variable {e' : HalfEdge}

theorem RemapsTo.eq (h : RemapsTo ids e e') : e' = remapHalfEdge ids e := by
  rw [remapHalfEdge, remapped_of_remap h.1, remapped_of_remap h.2.1, h.2.2]

theorem RemapsTo.inj (hnodup : ids.Nodup) {f : HalfEdge} (he : RemapsTo ids e e')
    (hf : RemapsTo ids f e') : e = f := by
  have hsrc := remap_inj hnodup he.1 hf.1
  have hdst := remap_inj hnodup he.2.1 hf.2.1
  have hkind := he.2.2.trans hf.2.2.symm
  cases e
  cases f
  simp_all

/-- A node record with its namespace renumbered. -/
def remapInfo (ids : List NodeID) (info : NodeInfo) : NodeInfo :=
  { info with ns := if info.ns ≠ noNode then remapped ids info.ns else info.ns }

/-- The declared edges of one object, as the loop renumbers them. -/
def remapDeclared (ids : List NodeID) (es : List HalfEdge) : List HalfEdge :=
  es.filterMap fun e => (remap ids e.dst).map fun newTo =>
    ⟨remapped ids e.src, newTo, e.kind⟩

/-- When all ends are kept, no declared edge is dropped. -/
theorem remapDeclared_eq_map (hends : ∀ e ∈ es, e.src ∈ ids ∧ e.dst ∈ ids) :
    remapDeclared ids es = es.map (remapHalfEdge ids) := by
  rw [remapDeclared, ← List.filterMap_eq_map]
  refine List.filterMap_congr fun e he => ?_
  rw [(remapsTo_remapHalfEdge (hends e he)).2.1]
  rfl

theorem mem_remapDeclared (hends : ∀ e ∈ es, e.src ∈ ids ∧ e.dst ∈ ids) (e' : HalfEdge) :
    e' ∈ remapDeclared ids es ↔ ∃ e, e ∈ es ∧ RemapsTo ids e e' := by
  rw [remapDeclared_eq_map hends, List.mem_map]
  constructor
  · rintro ⟨e, he, rfl⟩
    exact ⟨e, he, remapsTo_remapHalfEdge (hends e he)⟩
  · rintro ⟨e, he, hmap⟩
    exact ⟨e, he, hmap.eq.symm⟩

variable (hnodup : ids.Nodup)
include hnodup

theorem nodup_remapDeclared (hes : es.Nodup) (hends : ∀ e ∈ es, e.src ∈ ids ∧ e.dst ∈ ids) :
    (remapDeclared ids es).Nodup := by
  rw [remapDeclared_eq_map hends]
  refine List.Nodup.map_on ?_ hes
  intro e he f hf heq
  refine (remapsTo_remapHalfEdge (hends e he)).inj hnodup ?_
  rw [heq]
  exact remapsTo_remapHalfEdge (hends f hf)

variable (hids : ∀ id ∈ ids, (t.keyOf? id).isSome)
include hids

theorem RemapsTo.names {k : KeyEdge} (h : RemapsTo ids e e') :
    e'.Names (t.renumber ids) k ↔ e.Names t k := by
  have hend : ∀ {x y : NodeID} {z : GoString}, remap ids x = some y →
      ((t.renumber ids).keyOf? y = some z ↔ t.keyOf? x = some z) := by
    intro x y z hxy
    rw [keyOf?_renumber hnodup hids]
    constructor
    · rintro ⟨x', hx', hz⟩
      rwa [← remap_inj hnodup hx' hxy]
    · exact fun hz => ⟨x, hxy, hz⟩
  unfold HalfEdge.Names
  rw [hend h.1, hend h.2.1, h.2.2]

/-- Renumbering a set of edges does not change what they name. -/
theorem named_renumber {P P' : HalfEdge → Prop}
    (hP : ∀ e', P' e' ↔ ∃ e, P e ∧ RemapsTo ids e e')
    (hends : ∀ e, P e → e.src ∈ ids ∧ e.dst ∈ ids) :
    named (t.renumber ids) P' = named t P := by
  ext k
  constructor
  · rintro ⟨e', he', hk⟩
    obtain ⟨e, he, hmap⟩ := (hP e').1 he'
    exact ⟨e, he, (hmap.names hnodup hids).1 hk⟩
  · rintro ⟨e, he, hk⟩
    have hmap := remapsTo_remapHalfEdge (hends e he)
    exact ⟨_, (hP _).2 ⟨e, he, hmap⟩, (hmap.names hnodup hids).2 hk⟩

end edges

end Build

variable [Platform]

/-- Everything the topology refers to is a node. -/
structure Topology.Rooted (T : Topology) : Prop where
  closed : T.Closed
  nsPresent : ∀ x n k, T.node x = some n → n.ns = some k → T.node k ≠ none
  declaredEdges : ∀ k, T.declared k ⊆ T.edges
  declared : ∀ k, T.declared k ≠ ∅ → T.node k ≠ none
  podLabels : ∀ ns k, T.podLabels ns k ≠ none → T.node k ≠ none
  selectors : ∀ ns k, T.selectors ns k ≠ none → T.node k ≠ none
  tracked : ∀ k, T.tracked k ≠ none → T.node k ≠ none

/-- Without dangling edges, a faithful topology is rooted in the live objects. -/
theorem Faithful.rooted {tracking : Bool} {W : World} {T : Topology} (h : Faithful tracking W T)
    (hclosed : T.Closed) : T.Rooted := by
  have hlive (k : GoString) (hk : W.get k ≠ none) : T.node k ≠ none := h.populated.present (.inl hk)
  have htable : ∀ {α : Type} {f : Object → Option α} {ns k}, W.table f ns k ≠ none →
      T.node k ≠ none := by
    intro α f ns k hk
    refine hlive k fun hnone => hk ?_
    rw [World.table, hnone]
    rfl
  refine ⟨hclosed, h.populated.nsPresent, ?_, ?_, ?_, ?_, ?_⟩
  · intro k e he
    rw [h.declared] at he
    rw [h.edges]
    exact ⟨k, he⟩
  · intro k hk
    rw [h.declared] at hk
    obtain ⟨e, o, ho, -⟩ := Set.nonempty_iff_ne_empty.2 hk
    exact hlive k (by simp [Option.mem_def.1 ho])
  · intro ns k hk
    rw [h.podLabels] at hk
    exact htable hk
  · intro ns k hk
    rw [h.selectors] at hk
    exact htable hk
  · intro k hk
    rw [h.tracked] at hk
    refine hlive k fun hnone => hk ?_
    simp [World.fingerprints, hnone]

namespace Build

variable {s : Build} {T : Topology}

/-! ## The compacted batch -/

section compact

variable (h : s.Refines T) (hr : T.Rooted)
include h

theorem Refines.mem_sortedKeys {k : GoString} (hk : s.intern.keyOf? id = some k) :
    id ∈ sortedKeys s.nodes ↔ T.node k ≠ none := by
  rw [Map.mem_sortedKeys, mem_nodes_iff hk, h.means]

theorem Refines.keyed_sortedKeys :
    ∀ id ∈ sortedKeys s.nodes, (s.intern.keyOf? id).isSome := by
  intro id hid
  rw [Map.mem_sortedKeys, mem_iff_ne_none] at hid
  exact h.wf.nodes id hid

include hr

/-- Both ends of every edge are kept. -/
theorem Refines.ends_kept : ∀ e ∈ s.toAdjacency,
    e.src ∈ sortedKeys s.nodes ∧ e.dst ∈ sortedKeys s.nodes := by
  intro e he
  obtain ⟨k, hk⟩ := h.wf.ends e he
  have hmem : k ∈ T.edges := by
    rw [← h.means]
    exact ⟨e, he, hk⟩
  rw [h.mem_sortedKeys hk.1, h.mem_sortedKeys hk.2.1]
  exact ⟨hr.closed _ ⟨k, hmem, .inl rfl⟩, hr.closed _ ⟨k, hmem, .inr rfl⟩⟩

/-- The declaring object and the ends of every declared edge are kept. -/
theorem Refines.declared_kept (hes : s.declared.lookup id = some es) :
    id ∈ sortedKeys s.nodes ∧ ∀ e ∈ es,
      e.src ∈ sortedKeys s.nodes ∧ e.dst ∈ sortedKeys s.nodes := by
  obtain ⟨hne, -, hvalid⟩ := h.wf.declaredEnds id es hes
  obtain ⟨k, hk⟩ := Option.isSome_iff_exists.1 (h.wf.declared id (by simp [hes]))
  have hdecl : ∀ {e ke}, e ∈ es → e.Names s.intern ke → ke ∈ T.declared k := by
    intro e ke he hnames
    rw [← h.means, view_declared hk, getD, hes]
    exact ⟨e, he, hnames⟩
  constructor
  · obtain ⟨e, he⟩ := List.exists_mem_of_ne_nil es hne
    obtain ⟨ke, hke⟩ := hvalid e he
    rw [h.mem_sortedKeys hk]
    refine hr.declared k fun hempty => ?_
    have := hdecl he hke
    rw [hempty] at this
    exact this
  · intro e he
    obtain ⟨ke, hke⟩ := hvalid e he
    have hmem := hr.declaredEdges k (hdecl he hke)
    rw [h.mem_sortedKeys hke.1, h.mem_sortedKeys hke.2.1]
    exact ⟨hr.closed _ ⟨ke, hmem, .inl rfl⟩, hr.closed _ ⟨ke, hmem, .inr rfl⟩⟩

/-- A node keeps its namespace. -/
theorem Refines.view_remapInfo {info : NodeInfo} (hid : s.nodes.lookup id = some info) :
    (remapInfo (sortedKeys s.nodes) info).view
        (s.intern.renumber (sortedKeys s.nodes)) = info.view s.intern ∧
      (remapInfo (sortedKeys s.nodes) info).Linked
        (s.intern.renumber (sortedKeys s.nodes)) := by
  have hnodup := nodup_sortedKeys s.nodes
  have hids := h.keyed_sortedKeys
  by_cases hns : info.ns = noNode
  · simp [remapInfo, hns, NodeInfo.view, NodeInfo.Linked, noNode, keyOf?, keyAt]
  · obtain ⟨ns, hnskey⟩ := Option.isSome_iff_exists.1
      ((h.wf.nsLinks id info hid).resolve_left hns)
    obtain ⟨k, hk⟩ := Option.isSome_iff_exists.1 (h.wf.nodes id (by simp [hid]))
    have hkept : info.ns ∈ sortedKeys s.nodes := by
      rw [h.mem_sortedKeys hnskey]
      refine hr.nsPresent k (info.view s.intern) ns ?_ hnskey
      rw [← h.means, view_node hk, hid]
      rfl
    have hkey := (keyOf?_renumber hnodup hids).2 ⟨info.ns, remap_of_mem hkept, hnskey⟩
    rw [remapInfo, if_pos hns]
    exact ⟨by simp [NodeInfo.view, hkey, hnskey], .inr (by simp [hkey])⟩

omit hr in
/-- A renumbered table covers and reads as before, if its entries belong to nodes. -/
theorem Refines.remapTable {α : Type} (o : Map.RangeOrder) {m : Map NodeID α}
    (hdom : ∀ k, s.intern.read m k ≠ none → T.node k ≠ none) :
    (s.intern.renumber (sortedKeys s.nodes)).Covers
        (remapTable o (sortedKeys s.nodes) m) ∧
      (s.intern.renumber (sortedKeys s.nodes)).read
        (remapTable o (sortedKeys s.nodes) m) = s.intern.read m := by
  have hnodup := nodup_sortedKeys s.nodes
  have hids := h.keyed_sortedKeys
  have hlookup := lookup_remapTable (o := o) (m := m) hnodup
  refine ⟨covers_renumber hnodup hids hlookup, ?_⟩
  rw [read_renumber hnodup hids hlookup]
  · funext k
    exact Option.map_id' ..
  · intro id k hm hk
    rw [h.mem_sortedKeys hk]
    refine hdom k ?_
    rwa [read_of_keyOf? hk]

omit h hr in
theorem compactBatch_nodes (s : Build) (loops : Nat → Map.RangeOrder) (j : NodeID)
    (info' : NodeInfo) :
    (s.compactBatch loops).nodes.lookup j = some info' ↔ ∃ id info,
      s.nodes.lookup id = some info ∧ remap (sortedKeys s.nodes) id = some j ∧
        info' = remapInfo (sortedKeys s.nodes) info := by
  refine lookup_rebuild_remapped (nodup_sortedKeys s.nodes) fun id hid => ?_
  rwa [Map.mem_sortedKeys, mem_iff_ne_none]

omit h hr in
theorem compactBatch_declared (s : Build) (loops : Nat → Map.RangeOrder) (j : NodeID)
    (es' : List HalfEdge) :
    (s.compactBatch loops).declared.lookup j = some es' ↔ ∃ id es,
      s.declared.lookup id = some es ∧ remap (sortedKeys s.nodes) id = some j ∧
        es' = remapDeclared (sortedKeys s.nodes) es :=
  lookup_rebuild_remap (nodup_sortedKeys s.nodes)

variable (loops : Nat → Map.RangeOrder)

theorem Refines.mem_compactBatch (e' : HalfEdge) :
    e' ∈ (s.compactBatch loops).toAdjacency ↔
      ∃ e, e ∈ s.toAdjacency ∧ RemapsTo (sortedKeys s.nodes) e e' := by
  refine (mem_outOf_remapGraph h.wf.adjacency (Map.pairwise_sortedKeys s.nodes)
    (h.ends_kept hr)).trans ?_
  constructor
  · rintro ⟨x, y, hx, hy, he⟩
    exact ⟨⟨x, y, e'.kind⟩, he, hx, hy, rfl⟩
  · rintro ⟨e, he, hx, hy, hk⟩
    exact ⟨e.src, e.dst, hx, hy, hk ▸ he⟩

theorem Refines.refcnt_compactBatch (j : NodeID) :
    getD (s.compactBatch loops).refcnt j 0 = (s.compactBatch loops).degree j := by
  have hnodup := nodup_sortedKeys s.nodes
  have hasc := Map.pairwise_sortedKeys s.nodes
  change getD (Build.remapTable (loops 4) (sortedKeys s.nodes) s.refcnt) j 0 =
    (remapGraph (loops 1) (loops 2) (sortedKeys s.nodes) s.toAdjacency).degree j
  by_cases hj : ∃ id, remap (sortedKeys s.nodes) id = some j
  · obtain ⟨id, hid⟩ := hj
    rw [degree_remapGraph h.wf.adjacency hasc (h.ends_kept hr) hid, ← h.wf.refcnt, getD,
      lookup_remapTable_of_remap hnodup hid, getD]
  · have hgone : ∀ id, remap (sortedKeys s.nodes) id ≠ some j :=
      fun id hid => hj ⟨id, hid⟩
    rw [degree_remapGraph_of_gone h.wf.adjacency hasc (h.ends_kept hr) hgone, getD,
      lookup_remapTable_of_gone hnodup hgone]
    rfl

/-- Compaction keeps the meaning of a batch in which nothing dangles. -/
theorem Refines.compactBatch : (s.compactBatch loops).Refines T := by
  have hw := h.wf
  have hnodup := nodup_sortedKeys s.nodes
  have hids := h.keyed_sortedKeys
  have hnodes := compactBatch_nodes s loops
  have hdecl := compactBatch_declared s loops
  have hmem := h.mem_compactBatch hr loops
  have hlab := fun ns => h.remapTable (loops 5) fun k hk =>
    hr.podLabels ns k (by rw [← h.means]; exact hk)
  have hsel := fun ns => h.remapTable (loops 6) fun k hk =>
    hr.selectors ns k (by rw [← h.means]; exact hk)
  have htr := h.remapTable (loops 7) fun k hk =>
    hr.tracked k (by rw [← h.means]; exact hk)
  have hlabels : ∀ ns, getD (s.compactBatch loops).podLabels ns ∅ =
      Build.remapTable (loops 5) (sortedKeys s.nodes) (getD s.podLabels ns ∅) :=
    fun ns => getD_mapVals_remapTable s.podLabels ns
  have hselectors : ∀ ns, getD (s.compactBatch loops).selectors ns ∅ =
      Build.remapTable (loops 6) (sortedKeys s.nodes) (getD s.selectors ns ∅) :=
    fun ns => getD_mapVals_remapTable s.selectors ns
  refine ⟨⟨?_, h.refcnt_compactBatch hr loops, ?_, ?_, ?_, ?_, ?_, ?_, ?_, htr.1⟩, ?_⟩
  · exact remapGraph_wf hw.adjacency (Map.pairwise_sortedKeys s.nodes) (h.ends_kept hr)
  · intro e' he'
    obtain ⟨e, he, hmap⟩ := (hmem e').1 he'
    obtain ⟨k, hk⟩ := hw.ends e he
    exact ⟨k, (hmap.names hnodup hids).2 hk⟩
  · exact covers_renumber hnodup hids hnodes
  · intro j info' hj
    obtain ⟨id, info, hid, -, rfl⟩ := (hnodes j info').1 hj
    exact (h.view_remapInfo hr hid).2
  · exact covers_renumber hnodup hids hdecl
  · intro j es' hj
    obtain ⟨id, es, hid, -, rfl⟩ := (hdecl j es').1 hj
    obtain ⟨hne, hes, hvalid⟩ := hw.declaredEnds id es hid
    have hkept := (h.declared_kept hr hid).2
    refine ⟨?_, nodup_remapDeclared hnodup hes hkept, ?_⟩
    · rw [remapDeclared_eq_map hkept]
      simpa using hne
    · intro e' he'
      obtain ⟨e, he, hmap⟩ := (mem_remapDeclared hkept e').1 he'
      obtain ⟨k, hk⟩ := hvalid e he
      exact ⟨k, (hmap.names hnodup hids).2 hk⟩
  · intro ns
    rw [hlabels]
    exact (hlab ns).1
  · intro ns
    rw [hselectors]
    exact (hsel ns).1
  · rw [← h.means]
    ext1
    · funext k
      have hread := read_renumber hnodup hids hnodes fun id _ hid _ => by
        rwa [Map.mem_sortedKeys, mem_iff_ne_none]
      change Option.map _ ((s.intern.renumber _).read (s.compactBatch loops).nodes k) =
        Option.map _ (s.intern.read s.nodes k)
      simp only [hread]
      cases hk : s.intern.read s.nodes k with
      | none => rfl
      | some info =>
        obtain ⟨id, -, hid⟩ := read_eq_some.1 hk
        exact congrArg some (h.view_remapInfo hr hid).1
    · exact named_renumber hnodup hids hmem (h.ends_kept hr)
    · funext k
      have hread := read_renumber hnodup hids hdecl fun id _ hid _ => by
        obtain ⟨es, hes⟩ := Option.ne_none_iff_exists'.1 hid
        exact (h.declared_kept hr hes).1
      change named (s.intern.renumber _) (fun e => ∃ es, (s.intern.renumber _).read
        (s.compactBatch loops).declared k = some es ∧ e ∈ es) = _
      simp only [hread]
      change _ = named s.intern (fun e => ∃ es, s.intern.read s.declared k = some es ∧ e ∈ es)
      cases hk : s.intern.read s.declared k with
      | none => simp
      | some es =>
        obtain ⟨id, -, hid⟩ := read_eq_some.1 hk
        have hkept := (h.declared_kept hr hid).2
        simpa using named_renumber hnodup hids (mem_remapDeclared hkept) hkept
    · funext ns
      exact (congrArg _ (hlabels ns)).trans (hlab ns).2
    · funext ns
      exact (congrArg _ (hselectors ns)).trans (hsel ns).2
    · exact htr.2

end compact

end Build

end Lookout
