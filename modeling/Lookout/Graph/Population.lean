-- SUMMARY: Which nodes the graph has: live objects and referenced derived nodes are observed, and safe deltas leave no dangling edge.
import Lookout.Graph.World

/-!
# The nodes of the graph

`Populated B` says that the observed nodes are those in `B`, up to Namespaces, and
that keys, kinds and namespace links of nodes fit together. Maintenance keeps it
with `B` as the live objects and the derived nodes that an edge touches.

The ends of edges are a different matter. A delta first removes the edges that its
object no longer asks for, and collects their ends. An end that only a new edge of
the same object needs is collected with them, and the new edge then leads nowhere.
`World.Safe` excludes such deltas, in terms of the live objects only.
-/

namespace Lookout

variable [Platform]

variable {B : Set GoString} {T T' : Topology} {key x : GoString} {kind : NodeKind} {o : Object}
  {W : World} {e : KeyEdge} {d : Delta}

namespace Topology

/-! ## Populated topologies -/

/-- The nodes fit their keys, and apart from Namespaces those in `B` are observed. -/
structure Populated (B : Set GoString) (T : Topology) : Prop where
  keyed : ∀ x n, T.node x = some n → ∃ ns name, x = nodeKey n.kind ns name ∧ n.ns = nsKey ns
  nsPresent : ∀ x n k, T.node x = some n → n.ns = some k → T.node k ≠ none
  backed : ∀ x ∈ B, ∃ n, T.node x = some n ∧ n.observed = true
  observed : ∀ x n, T.node x = some n → n.observed = true → n.kind = .namespace_ ∨ x ∈ B

variable {n : NodeView}

theorem Populated.hasKind (h : T.Populated B) (hn : T.node x = some n) : HasKind x n.kind := by
  obtain ⟨ns, name, hx, -⟩ := h.keyed x n hn
  exact ⟨ns, name, hx⟩

theorem Populated.present (h : T.Populated B) (hx : x ∈ B) : T.node x ≠ none := by
  obtain ⟨n, hn, -⟩ := h.backed x hx
  rw [hn]
  exact Option.some_ne_none n

/-- What is in `B` and is no derived node is never collected. -/
theorem Populated.not_collectableAt (h : T.Populated B) (hx : x ∈ B) (hkind : HasKind x kind)
    (hnot : ¬ kind.Derived) : ¬ T.CollectableAt x := by
  obtain ⟨n, hn, hobs⟩ := h.backed x hx
  have hbacked : T.Backed x kind := ⟨n, hn, hobs, (h.hasKind hn).unique hkind⟩
  exact hbacked.not_collectableAt hnot

theorem Populated.onlyFacts (h : T.Populated B) (hnode : T'.node = T.node) : T'.Populated B := by
  obtain ⟨h1, h2, h3, h4⟩ := h
  exact ⟨by rwa [hnode], by rwa [hnode], by rwa [hnode], by rwa [hnode]⟩

theorem populated_empty : empty.Populated ∅ :=
  ⟨by simp [empty], by simp [empty], by simp, by simp [empty]⟩

/-! ## Creating nodes -/

theorem ensure_present (T : Topology) (kind : NodeKind) (key : GoString) (ns : Option GoString) :
    (T.ensure kind key ns).node key ≠ none := by
  unfold ensure
  cases h : T.node key with
  | some n => simp [h]
  | none => simp

/-- `T'` has every node of `T`. -/
def Extends (T T' : Topology) : Prop := ∀ x, T.node x ≠ none → T'.node x ≠ none

theorem Extends.trans {T'' : Topology} (h : T.Extends T') (h' : T'.Extends T'') : T.Extends T'' :=
  fun x hx => h' x (h x hx)

theorem extends_setNode (T : Topology) (key : GoString) (n : NodeView) :
    T.Extends (T.setNode key (some n)) := by
  intro x hx
  by_cases hk : x = key
  · simp [hk]
  · rwa [setNode_node_of_ne hk]

theorem extends_addNode (T : Topology) (kind : NodeKind) (ns name : GoString) :
    T.Extends (T.addNode kind ns name) := by
  intro x hx
  obtain ⟨n, hn⟩ := Option.ne_none_iff_exists'.1 hx
  rw [addNode_node_of_some hn]
  exact Option.some_ne_none n

theorem addNode_present (T : Topology) (kind : NodeKind) (ns name : GoString) :
    (T.addNode kind ns name).node (nodeKey kind ns name) ≠ none :=
  ensure_present _ _ _ _

theorem of_setNode {m : NodeView} (h : (T.setNode key (some n)).node x = some m) :
    x = key ∧ n = m ∨ x ≠ key ∧ T.node x = some m := by
  by_cases hx : x = key
  · rw [hx, setNode_node_self] at h
    exact Or.inl ⟨hx, Option.some.inj h⟩
  · rw [setNode_node_of_ne hx] at h
    exact Or.inr ⟨hx, h⟩

/-- Writing a node that fits its key. Only its own place in `B` can change. -/
theorem Populated.setNode (h : T.Populated B) {B' : Set GoString}
    (hkeyed : ∃ ns name, key = nodeKey n.kind ns name ∧ n.ns = nsKey ns)
    (hns : ∀ k, n.ns = some k → T.node k ≠ none) (hother : ∀ x, x ≠ key → (x ∈ B' ↔ x ∈ B))
    (hself : key ∈ B' → n.observed = true)
    (hobs : n.observed = true → n.kind = .namespace_ ∨ key ∈ B') :
    (T.setNode key (some n)).Populated B' := by
  refine ⟨?_, ?_, ?_, ?_⟩
  · intro x m hm
    rcases of_setNode hm with ⟨rfl, rfl⟩ | ⟨-, hm⟩
    · exact hkeyed
    · exact h.keyed x m hm
  · intro x m k hm hk
    refine extends_setNode T _ _ k ?_
    rcases of_setNode hm with ⟨rfl, rfl⟩ | ⟨-, hm⟩
    · exact hns k hk
    · exact h.nsPresent x m k hm hk
  · intro x hx
    by_cases hxk : x = key
    · subst hxk
      exact ⟨n, setNode_node_self .., hself hx⟩
    · rw [setNode_node_of_ne hxk]
      exact h.backed x ((hother x hxk).1 hx)
  · intro x m hm hmobs
    rcases of_setNode hm with ⟨rfl, rfl⟩ | ⟨hx, hm⟩
    · exact hobs hmobs
    · exact (h.observed x m hm hmobs).imp_right (hother x hx).2

/-- Creating a node that fits its key. -/
theorem Populated.ensure (h : T.Populated B) (kind : NodeKind) (ns name : GoString)
    (hns : ∀ k, nsKey ns = some k → T.node k ≠ none) :
    (T.ensure kind (nodeKey kind ns name) (nsKey ns)).Populated B := by
  unfold Topology.ensure
  cases hkey : T.node (nodeKey kind ns name) with
  | some n => exact h
  | none =>
    exact h.setNode ⟨ns, name, rfl, rfl⟩ hns (fun _ _ => Iff.rfl)
      (fun hmem => absurd hkey (h.present hmem)) fun hobs => .inl (of_decide_eq_true hobs)

omit [Platform] in
theorem eq_of_nsKey {ns k : GoString} (h : nsKey ns = some k) : k = nodeKey .namespace_ [] ns := by
  unfold nsKey at h
  split at h
  · cases h
  · exact (Option.some.inj h).symm

theorem Populated.addNode (h : T.Populated B) (kind : NodeKind) (ns name : GoString) :
    (T.addNode kind ns name).Populated B := by
  unfold Topology.addNode
  cases hns : nsKey ns with
  | none =>
    have := h.ensure kind ns name (by simp [hns])
    rwa [hns] at this
  | some k =>
    obtain rfl := eq_of_nsKey hns
    have hfirst := h.ensure .namespace_ [] ns (by simp [nsKey])
    have hsecond := hfirst.ensure kind ns name (by
      intro k hk
      rw [hns] at hk
      cases hk
      exact ensure_present _ _ _ _)
    rwa [hns] at hsecond

/-- Observing a node that fits its key. -/
theorem Populated.observe (h : T.Populated B) (hkind : HasKind key kind)
    (hpresent : T.node key ≠ none) : (T.observe key kind).Populated (insert key B) := by
  obtain ⟨old, hold⟩ := Option.ne_none_iff_exists'.1 hpresent
  have hsame := (h.hasKind hold).unique hkind
  obtain ⟨ns, name, hkey, hns⟩ := h.keyed key old hold
  unfold Topology.observe
  rw [hold, Option.getD_some]
  refine h.setNode ⟨ns, name, hsame ▸ hkey, hns⟩ (fun k => h.nsPresent key old k hold) ?_
    (fun _ => rfl) fun _ => .inr (Set.mem_insert _ _)
  intro x hx
  exact ⟨fun hmem => hmem.resolve_left hx, .inr⟩

/-- The derived nodes that a list of links leads to. -/
def derivedKeys (links : List Link) : Set GoString := {x | ∃ l ∈ links, l.derived = true ∧ x = l.key}

theorem extends_link (T : Topology) (l : Link) : T.Extends (T.link l) := by
  unfold link
  split
  · exact (extends_addNode _ _ _ _).trans (extends_setNode _ _ _)
  · exact extends_addNode _ _ _ _

theorem link_present (T : Topology) (l : Link) : (T.link l).node l.key ≠ none := by
  have hadd := addNode_present T l.kind l.ns.text l.name
  unfold link
  split
  · exact extends_setNode _ _ _ _ hadd
  · exact hadd

theorem Populated.link (h : T.Populated B) (l : Link) :
    (T.link l).Populated (B ∪ derivedKeys [l]) := by
  have hadd := h.addNode l.kind l.ns.text l.name
  unfold Topology.link
  split
  · next hder =>
    have hset : B ∪ derivedKeys [l] = insert l.key B := by
      ext x
      simp [derivedKeys, hder]
    rw [hset]
    exact hadd.observe (hasKind_nodeKey ..) (addNode_present _ _ _ _)
  · next hder =>
    have hset : B ∪ derivedKeys [l] = B := by
      ext x
      simp [derivedKeys, hder]
    rwa [hset]

/-- Following the links of an object makes all their ends nodes. -/
theorem Populated.declare (h : T.Populated B) (hkind : HasKind key kind)
    (hpresent : T.node key ≠ none) (links : List Link) :
    (T.declare key kind links).Populated (insert key B ∪ derivedKeys links) ∧
      T.Extends (T.declare key kind links) ∧
      ∀ l ∈ links, (T.declare key kind links).node l.key ≠ none := by
  unfold Topology.declare
  induction links using List.reverseRecOn with
  | nil =>
    have hset : insert key B ∪ derivedKeys [] = insert key B := by simp [derivedKeys]
    rw [hset]
    exact ⟨h.observe hkind hpresent, extends_setNode _ _ _, by simp⟩
  | append_singleton links l ih =>
    obtain ⟨hpop, hext, hends⟩ := ih
    rw [List.foldl_append]
    have hset : insert key B ∪ derivedKeys (links ++ [l]) =
        (insert key B ∪ derivedKeys links) ∪ derivedKeys [l] := by
      ext x
      simp [derivedKeys, or_assoc]
    rw [hset]
    refine ⟨hpop.link l, hext.trans (extends_link _ l), ?_⟩
    intro l' hl'
    rcases List.mem_append.1 hl' with hl' | hl'
    · exact extends_link _ l _ (hends l' hl')
    · rw [List.mem_singleton.1 hl']
      exact link_present _ l

/-! ## Collecting nodes -/

/-- The nodes that removing the edges `S` collects. -/
def collected (T : Topology) (S : Set KeyEdge) : Set GoString :=
  {x | Touched (T.edges ∩ S) x ∧ ¬ Touched (T.edges \ S) x ∧ T.CollectableAt x}

theorem dropEdges_node_of_not_mem {S : Set KeyEdge} (hx : x ∉ T.collected S) :
    (T.dropEdges S).node x = T.node x :=
  dropNodes_node_of_not_mem hx

theorem Populated.dropNodes (h : T.Populated B) {S : Set GoString}
    (hS : ∀ x ∈ S, T.CollectableAt x) : (T.dropNodes S).Populated (B \ S) := by
  have hsome : ∀ {x n}, (T.dropNodes S).node x = some n → x ∉ S ∧ T.node x = some n := by
    intro x n hn
    by_cases hx : x ∈ S
    · rw [dropNodes_node_of_mem hx] at hn
      cases hn
    · rw [dropNodes_node_of_not_mem hx] at hn
      exact ⟨hx, hn⟩
  refine ⟨?_, ?_, ?_, ?_⟩
  · intro x n hn
    exact h.keyed x n (hsome hn).2
  · intro x n k hn hk
    obtain ⟨ns, name, -, hns⟩ := h.keyed x n (hsome hn).2
    have hpresent := h.nsPresent x n k (hsome hn).2 hk
    rw [dropNodes_node_of_not_mem]
    · exact hpresent
    · -- A Namespace node is never collectable.
      intro hkS
      obtain ⟨n', hn', hkind, -⟩ := hS k hkS
      obtain rfl := eq_of_nsKey (hns ▸ hk)
      exact hkind ((h.hasKind hn').unique (hasKind_nodeKey ..))
  · rintro x ⟨hx, hxS⟩
    rw [dropNodes_node_of_not_mem hxS]
    exact h.backed x hx
  · intro x n hn hobs
    obtain ⟨hxS, hn⟩ := hsome hn
    exact (h.observed x n hn hobs).imp_right fun hx => ⟨hx, hxS⟩

theorem Populated.dropEdges (h : T.Populated B) (S : Set KeyEdge) :
    (T.dropEdges S).Populated (B \ T.collected S) := by
  have hedges : (T.withEdges (T.edges \ S)).Populated B := h.onlyFacts rfl
  exact hedges.dropNodes fun _ hx => hx.2.2

/-- Everything up to the re-evaluation of the selectors. -/
noncomputable def relinked (T : Topology) (ns key : GoString) (o : Option Object) : Topology :=
  ((T.setSelector ns key (o.bind Object.entry)).setDeclared key (T.wanted ns key o)).setLabels ns key
    (o.bind Object.podLabels)

/-- The edges that reconciling removes first. -/
def dropped (T : Topology) (ns key : GoString) (o : Option Object) : Set KeyEdge :=
  T.declared key \ T.wanted ns key o

theorem Populated.relinked (h : T.Populated B) (ns key : GoString) (o : Option Object) :
    (T.relinked ns key o).Populated (B \ T.collected (T.dropped ns key o)) :=
  (h.dropEdges (T.dropped ns key o)).onlyFacts rfl

theorem Populated.reselect (h : T.Populated B) (ns pod : GoString) (want : SelEntry → Bool) :
    (T.reselect ns pod want).Populated
      (B \ (T.addEdges (T.missingEdges ns pod want Set.univ)).collected
        (T.staleEdges ns pod want Set.univ)) := by
  have hadd : (T.addEdges (T.missingEdges ns pod want Set.univ)).Populated B := h.onlyFacts rfl
  exact (hadd.dropEdges _).onlyFacts rfl

end Topology

/-! ## The live objects as a population -/

/-- The identity of a derived node. -/
def DerivedKey (x : GoString) : Prop := ∃ k : NodeKind, k.Derived ∧ HasKind x k

theorem DerivedKey.not_object (h : DerivedKey x) : o.key ≠ x := by
  rintro rfl
  obtain ⟨k, hk, hx⟩ := h
  exact o.kind_not_derived ((hasKind_nodeKey ..).unique hx ▸ hk)

omit [Platform] in
theorem DerivedKey.not_pod (h : DerivedKey x) : ¬ HasKind x .pod := by
  obtain ⟨k, hk, hx⟩ := h
  intro hp
  rw [hx.unique hp] at hk
  exact absurd hk (by decide)

namespace World

/-- The nodes that are observed, apart from Namespaces: live objects, and derived
    nodes that an edge touches. -/
def backed (W : World) : Set GoString :=
  {x | W.get x ≠ none} ∪ {x | DerivedKey x ∧ Touched W.edges x}

/-- An object has one edge at most to a derived node, and follows a link to it. -/
theorem derived_edge (he : e ∈ W.declared key) (hx : DerivedKey x) (htouch : e.Touches x) :
    (∃ k : NodeKind, HasKind x k ∧ e = ⟨key, x, k.derivedEdge⟩) ∧
      ∃ o, W.get key = some o ∧ x ∈ Topology.derivedKeys o.links := by
  obtain ⟨o, ho, he⟩ := he
  have hkey := W.keyed key o ho
  rcases he with ⟨l, hl, rfl⟩ | ⟨ent, -, pod, _, hlabels, -, rfl⟩
  · have hproper := Object.links_proper hl
    have hlx : l.key = x := by
      unfold Link.edgeAt at htouch
      split at htouch
      · exact htouch.resolve_right hx.not_object
      · exact htouch.resolve_left hx.not_object
    obtain ⟨k, hk, hkind⟩ := hx
    have hlk : l.kind = k := (hlx ▸ hasKind_nodeKey .. : HasKind x l.kind).unique hkind
    obtain ⟨hin, hedge⟩ := hproper.derivedEdge (hlk ▸ hk)
    refine ⟨⟨k, hkind, ?_⟩, o, ho, l, hl, hproper.derived.2 (hlk ▸ hk), hlx.symm⟩
    rw [← hlk, ← hedge, ← hkey, ← hlx]
    simp [Link.edgeAt, hin]
  · exfalso
    rcases htouch with rfl | rfl
    · exact hx.not_object rfl
    · cases (labels_eq_none hx.not_pod).symm.trans hlabels

/-- The edge of a link to a derived node touches it. -/
theorem touches_derived (self : GoString) (hx : x ∈ Topology.derivedKeys o.links) :
    DerivedKey x ∧ ∃ e ∈ linkEdges self o.links, e.Touches x := by
  obtain ⟨l, hl, hder, rfl⟩ := hx
  have hkind := (Object.links_proper hl).derived.1 hder
  refine ⟨⟨l.kind, hkind, hasKind_nodeKey ..⟩, l.edgeAt self, ⟨l, hl, rfl⟩, ?_⟩
  unfold Link.edgeAt
  split
  · exact .inl rfl
  · exact .inr rfl

end World

section reconcile

variable {ns name : GoString} {o : Option Object}

theorem Agrees.dropped (h : Agrees W T) (hns : slash ∉ ns) (hkey : key = nodeKey kind ns name)
    (ho : ∀ x ∈ o, x.key = key) :
    T.dropped ns key o = W.declared key \ (W.set key o ho).declared key := by
  rw [Topology.dropped, World.wanted_eq h.podLabels hns hkey ho, h.declared]

/-- A re-evaluated edge ends at `key` and starts at a live object. -/
theorem Agrees.relinked_ends (h : Agrees W T) (hns : slash ∉ ns) (hkey : key = nodeKey kind ns name)
    (ho : ∀ x ∈ o, x.key = key) {ent : SelEntry} {src : GoString}
    (hent : (T.relinked ns key o).selectors ns src = some ent) (he : e = ⟨src, key, ent.kind⟩)
    (htouch : e.Touches x) : x = key ∨ (W.set key o ho).get x ≠ none := by
  subst he
  rcases htouch with rfl | rfl
  · change (T.setSelector ns key (o.bind Object.entry)).selectors ns _ = some ent at hent
    rw [h.setSelector hns hkey ho] at hent
    obtain ⟨y, hy, -⟩ := World.entry_of_selectors hent
    exact .inr (by simp [hy])
  · exact .inl rfl

theorem World.not_derived (h : W.get x ≠ none) : ¬ DerivedKey x := by
  obtain ⟨y, hy⟩ := Option.ne_none_iff_exists'.1 h
  exact fun hx => hx.not_object (W.keyed x y hy)

/-- Near a derived node, edges only change at the reconciled object. -/
theorem Agrees.mem_edges_derived (h : Agrees W T) (hns : slash ∉ ns)
    (hkey : key = nodeKey kind ns name) (hkind : ¬ kind.Derived) (ho : ∀ x ∈ o, x.key = key)
    (hx : DerivedKey x) (htouch : e.Touches x) :
    e ∈ (W.set key o ho).edges ↔
      (e ∈ W.edges ∧ e ∉ T.dropped ns key o) ∨
        e ∈ (W.set key o ho).declared key \ W.declared key := by
  have hxkey : x ≠ key := by
    rintro rfl
    obtain ⟨k, hk, hxk⟩ := hx
    exact hkind ((hkey ▸ hasKind_nodeKey kind ns name : HasKind x kind).unique hxk ▸ hk)
  rw [← (h.reconcile hns hkey ho).edges, ← World.wanted_eq h.podLabels hns hkey ho, ← h.declared,
    ← h.edges]
  constructor
  · rintro ⟨h1 | ⟨src, -, ent, hent, -, rfl, -⟩, -⟩
    · exact h1
    · rcases h.relinked_ends hns hkey ho hent rfl htouch with hx' | hx'
      · exact absurd hx' hxkey
      · exact absurd hx (World.not_derived hx')
  · intro h1
    refine And.intro (.inl h1) ?_
    rintro ⟨src, -, ent, hent, -, rfl, -⟩
    rcases h.relinked_ends hns hkey ho hent rfl htouch with hx' | hx'
    · exact hxkey hx'
    · exact World.not_derived hx' hx

/-- What holds of `B` before reconciling: it covers the live objects and the derived nodes
    that the object at `key` links to. -/
def Covered (W : World) (key : GoString) (o : Option Object) (B : Set GoString) : Prop :=
  ∀ x, x ≠ key → (x ∈ B ↔ x ∈ W.backed ∨ ∃ p ∈ o, x ∈ Topology.derivedKeys p.links)

theorem Topology.Populated.collectableAt (hpop : T.Populated B) (hx : x ∈ B) (hder : DerivedKey x) :
    T.CollectableAt x := by
  obtain ⟨n, hn, -⟩ := hpop.backed x hx
  obtain ⟨k, hk, hxk⟩ := hder
  have hkind := (hpop.hasKind hn).unique hxk
  refine ⟨n, hn, ?_, .inr (hkind ▸ hk)⟩
  rw [hkind]
  rintro rfl
  exact absurd hk (by decide)

theorem Topology.Populated.not_collectableAt_live (hpop : T.Populated B) (hx : x ∈ B)
    (hlive : W.get x ≠ none) : ¬ T.CollectableAt x := by
  obtain ⟨y, hy⟩ := Option.ne_none_iff_exists'.1 hlive
  exact hpop.not_collectableAt hx (World.keyed_hasKind hy) y.kind_not_derived

section

variable (h : Agrees W T) (hpop : T.Populated B) (hns : slash ∉ ns)
  (hkey : key = nodeKey kind ns name) (hkind : ¬ kind.Derived) (ho : ∀ x ∈ o, x.key = key)
  (hB : Covered W key o B)

include h hpop hns hkey hkind ho hB

/-- Of the covered nodes, removal leaves exactly those that the new world backs. -/
theorem Agrees.backed_set (hx : x ≠ key) :
    x ∈ B \ T.collected (T.dropped ns key o) ↔ x ∈ (W.set key o ho).backed := by
  have hedges : T.edges = W.edges := h.edges
  have hdrop := h.dropped hns hkey ho
  have hmem := fun e => h.mem_edges_derived (e := e) (x := x) hns hkey hkind ho
  constructor
  · rintro ⟨hxB, hkept⟩
    rcases (hB x hx).1 hxB with (hlive | ⟨hder, e, he, htouch⟩) | ⟨p, hp, hlink⟩
    · exact .inl (by rwa [Set.mem_ofPred_eq, W.get_set_of_ne hx])
    · refine .inr ⟨hder, ?_⟩
      by_cases hrest : Touched (T.edges \ T.dropped ns key o) x
      · obtain ⟨f, ⟨hf, hfd⟩, hftouch⟩ := hrest
        exact ⟨f, (hmem f hder hftouch).2 (.inl ⟨hedges ▸ hf, hfd⟩), hftouch⟩
      · -- Every edge at `x` is removed, so `x` would be collected.
        have hed : e ∈ T.dropped ns key o := by
          by_contra hed
          exact hrest ⟨e, ⟨hedges ▸ he, hed⟩, htouch⟩
        exact absurd ⟨⟨e, ⟨hedges ▸ he, hed⟩, htouch⟩, hrest, hpop.collectableAt hxB hder⟩ hkept
    · obtain ⟨hder, e, he, htouch⟩ := World.touches_derived key hlink
      refine .inr ⟨hder, e, ⟨key, p, by simpa using hp, .inl ?_⟩, htouch⟩
      rwa [ho p hp]
  · rintro (hlive | ⟨hder, e, he, htouch⟩)
    · rw [Set.mem_ofPred_eq, W.get_set_of_ne hx] at hlive
      have hxB : x ∈ B := (hB x hx).2 (.inl (.inl hlive))
      exact ⟨hxB, fun hcoll => hpop.not_collectableAt_live hxB hlive hcoll.2.2⟩
    · rcases (hmem e hder htouch).1 he with ⟨heW, hed⟩ | ⟨hnew, hold⟩
      · refine ⟨(hB x hx).2 (.inl (.inr ⟨hder, e, heW, htouch⟩)), ?_⟩
        exact fun hcoll => hcoll.2.1 ⟨e, ⟨hedges ▸ heW, hed⟩, htouch⟩
      · obtain ⟨⟨k, hk, hek⟩, p, hp, hlink⟩ := World.derived_edge hnew hder htouch
        rw [World.get_set_self] at hp
        refine ⟨(hB x hx).2 (.inr ⟨p, hp, hlink⟩), ?_⟩
        -- A removed edge at `x` would be the new edge itself.
        rintro ⟨⟨f, ⟨-, hf⟩, hftouch⟩, -⟩
        rw [hdrop] at hf
        obtain ⟨⟨k', hk', hfk⟩, -⟩ := World.derived_edge hf.1 hder hftouch
        rw [hfk, hk'.unique hk, ← hek] at hf
        exact hold hf.1

/-- The re-evaluation of the selectors collects nothing but perhaps `key`. -/
theorem Agrees.collected_reselect (want : SelEntry → Bool) {E : Set KeyEdge}
    (hx : x ∈ ((T.relinked ns key o).addEdges E).collected
      ((T.relinked ns key o).staleEdges ns key want Set.univ)) : x = key := by
  obtain ⟨⟨e, ⟨-, src, -, ent, hent, -, he, -⟩, htouch⟩, -, hcoll⟩ := hx
  by_contra hne
  have hlive := (h.relinked_ends hns hkey ho hent he htouch).resolve_left hne
  have hback := (h.backed_set hpop hns hkey hkind ho hB hne).2 (.inl hlive)
  exact (hpop.relinked ns key o).not_collectableAt_live hback hlive hcoll

end

/-- Reconciling a live object backs exactly what the new world backs. -/
theorem Agrees.populated_some (h : Agrees W T) (hpop : T.Populated B) {p : Object}
    (hB : Covered W p.key (some p) B) (hp : p.key ∈ B) :
    (T.reconcile p.metadata.ns.text p.key (some p)).Populated
      (W.set p.key (some p) (by simp)).backed := by
  have hkey : p.key = nodeKey p.kind p.metadata.ns.text p.metadata.name := rfl
  have hns := p.metadata.ns.noSlash
  have hself : ∀ {T' : Topology} {B' : Set GoString}, T'.Populated B' → p.key ∈ B' →
      ¬ T'.CollectableAt p.key :=
    fun hpop' hmem => hpop'.not_collectableAt hmem (hasKind_nodeKey ..) p.kind_not_derived
  have hrel := hpop.relinked p.metadata.ns.text p.key (some p)
  have hmem : p.key ∈ B \ T.collected (T.dropped p.metadata.ns.text p.key (some p)) :=
    ⟨hp, fun hcoll => hself hpop hp hcoll.2.2⟩
  have hres := hrel.reselect p.metadata.ns.text p.key fun ent =>
    p.podLabels.any (Platform.matchesLabels ent.sel)
  change (T.reconcile p.metadata.ns.text p.key (some p)).Populated _ at hres
  convert hres using 1
  ext x
  by_cases hx : x = p.key
  · subst hx
    refine iff_of_true (.inl (by simp)) ⟨hmem, fun hcoll => ?_⟩
    exact hself hrel hmem hcoll.2.2
  · rw [← h.backed_set hpop hns hkey p.kind_not_derived (by simp) hB hx]
    refine ⟨fun hxB => ⟨hxB, fun hcoll => hx ?_⟩, fun hxB => hxB.1⟩
    exact h.collected_reselect hpop hns hkey p.kind_not_derived (by simp) hB _ hcoll

theorem Topology.Populated.markDeleted (h : T.Populated B) (key : GoString) :
    (T.markDeleted key).Populated (B \ {key}) := by
  unfold Topology.markDeleted
  cases hkey : T.node key with
  | none =>
    have hnot : key ∉ B := fun hmem => h.present hmem hkey
    simpa only [Set.sdiff_singleton_eq_self hnot] using h
  | some n =>
    obtain ⟨ns, name, hk, hns⟩ := h.keyed key n hkey
    have hset : (T.setNode key (some { n with observed := false })).Populated (B \ {key}) := by
      refine h.setNode ⟨ns, name, hk, hns⟩ (fun k => h.nsPresent key n k hkey) ?_ ?_ ?_
      · intro x hx
        simp [hx]
      · simp
      · simp
    have hcoll := hset.dropNodes (S := {x | x = key ∧ ¬ Touched T.edges x ∧
      (T.setNode key (some { n with observed := false })).CollectableAt x}) fun x hx => hx.2.2
    rw [sdiff_eq_left.2] at hcoll
    · exact hcoll
    · rw [Set.disjoint_left]
      rintro x ⟨-, hx⟩ ⟨hx', -⟩
      exact hx hx'

/-- Reconciling with nothing alive, and marking the node. -/
theorem Agrees.populated_none (h : Agrees W T) (hpop : T.Populated B) (p : Object)
    (hB : Covered W p.key none B) :
    ((T.reconcile p.metadata.ns.text p.key none).markDeleted p.key).Populated
      (W.set p.key none (by simp)).backed := by
  have hkey : p.key = nodeKey p.kind p.metadata.ns.text p.metadata.name := rfl
  have hns := p.metadata.ns.noSlash
  have hres := (hpop.relinked p.metadata.ns.text p.key none).reselect p.metadata.ns.text p.key
    fun _ => false
  change (T.reconcile p.metadata.ns.text p.key none).Populated _ at hres
  convert hres.markDeleted p.key using 1
  ext x
  by_cases hx : x = p.key
  · subst hx
    refine iff_of_false ?_ (by simp)
    rintro (hlive | ⟨hder, -⟩)
    · exact hlive (W.get_set_self ..)
    · exact hder.not_object rfl
  · rw [← h.backed_set hpop hns hkey p.kind_not_derived (by simp) hB hx]
    refine ⟨fun hxB => ⟨⟨hxB, fun hcoll => hx ?_⟩, hx⟩, fun hxB => hxB.1.1⟩
    exact h.collected_reselect hpop hns hkey p.kind_not_derived (by simp) hB _ hcoll

/-! ## Dangling edges -/

/-- Both ends of every edge are nodes. -/
def Topology.Closed (T : Topology) : Prop := ∀ x, Touched T.edges x → T.node x ≠ none

theorem Topology.closed_empty : Topology.empty.Closed := by
  rintro x ⟨e, he, -⟩
  exact he.elim

/-- The delta does not swap edges at an end that only its object refers to. An end that
    loses an edge and gains another is the object itself, or a live object, or an end of
    an edge that stays. -/
def World.Safe (W : World) (d : Delta) : Prop :=
  ∀ x, Touched (W.declared d.object.key \ (W.apply d).declared d.object.key) x →
    Touched ((W.apply d).declared d.object.key \ W.declared d.object.key) x →
    x = d.object.key ∨ W.get x ≠ none ∨
      Touched (W.edges \ (W.declared d.object.key \ (W.apply d).declared d.object.key)) x

/-- A delta for an object that is not live loses no edge. -/
theorem World.safe_of_new (h : W.get d.object.key = none) : W.Safe d := by
  rintro x ⟨e, ⟨⟨o, ho, -⟩, -⟩, -⟩
  rw [h] at ho
  cases ho

/-- A delete gains no edge. -/
theorem World.safe_of_delete (hop : d.op = .delete) : W.Safe d := by
  rintro x - ⟨e, ⟨⟨o, ho, -⟩, -⟩, -⟩
  rw [W.apply_delete hop, World.get_set_self] at ho
  cases ho

/-- Reconciling leaves no dangling edge, if the ends of the wanted edges are there and the
    removals do not collect one that an addition needs. -/
theorem Agrees.closed_reconcile (h : Agrees W T) (hpop : T.Populated B) (hclosed : T.Closed)
    (hns : slash ∉ ns) (hkey : key = nodeKey kind ns name) (hkind : ¬ kind.Derived)
    (ho : ∀ x ∈ o, x.key = key) (hself : o ≠ none → key ∈ B)
    (hlive : ∀ x, W.get x ≠ none → x ∈ B)
    (hends : ∀ x, Touched ((W.set key o ho).declared key) x → T.node x ≠ none)
    (hsafe : ∀ x, Touched (W.declared key \ (W.set key o ho).declared key) x →
      Touched ((W.set key o ho).declared key \ W.declared key) x →
      x = key ∨ W.get x ≠ none ∨
        Touched (W.edges \ (W.declared key \ (W.set key o ho).declared key)) x) :
    (T.reconcile ns key o).Closed := by
  have hdrop := h.dropped hns hkey ho
  have hkept : ∀ x, x = key ∧ o ≠ none ∨ W.get x ≠ none → ¬ T.CollectableAt x := by
    rintro x (⟨rfl, hne⟩ | hx)
    · exact hpop.not_collectableAt (hself hne) (hkey ▸ hasKind_nodeKey kind ns name) hkind
    · exact hpop.not_collectableAt_live (hlive x hx) hx
  have hrel : ∀ x, T.node x ≠ none → x ∉ T.collected (T.dropped ns key o) →
      (T.relinked ns key o).node x ≠ none := by
    intro x hx hnot
    change (T.dropEdges (T.dropped ns key o)).node x ≠ none
    rwa [Topology.dropEdges_node_of_not_mem hnot]
  rintro x ⟨e, he, htouch⟩
  -- Re-evaluation keeps the ends of the edges that are there afterwards.
  refine ne_of_eq_of_ne (Topology.dropEdges_node_of_not_mem fun hcoll =>
    hcoll.2.1 ⟨e, he, htouch⟩) ?_
  rcases he with ⟨(⟨heT, hed⟩ | ⟨hnew, hold⟩) | ⟨src, -, ent, hent, hany, he, -⟩, -⟩
  · exact hrel x (hclosed x ⟨e, heT, htouch⟩) fun hcoll => hcoll.2.1 ⟨e, ⟨heT, hed⟩, htouch⟩
  · change e ∈ T.wanted ns key o at hnew
    change e ∉ T.declared key at hold
    rw [World.wanted_eq h.podLabels hns hkey ho] at hnew
    rw [h.declared] at hold
    refine hrel x (hends x ⟨e, hnew, htouch⟩) ?_
    rintro ⟨⟨f, ⟨-, hf⟩, hftouch⟩, hrest, hcoll⟩
    rw [hdrop, h.edges] at hrest
    rw [hdrop] at hf
    have hne : o ≠ none := by
      rintro rfl
      obtain ⟨p, hp, -⟩ := hnew
      rw [World.get_set_self] at hp
      cases hp
    rcases hsafe x ⟨f, hf, hftouch⟩ ⟨e, ⟨hnew, hold⟩, htouch⟩ with hx | hx | hx
    · exact hkept x (.inl ⟨hx, hne⟩) hcoll
    · exact hkept x (.inr hx) hcoll
    · exact hrest hx
  · have hne : o ≠ none := by
      rintro rfl
      cases hany
    have hx : x = key ∧ o ≠ none ∨ W.get x ≠ none := by
      rcases h.relinked_ends hns hkey ho hent he htouch with hx | hx
      · exact .inl ⟨hx, hne⟩
      · by_cases hxk : x = key
        · exact .inl ⟨hxk, hne⟩
        · rw [W.get_set_of_ne hxk] at hx
          exact .inr hx
    refine hrel x (hpop.present ?_) fun hcoll => hkept x hx hcoll.2.2
    rcases hx with ⟨rfl, hne⟩ | hx
    · exact hself hne
    · exact hlive x hx

theorem Topology.Closed.markDeleted (h : T.Closed) (key : GoString) :
    (T.markDeleted key).Closed := by
  unfold Topology.markDeleted
  cases hkey : T.node key with
  | none => exact h
  | some n =>
    intro x hx
    change (Topology.dropNodes _ _).node x ≠ none
    rw [Topology.dropNodes_node_of_not_mem fun hmem => hmem.2.1 hx]
    exact Topology.extends_setNode T key _ x (h x hx)

theorem Topology.Closed.onlyNodes (h : T.Closed) (hT : T.OnlyNodes T') (hext : T.Extends T') :
    T'.Closed := by
  intro x hx
  rw [hT] at hx
  exact hext x (h x hx)

end reconcile

/-! ## Whole deltas -/

section delta

/-- The state before reconciling an object that appears or changes. -/
theorem Topology.Populated.prepared (h : T.Populated W.backed) (p : Object) :
    let T' := (T.addNode p.kind p.metadata.ns.text p.metadata.name).declare p.key p.kind p.links
    T.OnlyNodes T' ∧ T.Extends T' ∧
      T'.Populated (insert p.key W.backed ∪ Topology.derivedKeys p.links) ∧
      ∀ l ∈ p.links, T'.node l.key ≠ none := by
  have hpresent := Topology.addNode_present T p.kind p.metadata.ns.text p.metadata.name
  obtain ⟨hpop, hext, hlinks⟩ := (h.addNode p.kind p.metadata.ns.text p.metadata.name).declare
    (hasKind_nodeKey ..) hpresent p.links
  exact ⟨(Topology.onlyNodes_addNode ..).trans (Topology.onlyNodes_declare ..),
    (Topology.extends_addNode _ _ _ _).trans hext, hpop, hlinks⟩

theorem covered_some (W : World) (p : Object) :
    Covered W p.key (some p) (insert p.key W.backed ∪ Topology.derivedKeys p.links) := by
  intro x hx
  simp [hx]

theorem covered_none (W : World) (key : GoString) : Covered W key none W.backed := by
  intro x hx
  simp

theorem Agrees.populated_apply (h : Agrees W T) (hpop : T.Populated W.backed) (d : Delta) :
    (T.apply d).Populated (W.apply d).backed := by
  rw [h.apply_eq]
  split
  · next hop =>
    rw [W.apply_delete hop]
    have hadd := h.onlyNodes (Topology.onlyNodes_addNode T d.object.kind
      d.object.metadata.ns.text d.object.metadata.name)
    exact hadd.populated_none (hpop.addNode ..) d.object (covered_none W _)
  · next hop =>
    rw [W.apply_upsert hop]
    obtain ⟨honly, -, hpop', -⟩ := hpop.prepared d.object
    exact (h.onlyNodes honly).populated_some hpop' (covered_some W _) (.inl (.inl rfl))

theorem Topology.OnlyNodes.tracked (h : T.OnlyNodes T') : T'.tracked = T.tracked := by
  rw [h]
  rfl

theorem Agrees.apply_tracked (h : Agrees W T) (d : Delta) : (T.apply d).tracked = T.tracked := by
  rw [h.apply_eq]
  split
  · refine (Topology.onlyNodes_markDeleted ..).tracked.trans ?_
    exact (Topology.onlyNodes_addNode T ..).tracked
  · exact ((Topology.onlyNodes_addNode ..).trans (Topology.onlyNodes_declare ..)).tracked

/-- The ends of the edges that an object asks for are nodes once its links are followed. -/
theorem Topology.Populated.ends_present (h : T.Populated W.backed) (p : Object)
    (hx : Touched ((W.set p.key (some p) (by simp)).declared p.key) x) :
    ((T.addNode p.kind p.metadata.ns.text p.metadata.name).declare p.key p.kind p.links).node x ≠
      none := by
  obtain ⟨-, -, hpop, hlinks⟩ := h.prepared p
  obtain ⟨e, ⟨q, hq, he⟩, htouch⟩ := hx
  rw [World.get_set_self] at hq
  cases hq
  rcases he with ⟨l, hl, rfl⟩ | ⟨ent, -, pod, _, hlabels, -, rfl⟩
  · have hor : x = l.key ∨ x = p.key := by
      unfold Link.edgeAt at htouch
      split at htouch
      · exact htouch.imp Eq.symm Eq.symm
      · exact htouch.symm.imp Eq.symm Eq.symm
    rcases hor with rfl | rfl
    · exact hlinks l hl
    · exact hpop.present (.inl (.inl rfl))
  · rcases htouch with rfl | rfl
    · exact hpop.present (.inl (.inl rfl))
    · obtain ⟨y, hy, -⟩ := Option.bind_eq_some_iff.1 hlabels
      refine hpop.present (.inl ?_)
      by_cases hxk : pod = p.key
      · exact .inl hxk
      · rw [W.get_set_of_ne hxk] at hy
        exact .inr (.inl (by simp [hy]))

/-- A safe delta leaves no dangling edge. -/
theorem Agrees.closed_apply (h : Agrees W T) (hpop : T.Populated W.backed) (hclosed : T.Closed)
    (hsafe : W.Safe d) : (T.apply d).Closed := by
  have hkey : d.object.key = nodeKey d.object.kind d.object.metadata.ns.text
    d.object.metadata.name := rfl
  have hns := d.object.metadata.ns.noSlash
  have hkind := d.object.kind_not_derived
  unfold World.Safe at hsafe
  rw [h.apply_eq]
  split
  · next hop =>
    rw [W.apply_delete hop] at hsafe
    have hadd := Topology.onlyNodes_addNode T d.object.kind d.object.metadata.ns.text
      d.object.metadata.name
    refine Topology.Closed.markDeleted ?_ _
    refine (h.onlyNodes hadd).closed_reconcile (hpop.addNode ..)
      (hclosed.onlyNodes hadd (Topology.extends_addNode _ _ _ _)) hns hkey hkind (by simp)
      (fun hne => absurd rfl hne) (fun x hx => .inl hx) ?_ hsafe
    rintro x ⟨e, ⟨q, hq, -⟩, -⟩
    rw [World.get_set_self] at hq
    cases hq
  · next hop =>
    rw [W.apply_upsert hop] at hsafe
    obtain ⟨honly, hext, hpop', -⟩ := hpop.prepared d.object
    exact (h.onlyNodes honly).closed_reconcile hpop' (hclosed.onlyNodes honly hext) hns hkey hkind
      (by simp) (fun _ => .inl (.inl rfl)) (fun x hx => .inl (.inr (.inl hx)))
      (fun x hx => hpop.ends_present d.object hx) hsafe

end delta

/-- The fingerprints of the live objects, when they are tracked. -/
def World.fingerprints (W : World) (tracking : Bool) (key : GoString) : Option TrackedState :=
  if tracking then (W.get key).map newTrackedState else none

/-- One delta of a batch: track it if there is a change hook, then apply it. -/
noncomputable def Topology.advance (tracking : Bool) (T : Topology) (d : Delta) : Topology :=
  (if tracking then T.track d else T).apply d

/-- The machine means the live objects. -/
structure Faithful (tracking : Bool) (W : World) (T : Topology) : Prop extends Agrees W T where
  populated : T.Populated W.backed
  tracked : T.tracked = W.fingerprints tracking

namespace Faithful

variable {tracking : Bool}

theorem empty (tracking : Bool) : Faithful tracking World.empty Topology.empty := by
  have hdecl : ∀ key, World.empty.declared key = ∅ := by
    intro key
    ext e
    simp [World.declared, World.empty]
  have hedges : World.empty.edges = ∅ := by
    ext e
    simp [World.edges, hdecl]
  have hback : World.empty.backed = ∅ := by
    ext x
    refine iff_of_false ?_ (Set.notMem_empty x)
    rintro (hlive | ⟨-, e, he, -⟩)
    · exact hlive rfl
    · rw [hedges] at he
      exact he
  refine ⟨⟨?_, ?_, rfl, rfl⟩, ?_, ?_⟩
  · funext key
    exact (hdecl key).symm
  · exact fun e => Iff.rfl
  · rw [hback]
    exact Topology.populated_empty
  · funext key
    cases tracking <;> rfl

theorem track (h : Faithful tracking W T) (d : Delta) : Agrees W (T.track d) :=
  ⟨h.declared, h.owned, h.podLabels, h.selectors⟩

/-- One delta keeps the machine faithful, safe or not. -/
theorem advance (h : Faithful tracking W T) (d : Delta) :
    Faithful tracking (W.apply d) (T.advance tracking d) := by
  unfold Topology.advance
  cases tracking with
  | false =>
    refine ⟨h.apply d, h.populated_apply h.populated d, ?_⟩
    rw [if_neg Bool.false_ne_true, h.apply_tracked, h.tracked]
    rfl
  | true =>
    rw [if_pos rfl]
    refine ⟨(h.track d).apply d, (h.track d).populated_apply (h.populated.onlyFacts rfl) d, ?_⟩
    rw [(h.track d).apply_tracked]
    change Function.update T.tracked d.object.key _ = _
    rw [h.tracked]
    funext key
    by_cases hk : key = d.object.key
    · subst hk
      by_cases hop : d.op = .delete
      · simp [World.fingerprints, W.apply_delete, hop]
      · simp [World.fingerprints, W.apply_upsert, hop]
    · rw [Function.update_of_ne hk]
      simp only [World.fingerprints, World.apply, W.get_set_of_ne hk]

theorem closed_advance (h : Faithful tracking W T) (hclosed : T.Closed) (hsafe : W.Safe d) :
    (T.advance tracking d).Closed := by
  unfold Topology.advance
  split
  · exact (h.track d).closed_apply (h.populated.onlyFacts rfl) hclosed hsafe
  · exact h.closed_apply h.populated hclosed hsafe

end Faithful

end Lookout
