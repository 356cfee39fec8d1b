-- SUMMARY: The identity-level graph machine: nodes and edges named by keys, with maintenance as set operations.
import Lookout.Graph.Writer
import Mathlib.Data.Set.Insert

/-!
# The identity-level machine

`Topology` is what the writer's state means without numbers, slices, counters and
loop orders. Nodes are named by their keys, the edges form a set, and so do the
edges an object declares. Applying a delta is a function on topologies. A loop of
the writer becomes one set operation, so its result cannot depend on the order in
which the loop runs.
-/

namespace Lookout

variable {ns src x : GoString} {S : Set GoString}

/-- An edge between identities. -/
structure KeyEdge where
  src : GoString
  dst : GoString
  kind : EdgeKind
  deriving DecidableEq, Repr

/-- `x` is an endpoint of the edge. -/
def KeyEdge.Touches (e : KeyEdge) (x : GoString) : Prop := e.src = x ∨ e.dst = x

/-- `x` is an endpoint of some edge in `E`. -/
def Touched (E : Set KeyEdge) (x : GoString) : Prop := ∃ e ∈ E, e.Touches x

theorem Touched.mono (h : Touched E x) (hsub : E ⊆ F) : Touched F x := by
  obtain ⟨e, he, hx⟩ := h
  exact ⟨e, hsub he, hx⟩

theorem touched_union : Touched (E ∪ F) x ↔ Touched E x ∨ Touched F x := by
  constructor
  · rintro ⟨e, he | he, hx⟩
    · exact .inl ⟨e, he, hx⟩
    · exact .inr ⟨e, he, hx⟩
  · rintro (h | h)
    · exact h.mono Set.subset_union_left
    · exact h.mono Set.subset_union_right

/-- A node of this kind is derived from another object, not an object of its own. -/
def NodeKind.Derived (k : NodeKind) : Prop := k = .container ∨ k = .zone

instance (k : NodeKind) : Decidable k.Derived :=
  inferInstanceAs (Decidable (k = .container ∨ k = .zone))

/-- A node that is collected once no edge touches it. -/
def NodeView.Collectable (n : NodeView) : Prop :=
  n.kind ≠ .namespace_ ∧ (n.observed = false ∨ n.kind.Derived)

/-- The identity at the other end of a link. -/
def Link.key (l : Link) : GoString := nodeKey l.kind l.ns.text l.name

/-- The edge a link of the object `self` asks for. -/
def Link.edgeAt (self : GoString) (l : Link) : KeyEdge :=
  if l.inbound then ⟨l.key, self, l.edge⟩ else ⟨self, l.key, l.edge⟩

/-- The edges a list of links asks for. -/
def linkEdges (self : GoString) (links : List Link) : Set KeyEdge :=
  {e | ∃ l ∈ links, e = l.edgeAt self}

variable [Platform]

@[ext]
structure Topology where
  node : GoString → Option NodeView
  edges : Set KeyEdge
  declared : GoString → Set KeyEdge
  /-- The labels of the pods of each namespace. -/
  podLabels : GoString → GoString → Option Labels
  /-- The registered selectors of each namespace. -/
  selectors : GoString → GoString → Option SelEntry
  tracked : GoString → Option TrackedState

variable {E F : Set KeyEdge} {T : Topology}

namespace Topology

variable (T)

def empty : Topology where
  node _ := none
  edges := ∅
  declared _ := ∅
  podLabels _ _ := none
  selectors _ _ := none
  tracked _ := none

/-! ## Nodes -/

def setNode (key : GoString) (n : Option NodeView) : Topology :=
  { T with node := Function.update T.node key n }

@[simp] theorem setNode_node_self (key : GoString) (n : Option NodeView) :
    (T.setNode key n).node key = n :=
  Function.update_self ..

theorem setNode_node_of_ne {T : Topology} {key : GoString} (h : x ≠ key) {n : Option NodeView} :
    (T.setNode key n).node x = T.node x :=
  Function.update_of_ne h ..

/-- Make sure a node exists. -/
def ensure (kind : NodeKind) (key : GoString) (ns : Option GoString) : Topology :=
  match T.node key with
  | some _ => T
  | none => T.setNode key (some ⟨kind, decide (kind = .namespace_), ns⟩)

/-- The key of the Namespace node of a namespaced identity. -/
def nsKey (ns : GoString) : Option GoString :=
  if ns = [] then none else some (nodeKey .namespace_ [] ns)

/-- Make sure the node of an identity exists, and its Namespace node before it. -/
def addNode (kind : NodeKind) (ns name : GoString) : Topology :=
  let T := match nsKey ns with
    | none => T
    | some k => T.ensure .namespace_ k none
  T.ensure kind (nodeKey kind ns name) (nsKey ns)

def observe (key : GoString) (kind : NodeKind) : Topology :=
  let n := (T.node key).getD ⟨.unknown, false, none⟩
  T.setNode key (some { n with kind := kind, observed := true })

/-- The node `x` exists and is collected once no edge touches it. -/
def CollectableAt (x : GoString) : Prop := ∃ n ∈ T.node x, n.Collectable

open Classical in
/-- Remove the nodes in `S`. -/
noncomputable def dropNodes (S : Set GoString) : Topology :=
  { T with node := fun x => if x ∈ S then none else T.node x }

/-- Collect a node that no edge touches and no object backs. -/
noncomputable def collect (key : GoString) : Topology :=
  T.dropNodes {x | x = key ∧ ¬ Touched T.edges x ∧ T.CollectableAt x}

noncomputable def markDeleted (key : GoString) : Topology :=
  match T.node key with
  | none => T
  | some n => (T.setNode key (some { n with observed := false })).collect key

/-! ## Edges -/

def withEdges (E : Set KeyEdge) : Topology := { T with edges := E }

def addEdges (S : Set KeyEdge) : Topology := T.withEdges (T.edges ∪ S)

/-- Remove a set of edges, and collect the endpoints that end up unreferenced. -/
noncomputable def dropEdges (S : Set KeyEdge) : Topology :=
  (T.withEdges (T.edges \ S)).dropNodes
    {x | Touched (T.edges ∩ S) x ∧ ¬ Touched (T.edges \ S) x ∧ T.CollectableAt x}

def withDeclared (key : GoString) (S : Set KeyEdge) : Topology :=
  { T with declared := Function.update T.declared key S }

/-- Reconcile the edges `key` declares with `want`: removals first, then additions. -/
noncomputable def setDeclared (key : GoString) (want : Set KeyEdge) : Topology :=
  ((T.dropEdges (T.declared key \ want)).addEdges (want \ T.declared key)).withDeclared key want

/-! ## Selectors -/

def setSelector (ns src : GoString) (ent : Option SelEntry) : Topology :=
  { T with selectors := Function.update T.selectors ns (Function.update (T.selectors ns) src ent) }

def setLabels (ns pod : GoString) (labels : Option Labels) : Topology :=
  { T with podLabels := Function.update T.podLabels ns (Function.update (T.podLabels ns) pod labels) }

/-- Add or remove one selector-derived edge, and keep its source's declared edges in step. -/
noncomputable def setSelectorEdge (e : KeyEdge) : Bool → Topology
  | true => (T.addEdges ({e} \ T.declared e.src)).withDeclared e.src (T.declared e.src ∪ {e})
  | false => (T.dropEdges ({e} ∩ T.declared e.src)).withDeclared e.src (T.declared e.src \ {e})

/-- The edges from a selector's object to the pods of its namespace that it matches. -/
def selectedEdges (ns src : GoString) (ent : SelEntry) : Set KeyEdge :=
  {e | ∃ pod labels, T.podLabels ns pod = some labels ∧
    Platform.matchesLabels ent.sel labels = true ∧ e = ⟨src, pod, ent.kind⟩}

/-- The selector edges to `pod` of the sources in `P` that are missing. -/
def missingEdges (ns pod : GoString) (want : SelEntry → Bool) (P : Set GoString) : Set KeyEdge :=
  {e | ∃ src ∈ P, ∃ ent, T.selectors ns src = some ent ∧ want ent = true ∧
    e = ⟨src, pod, ent.kind⟩ ∧ e ∉ T.declared src}

/-- The selector edges to `pod` of the sources in `P` that no longer match. -/
def staleEdges (ns pod : GoString) (want : SelEntry → Bool) (P : Set GoString) : Set KeyEdge :=
  {e | ∃ src ∈ P, ∃ ent, T.selectors ns src = some ent ∧ want ent = false ∧
    e = ⟨src, pod, ent.kind⟩ ∧ e ∈ T.declared src}

def withDeclaredBy (f : GoString → Set KeyEdge) : Topology :=
  { T with declared := f }

/-- Re-evaluate the selectors of the sources in `P` on one pod. -/
noncomputable def reselectOn (ns pod : GoString) (want : SelEntry → Bool)
    (P : Set GoString) : Topology :=
  let missing := T.missingEdges ns pod want P
  let stale := T.staleEdges ns pod want P
  ((T.addEdges missing).dropEdges stale).withDeclaredBy fun src =>
    (T.declared src ∪ {e ∈ missing | e.src = src}) \ {e ∈ stale | e.src = src}

/-- Re-evaluate every selector of a namespace on one pod. -/
noncomputable def reselect (ns pod : GoString) (want : SelEntry → Bool) : Topology :=
  T.reselectOn ns pod want Set.univ

/-! ## Deltas -/

/-- Create the node at the other end of a link. -/
def link (l : Link) : Topology :=
  let T := T.addNode l.kind l.ns.text l.name
  if l.derived then T.observe l.key l.kind else T

/-- Observe an object's node and create the nodes of its links. -/
def declare (key : GoString) (kind : NodeKind) (links : List Link) : Topology :=
  links.foldl link (T.observe key kind)

noncomputable def applyLinks (op : Op) (kind : NodeKind) (m : ObjectMeta)
    (links : List Link) : Topology :=
  let key := nodeKey kind m.ns.text m.name
  let T := T.addNode kind m.ns.text m.name
  if op = .delete then (T.setDeclared key ∅).markDeleted key
  else (T.declare key kind links).setDeclared key (linkEdges key links)

noncomputable def applySelecting (op : Op) (kind : NodeKind) (m : ObjectMeta)
    (links : List Link) (entry : Option SelEntry) : Topology :=
  let ns := m.ns.text
  let key := nodeKey kind ns m.name
  let T := T.addNode kind ns m.name
  if op = .delete then ((T.setSelector ns key none).setDeclared key ∅).markDeleted key
  else
    let T := (T.declare key kind links).setSelector ns key entry
    T.setDeclared key (linkEdges key links ∪ {e | ∃ ent ∈ entry, e ∈ T.selectedEdges ns key ent})

noncomputable def applyPod (op : Op) (pod : Pod) : Topology :=
  let ns := pod.metadata.ns.text
  let key := nodeKey .pod ns pod.metadata.name
  let T := T.addNode .pod ns pod.metadata.name
  if op = .delete then
    (((T.setDeclared key ∅).reselect ns key fun _ => false).setLabels ns key none).markDeleted key
  else
    let labels := pod.metadata.labels
    (((T.declare key .pod pod.links).setDeclared key (linkEdges key pod.links)).setLabels ns key
      (some labels)).reselect ns key fun ent => Platform.matchesLabels ent.sel labels

end Topology

/-- How a delta is applied: the shared body without selectors, the one with a selector
    of its own, or the one for pods. -/
inductive Shape where
  | linked (links : List Link)
  | selecting (entry : Option SelEntry)
  | pod (pod : Pod)

/-- The links an object asks for. -/
def Object.links : Object → List Link
  | .pod p => p.links
  | .node n => n.links
  | .endpointSlice eps => eps.links
  | .ingress ing => ing.links
  | o => ownerLinks o.metadata

def Object.shape : Object → Shape
  | .pod p => .pod p
  | .service svc => .selecting (Build.serviceEntry svc)
  | .networkPolicy np => .selecting (Build.policyEntry np)
  | .node n => .linked n.links
  | .endpointSlice eps => .linked eps.links
  | .ingress ing => .linked ing.links
  | o => .linked (ownerLinks o.metadata)

namespace Topology

noncomputable def apply (T : Topology) (d : Delta) : Topology :=
  match d.object.shape with
  | .linked links => T.applyLinks d.op d.object.kind d.object.metadata links
  | .selecting entry =>
    T.applySelecting d.op d.object.kind d.object.metadata (ownerLinks d.object.metadata) entry
  | .pod p => T.applyPod d.op p

/-- Update the fingerprint of a delta's object. -/
def track (T : Topology) (d : Delta) : Topology :=
  let st := if d.op = .delete then none else some (newTrackedState d.object)
  { T with tracked := Function.update T.tracked d.object.key st }

/-! ## Laws of nodes -/

variable {key : GoString} {n : NodeView} {kind : NodeKind}

/-- An existing node is left alone. -/
theorem ensure_node_of_some (h : T.node x = some n) (kind : NodeKind) (key : GoString)
    (ns : Option GoString) : (T.ensure kind key ns).node x = some n := by
  unfold ensure
  cases hkey : T.node key with
  | some _ => exact h
  | none =>
    have hne : x ≠ key := by
      rintro rfl
      rw [h] at hkey
      cases hkey
    exact (setNode_node_of_ne hne).trans h

theorem addNode_node_of_some (h : T.node x = some n) (kind : NodeKind) (ns name : GoString) :
    (T.addNode kind ns name).node x = some n := by
  refine ensure_node_of_some ?_ _ _ _
  cases nsKey ns with
  | none => exact h
  | some k => exact ensure_node_of_some h _ _ _

def withNodes (T : Topology) (f : GoString → Option NodeView) : Topology := { T with node := f }

/-- `T'` differs from `T` in its nodes only. -/
def OnlyNodes (T T' : Topology) : Prop := T' = T.withNodes T'.node

theorem OnlyNodes.trans {T' T'' : Topology} (h : T.OnlyNodes T') (h' : T'.OnlyNodes T'') :
    T.OnlyNodes T'' := by
  rw [h'] at *
  rw [h]
  rfl

section

variable (T)

theorem onlyNodes_ensure (kind : NodeKind) (key : GoString) (ns : Option GoString) :
    T.OnlyNodes (T.ensure kind key ns) := by
  unfold ensure
  split <;> rfl

theorem onlyNodes_addNode (kind : NodeKind) (ns name : GoString) :
    T.OnlyNodes (T.addNode kind ns name) := by
  unfold addNode
  cases nsKey ns with
  | none => exact onlyNodes_ensure ..
  | some k => exact (onlyNodes_ensure ..).trans (onlyNodes_ensure ..)

theorem onlyNodes_link (l : Link) : T.OnlyNodes (T.link l) := by
  unfold link
  split
  · exact (onlyNodes_addNode ..).trans rfl
  · exact onlyNodes_addNode ..

theorem onlyNodes_declare (key : GoString) (kind : NodeKind) (links : List Link) :
    T.OnlyNodes (T.declare key kind links) := by
  unfold declare
  induction links using List.reverseRecOn with
  | nil => rfl
  | append_singleton links l ih =>
    rw [List.foldl_append]
    exact ih.trans (onlyNodes_link ..)

theorem onlyNodes_markDeleted (key : GoString) : T.OnlyNodes (T.markDeleted key) := by
  unfold markDeleted
  split <;> rfl

/-- The node `key` is of this kind, and an object or a reference backs it. -/
def Backed (T : Topology) (key : GoString) (kind : NodeKind) : Prop :=
  ∃ n, T.node key = some n ∧ n.observed = true ∧ n.kind = kind

theorem observe_backed (key : GoString) (kind : NodeKind) : (T.observe key kind).Backed key kind :=
  ⟨_, setNode_node_self .., rfl, rfl⟩

end

theorem Backed.link {name : GoString} (h : T.Backed (nodeKey kind ns name) kind) (l : Link) :
    (T.link l).Backed (nodeKey kind ns name) kind := by
  obtain ⟨n, hn, hobs, hkind⟩ := h
  have hadd := addNode_node_of_some hn l.kind l.ns.text l.name
  unfold Topology.link
  split
  · by_cases hkey : nodeKey kind ns name = l.key
    · -- The link leads back to the node, so it is of the same kind.
      have hback := observe_backed (T.addNode l.kind l.ns.text l.name) l.key l.kind
      rw [hkey, nodeKey_kind hkey]
      exact hback
    · exact ⟨n, (setNode_node_of_ne hkey).trans hadd, hobs, hkind⟩
  · exact ⟨n, hadd, hobs, hkind⟩

theorem declare_backed (T : Topology) (kind : NodeKind) (ns name : GoString) (links : List Link) :
    (T.declare (nodeKey kind ns name) kind links).Backed (nodeKey kind ns name) kind := by
  unfold declare
  induction links using List.reverseRecOn with
  | nil => exact observe_backed ..
  | append_singleton links l ih =>
    rw [List.foldl_append]
    exact ih.link l

theorem Backed.not_collectableAt (h : T.Backed key kind) (hkind : ¬ kind.Derived) :
    ¬ T.CollectableAt key := by
  obtain ⟨n, hn, hobs, rfl⟩ := h
  rintro ⟨n', hn', -, hcoll⟩
  cases Option.some.inj (hn.symm.trans hn')
  rcases hcoll with hcoll | hcoll
  · rw [hobs] at hcoll
    cases hcoll
  · exact hkind hcoll

/-! ## Laws of removal -/

theorem dropNodes_node_of_mem (h : x ∈ S) : (T.dropNodes S).node x = none :=
  if_pos h

theorem dropNodes_node_of_not_mem (h : x ∉ S) : (T.dropNodes S).node x = T.node x :=
  if_neg h

theorem dropNodes_dropNodes (T : Topology) (S S' : Set GoString) :
    (T.dropNodes S).dropNodes S' = T.dropNodes (S ∪ S') := by
  ext1 <;> try rfl
  funext x
  by_cases h' : x ∈ S'
  · rw [dropNodes_node_of_mem h', dropNodes_node_of_mem (Or.inr h')]
  · rw [dropNodes_node_of_not_mem h']
    by_cases h : x ∈ S
    · rw [dropNodes_node_of_mem h, dropNodes_node_of_mem (Or.inl h)]
    · rw [dropNodes_node_of_not_mem h, dropNodes_node_of_not_mem fun hx => hx.elim h h']

theorem collectableAt_dropNodes : (T.dropNodes S).CollectableAt x ↔ x ∉ S ∧ T.CollectableAt x := by
  unfold CollectableAt
  by_cases h : x ∈ S
  · simp [dropNodes_node_of_mem h, h]
  · simp [dropNodes_node_of_not_mem h, h]

theorem not_collectableAt (h : T.node x = none) : ¬ T.CollectableAt x := by
  rintro ⟨n, hn, -⟩
  rw [h] at hn
  cases hn

theorem dropNodes_eq_self (h : ∀ x ∈ S, T.node x = none) : T.dropNodes S = T := by
  ext1 <;> try rfl
  funext x
  by_cases hx : x ∈ S
  · rw [dropNodes_node_of_mem hx, h x hx]
  · exact dropNodes_node_of_not_mem hx

theorem collect_eq_setNode (h : ¬ Touched T.edges key) (hc : T.CollectableAt key) :
    T.collect key = T.setNode key none := by
  ext1 <;> try rfl
  funext x
  by_cases hx : x = key
  · subst hx
    have hmem : x ∈ {y | y = x ∧ ¬ Touched T.edges y ∧ T.CollectableAt y} := ⟨rfl, h, hc⟩
    rw [setNode_node_self]
    exact dropNodes_node_of_mem hmem
  · have hmem : x ∉ {y | y = key ∧ ¬ Touched T.edges y ∧ T.CollectableAt y} := fun hc => hx hc.1
    rw [setNode_node_of_ne hx]
    exact dropNodes_node_of_not_mem hmem

theorem collect_eq_self (h : ¬ (¬ Touched T.edges key ∧ T.CollectableAt key)) :
    T.collect key = T := by
  refine dropNodes_eq_self ?_
  rintro x ⟨rfl, hx⟩
  exact absurd hx h

@[simp] theorem dropEdges_edges (T : Topology) (S : Set KeyEdge) :
    (T.dropEdges S).edges = T.edges \ S :=
  rfl

theorem dropEdges_node_of_not_collectableAt {S : Set KeyEdge} (h : ¬ T.CollectableAt x) :
    (T.dropEdges S).node x = T.node x :=
  dropNodes_node_of_not_mem fun hx => h hx.2.2

theorem Backed.setDeclared (h : T.Backed key kind) (hkind : ¬ kind.Derived) {want : Set KeyEdge} :
    (T.setDeclared src want).Backed key kind := by
  have hkept := h.not_collectableAt hkind
  obtain ⟨n, hn, hobs⟩ := h
  exact ⟨n, (dropEdges_node_of_not_collectableAt hkept).trans hn, hobs⟩

theorem dropEdges_of_disjoint {S : Set KeyEdge} (h : ∀ e ∈ S, e ∉ T.edges) : T.dropEdges S = T := by
  have hedges : T.edges \ S = T.edges :=
    sdiff_eq_left.2 (Set.disjoint_left.2 fun e he heS => h e heS he)
  unfold dropEdges
  rw [hedges, dropNodes_eq_self]
  · rfl
  · rintro x ⟨⟨e, ⟨he, heS⟩, -⟩, -⟩
    exact absurd he (h e heS)

/-- Removing one edge collects its two ends, one after the other. -/
theorem dropEdges_singleton {k : KeyEdge} (hk : k ∈ T.edges) :
    T.dropEdges {k} = ((T.withEdges (T.edges \ {k})).collect k.src).collect k.dst := by
  have htouch : ∀ x, Touched (T.edges ∩ {k}) x ↔ x = k.src ∨ x = k.dst := by
    intro x
    constructor
    · rintro ⟨e, ⟨-, rfl⟩, hx⟩
      exact hx.imp Eq.symm Eq.symm
    · intro hx
      exact ⟨k, ⟨hk, rfl⟩, hx.imp Eq.symm Eq.symm⟩
  have hcoll : ∀ x, (T.withEdges (T.edges \ {k})).CollectableAt x ↔ T.CollectableAt x :=
    fun x => Iff.rfl
  rw [collect, collect, dropNodes_dropNodes, dropEdges]
  congr 1
  ext x
  simp only [Set.mem_union, Set.mem_ofPred_eq, htouch, collectableAt_dropNodes]
  tauto

/-- Removing edges in two rounds collects what removing them at once collects. -/
theorem dropEdges_dropEdges (T : Topology) (S S' : Set KeyEdge) :
    (T.dropEdges S).dropEdges S' = T.dropEdges (S ∪ S') := by
  have hedges : (T.edges \ S) \ S' = T.edges \ (S ∪ S') := sdiff_sdiff_left
  have hsplit : ∀ x, Touched (T.edges ∩ (S ∪ S')) x ↔
      Touched (T.edges ∩ S) x ∨ Touched ((T.edges \ S) ∩ S') x := by
    intro x
    rw [← touched_union]
    refine exists_congr fun e => and_congr_left fun _ => ?_
    simp only [Set.mem_inter_iff, Set.mem_union, Set.mem_sdiff]
    tauto
  have hrest : ∀ x, Touched (T.edges \ S) x ↔
      Touched ((T.edges \ S) ∩ S') x ∨ Touched (T.edges \ (S ∪ S')) x := by
    intro x
    rw [← hedges, ← touched_union, Set.inter_union_sdiff]
  have hframe : ∀ E : Set KeyEdge, ∀ N, ((T.withEdges (T.edges \ S)).dropNodes N).withEdges E =
      (T.withEdges E).dropNodes N := fun _ _ => rfl
  have hcoll : ∀ x, (T.withEdges (T.edges \ S)).CollectableAt x ↔ T.CollectableAt x :=
    fun x => Iff.rfl
  rw [dropEdges, dropEdges_edges, hedges, dropEdges, hframe, dropNodes_dropNodes, dropEdges]
  congr 1
  ext x
  simp only [Set.mem_union, Set.mem_ofPred_eq, collectableAt_dropNodes, hsplit]
  have := hrest x
  tauto

/-- Adding edges after a removal is adding them before it, as long as the removal does
    not collect an endpoint of theirs. -/
theorem addEdges_dropEdges {S A : Set KeyEdge} (hdisj : ∀ e ∈ A, e ∉ S)
    (hkept : ∀ x, Touched A x → Touched (T.edges ∩ S) x → ¬ T.CollectableAt x) :
    (T.dropEdges S).addEdges A = (T.addEdges A).dropEdges S := by
  have hinter : (T.edges ∪ A) ∩ S = T.edges ∩ S := by
    ext e
    have := hdisj e
    simp only [Set.mem_inter_iff, Set.mem_union]
    tauto
  have hdiff : (T.edges ∪ A) \ S = (T.edges \ S) ∪ A := by
    ext e
    have := hdisj e
    simp only [Set.mem_sdiff, Set.mem_union]
    tauto
  change (T.withEdges ((T.edges \ S) ∪ A)).dropNodes _ =
    (T.withEdges ((T.edges ∪ A) \ S)).dropNodes _
  rw [← hdiff]
  congr 1
  ext x
  have := hkept x
  change _ ↔ Touched ((T.edges ∪ A) ∩ S) x ∧ ¬ Touched ((T.edges ∪ A) \ S) x ∧ T.CollectableAt x
  simp only [Set.mem_ofPred_eq, hinter, hdiff, touched_union]
  tauto

theorem addEdges_addEdges (T : Topology) (S S' : Set KeyEdge) :
    (T.addEdges S).addEdges S' = T.addEdges (S ∪ S') := by
  ext1 <;> try rfl
  exact Set.union_assoc _ _ _

@[simp] theorem addEdges_empty (T : Topology) : T.addEdges ∅ = T := by
  ext1 <;> try rfl
  exact Set.union_empty _

@[simp] theorem dropEdges_empty (T : Topology) : T.dropEdges ∅ = T :=
  dropEdges_of_disjoint fun _ he => absurd he (Set.notMem_empty _)

/-! ## Laws of reselection -/

section reselect

variable {pod : GoString} {want : SelEntry → Bool} {P : Set GoString} {ent : SelEntry} {e : KeyEdge}

/-- A source more, of which the selector is known. -/
theorem exists_insert_selector {Q : GoString → SelEntry → Prop}
    (hent : T.selectors ns src = some ent) :
    (∃ src' ∈ insert src P, ∃ ent', T.selectors ns src' = some ent' ∧ Q src' ent') ↔
      (∃ src' ∈ P, ∃ ent', T.selectors ns src' = some ent' ∧ Q src' ent') ∨ Q src ent := by
  constructor
  · rintro ⟨src', rfl | hP, ent', hent', h⟩
    · rw [hent] at hent'
      cases hent'
      exact .inr h
    · exact .inl ⟨src', hP, ent', hent', h⟩
  · rintro (⟨src', hP, h⟩ | h)
    · exact ⟨src', .inr hP, h⟩
    · exact ⟨src, .inl rfl, ent, hent, h⟩

theorem mem_missingEdges_insert (hent : T.selectors ns src = some ent) (pod : GoString)
    (want : SelEntry → Bool) :
    e ∈ T.missingEdges ns pod want (insert src P) ↔
      e ∈ T.missingEdges ns pod want P ∨
        want ent = true ∧ e = ⟨src, pod, ent.kind⟩ ∧ e ∉ T.declared src :=
  exists_insert_selector hent

theorem mem_staleEdges_insert (hent : T.selectors ns src = some ent) (pod : GoString)
    (want : SelEntry → Bool) :
    e ∈ T.staleEdges ns pod want (insert src P) ↔
      e ∈ T.staleEdges ns pod want P ∨
        want ent = false ∧ e = ⟨src, pod, ent.kind⟩ ∧ e ∈ T.declared src :=
  exists_insert_selector hent

theorem src_mem_of_missing (h : e ∈ T.missingEdges ns pod want P) : e.src ∈ P := by
  obtain ⟨src, hP, ent, -, -, rfl, -⟩ := h
  exact hP

theorem of_mem_staleEdges (h : e ∈ T.staleEdges ns pod want P) : e.src ∈ P ∧ e.dst = pod := by
  obtain ⟨src, hP, ent, -, -, rfl, -⟩ := h
  exact ⟨hP, rfl⟩

/-- A source that was not visited still declares what it declared. -/
theorem reselectOn_declared_of_not_mem (T : Topology) (ns pod : GoString) (want : SelEntry → Bool)
    (hsrc : src ∉ P) :
    (T.reselectOn ns pod want P).declared src = T.declared src := by
  ext e
  constructor
  · rintro ⟨h | ⟨h, rfl⟩, -⟩
    · exact h
    · exact absurd (src_mem_of_missing h) hsrc
  · intro h
    refine ⟨.inl h, ?_⟩
    rintro ⟨hst, rfl⟩
    exact hsrc (of_mem_staleEdges hst).1

/-- When no edge is missing or stale, there is nothing to do. -/
theorem reselectOn_eq_self (hm : T.missingEdges ns pod want P = ∅)
    (hs : T.staleEdges ns pod want P = ∅) : T.reselectOn ns pod want P = T := by
  unfold reselectOn
  simp only [hm, hs, addEdges_empty, dropEdges_empty]
  ext1 <;> try rfl
  funext src
  simp [withDeclaredBy]

theorem reselectOn_empty : T.reselectOn ns pod want ∅ = T := by
  refine reselectOn_eq_self ?_ ?_
  · ext e
    simp [missingEdges]
  · ext e
    simp [staleEdges]

/-- Sources without a selector do not matter. -/
theorem reselectOn_congr {Q : Set GoString}
    (h : ∀ src, T.selectors ns src ≠ none → (src ∈ P ↔ src ∈ Q)) :
    T.reselectOn ns pod want P = T.reselectOn ns pod want Q := by
  have hiff {src : GoString} {R : SelEntry → Prop} :
      (src ∈ P ∧ ∃ ent, T.selectors ns src = some ent ∧ R ent) ↔
        src ∈ Q ∧ ∃ ent, T.selectors ns src = some ent ∧ R ent :=
    and_congr_left fun ⟨ent, hent, _⟩ => h src (by simp [hent])
  have hm : T.missingEdges ns pod want P = T.missingEdges ns pod want Q :=
    Set.ext fun e => exists_congr fun src => hiff
  have hs : T.staleEdges ns pod want P = T.staleEdges ns pod want Q :=
    Set.ext fun e => exists_congr fun src => hiff
  unfold reselectOn
  rw [hm, hs]

theorem mem_setSelectorEdge_declared {f : KeyEdge} {b : Bool} {y : GoString} :
    f ∈ (T.setSelectorEdge e b).declared y ↔
      if b then f ∈ T.declared y ∨ y = e.src ∧ f = e else f ∈ T.declared y ∧ ¬ (y = e.src ∧ f = e) := by
  cases b with
  | true =>
    change f ∈ Function.update T.declared e.src (T.declared e.src ∪ {e}) y ↔ _
    by_cases hy : y = e.src
    · subst hy
      simp [or_comm]
    · simp [hy]
  | false =>
    change f ∈ Function.update T.declared e.src (T.declared e.src \ {e}) y ↔ _
    by_cases hy : y = e.src
    · subst hy
      simp
    · simp [hy]

/-- One more visited source declares what the re-evaluation says. -/
theorem reselectOn_insert_declared (hsrc : src ∉ P) (hent : T.selectors ns src = some ent)
    (pod : GoString) (want : SelEntry → Bool) :
    ((T.reselectOn ns pod want P).setSelectorEdge ⟨src, pod, ent.kind⟩ (want ent)).declared =
      (T.reselectOn ns pod want (insert src P)).declared := by
  funext y
  ext f
  have hD := reselectOn_declared_of_not_mem T ns pod want hsrc
  have hmem : ∀ Q, f ∈ (T.reselectOn ns pod want Q).declared y ↔
      (f ∈ T.declared y ∨ f ∈ T.missingEdges ns pod want Q ∧ f.src = y) ∧
        ¬ (f ∈ T.staleEdges ns pod want Q ∧ f.src = y) := fun Q => Iff.rfl
  have hm : f ∈ T.missingEdges ns pod want P → f.src ∈ P := src_mem_of_missing
  have hs : f ∈ T.staleEdges ns pod want P → f.src ∈ P := fun h => (of_mem_staleEdges h).1
  rw [mem_setSelectorEdge_declared, hmem P, hmem (insert src P), mem_missingEdges_insert hent,
    mem_staleEdges_insert hent]
  by_cases hf : f = ⟨src, pod, ent.kind⟩
  · subst hf
    -- The edge's source was not visited, so the old sets do not speak about it.
    have hm' := fun h => hsrc (hm h)
    have hs' := fun h => hsrc (hs h)
    by_cases hy : y = src
    · subst hy
      cases want ent <;> simp <;> tauto
    · cases want ent <;> simp [hy, Ne.symm hy]
  · cases want ent <;> simp [hf]

/-- Visiting one more source. When it gains an edge, the pod must not be collectable. -/
theorem reselectOn_insert (hsrc : src ∉ P) (hent : T.selectors ns src = some ent)
    (hpod : want ent = true → ¬ T.CollectableAt pod) :
    (T.reselectOn ns pod want P).setSelectorEdge ⟨src, pod, ent.kind⟩ (want ent) =
      T.reselectOn ns pod want (insert src P) := by
  have hD := reselectOn_declared_of_not_mem T ns pod want hsrc
  have hdecl := reselectOn_insert_declared hsrc hent pod want
  have hmissing := fun e => mem_missingEdges_insert hent pod want (P := P) (e := e)
  have hstale := fun e => mem_staleEdges_insert hent pod want (P := P) (e := e)
  cases hwant : want ent with
  | true =>
    have hm : T.missingEdges ns pod want (insert src P) =
        T.missingEdges ns pod want P ∪ ({⟨src, pod, ent.kind⟩} \ T.declared src) := by
      ext e
      simp [hmissing, hwant]
    have hs : T.staleEdges ns pod want (insert src P) = T.staleEdges ns pod want P := by
      ext e
      simp [hstale, hwant]
    have hcomm := addEdges_dropEdges (T := T.addEdges (T.missingEdges ns pod want P))
      (S := T.staleEdges ns pod want P) (A := {⟨src, pod, ent.kind⟩} \ T.declared src) ?_ ?_
    · rw [addEdges_addEdges, ← hm] at hcomm
      rw [hwant] at hdecl
      change (((T.addEdges (T.missingEdges ns pod want P)).dropEdges
        (T.staleEdges ns pod want P)).addEdges ({⟨src, pod, ent.kind⟩} \
          (T.reselectOn ns pod want P).declared src)).withDeclaredBy
        ((T.reselectOn ns pod want P).setSelectorEdge ⟨src, pod, ent.kind⟩ true).declared = _
      rw [hD, hcomm, hdecl, ← hs]
      rfl
    · rintro e ⟨rfl, -⟩ hst
      exact hsrc (of_mem_staleEdges hst).1
    · -- An endpoint of the new edge is the pod itself, or a source that no stale edge touches.
      rintro x ⟨e, ⟨rfl, -⟩, hx⟩ ⟨f, ⟨-, hf⟩, hfx⟩ hcoll
      obtain ⟨hfP, hfpod⟩ := of_mem_staleEdges hf
      have hne : x ≠ pod := by
        rintro rfl
        exact hpod hwant hcoll
      rcases hx with rfl | rfl
      · rcases hfx with rfl | hfx
        · exact hsrc hfP
        · exact hne (hfx.symm.trans hfpod)
      · exact hne rfl
  | false =>
    have hm : T.missingEdges ns pod want (insert src P) = T.missingEdges ns pod want P := by
      ext e
      simp [hmissing, hwant]
    have hs : T.staleEdges ns pod want (insert src P) =
        T.staleEdges ns pod want P ∪ ({⟨src, pod, ent.kind⟩} ∩ T.declared src) := by
      ext e
      simp [hstale, hwant]
    have hcomm := dropEdges_dropEdges (T.addEdges (T.missingEdges ns pod want P))
      (T.staleEdges ns pod want P) ({⟨src, pod, ent.kind⟩} ∩ T.declared src)
    rw [← hs] at hcomm
    rw [hwant] at hdecl
    change (((T.addEdges (T.missingEdges ns pod want P)).dropEdges
      (T.staleEdges ns pod want P)).dropEdges ({⟨src, pod, ent.kind⟩} ∩
        (T.reselectOn ns pod want P).declared src)).withDeclaredBy
      ((T.reselectOn ns pod want P).setSelectorEdge ⟨src, pod, ent.kind⟩ false).declared = _
    rw [hD, hcomm, hdecl, ← hm]
    rfl

end reselect

end Topology

end Lookout
