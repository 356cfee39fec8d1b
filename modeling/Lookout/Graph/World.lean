-- SUMMARY: The live objects and the graph they ask for, and that applying deltas keeps the identity-level machine faithful to them.
import Lookout.Graph.Topology

/-!
# The live objects

`World` is the specification side: the objects that are alive, and the edges that
they ask for. It has no history. An edge is there because some live object
declares it, and each edge has one possible declarer, which its kind and its ends
determine.

Each delta changes what lives at one key. `Topology.reconcile` states its work
once for all objects, with nothing alive as the case of a delete. `Agrees` is the
part of the invariant about edges, declarations and tables, and it holds in every
run. `Populated` is the part about nodes. Only the last part, that both ends of
every edge are nodes, depends on how a delta swaps edges.
-/

namespace Lookout

open NodeKind

variable {kind : NodeKind} {k key : GoString}

/-! ## Declarers -/

/-- The identity key belongs to this kind. -/
def HasKind (x : GoString) (k : NodeKind) : Prop := ∃ ns name, x = nodeKey k ns name

theorem hasKind_nodeKey (k : NodeKind) (ns name : GoString) : HasKind (nodeKey k ns name) k :=
  ⟨ns, name, rfl⟩

theorem HasKind.unique {x : GoString} {k k' : NodeKind} (h : HasKind x k) (h' : HasKind x k') :
    k = k' := by
  obtain ⟨ns, name, rfl⟩ := h
  obtain ⟨ns', name', h'⟩ := h'
  exact nodeKey_kind h'

open Classical in
/-- The only object that can declare an edge. Owned objects declare their owners, and an
    EndpointSlice declares its service. Every other edge is declared at its source. -/
noncomputable def KeyEdge.declarer (e : KeyEdge) : GoString :=
  match e.kind with
  | .owns => e.dst
  | .routesTo => if HasKind e.dst .endpointSlice then e.dst else e.src
  | _ => e.src

/-- The kind of edge that leads to a derived node. -/
def NodeKind.derivedEdge : NodeKind → EdgeKind
  | .zone => .runsOn
  | _ => .contains

/-- What edge derivation guarantees about the links of an object of kind `owner`. -/
structure Link.Proper (owner : NodeKind) (l : Link) : Prop where
  inward : l.inbound = true → l.edge = .owns ∨ l.edge = .routesTo ∧ owner = .endpointSlice
  outward : l.inbound = false → l.edge ≠ .owns ∧ (l.edge = .routesTo → l.kind ≠ .endpointSlice)
  unselected : l.edge ≠ .selects ∧ l.edge ≠ .governs
  derived : l.derived = true ↔ l.kind.Derived
  derivedEdge : l.kind.Derived → l.inbound = false ∧ l.edge = l.kind.derivedEdge

variable {l : Link} {ref : NodeKind × GoString}

theorem Link.Proper.declarer {self : GoString} (h : l.Proper kind) (hself : HasKind self kind) :
    (l.edgeAt self).declarer = self := by
  unfold edgeAt KeyEdge.declarer
  cases hin : l.inbound with
  | true =>
    rcases h.inward hin with hedge | ⟨hedge, rfl⟩
    · simp [hedge]
    · simp [hedge, hself]
  | false =>
    obtain ⟨hedge, hslice⟩ := h.outward hin
    have hdst : l.edge = .routesTo → ¬ HasKind l.key .endpointSlice :=
      fun hr hk => hslice hr ((hasKind_nodeKey l.kind l.ns.text l.name).unique hk)
    cases hl : l.edge <;> simp_all

theorem ownerLinks_proper {m : ObjectMeta} (hl : l ∈ ownerLinks m) (self : NodeKind) :
    l.Proper self := by
  obtain ⟨ref, -, href⟩ := List.mem_filterMap.1 hl
  obtain ⟨kind, hkind, rfl⟩ := Option.map_eq_some_iff.1 href
  have hnot : ¬ kind.Derived := by
    have hall : ∀ p ∈ ownerNodeKinds, ¬ p.2.Derived := by decide
    obtain ⟨l₁, l₂, hsplit, -⟩ := List.lookup_eq_some_iff.1 hkind
    exact hall (ref.kind, kind) (hsplit ▸ by simp)
  exact ⟨by simp, by simp, by simp, by simp [hnot], fun h => absurd h hnot⟩

theorem mountLink_proper (ns : PathSegment) (href : ¬ ref.1.Derived) (owner : NodeKind) :
    (mountLink ns ref).Proper owner :=
  ⟨by simp [mountLink], by simp [mountLink], by simp [mountLink], by simp [mountLink, href],
    fun h => absurd h href⟩

theorem configRefs_kind {cm sec : Option GoString}
    (href : ref ∈ (cm.map (configMap, ·)).toList ++
      (sec.map (secret, ·)).toList) : ¬ ref.1.Derived := by
  simp only [List.mem_append, Option.mem_toList, Option.map_eq_some_iff] at href
  rcases href with ⟨name, -, rfl⟩ | ⟨name, -, rfl⟩
  · simp [Derived]
  · simp [Derived]

theorem Container.mountRefs_kind {c : Container} (href : ref ∈ c.mountRefs) : ¬ ref.1.Derived := by
  simp only [Container.mountRefs, List.mem_append, List.mem_flatMap] at href
  rcases href with ⟨valueFrom, -, href⟩ | ⟨src, -, href⟩
  · split at href
    · cases href
    · exact configRefs_kind href
  · exact configRefs_kind (List.mem_append.2 href)

theorem Volume.mountRefs_kind {v : Volume} (href : ref ∈ v.mountRefs) : ¬ ref.1.Derived := by
  unfold Volume.mountRefs at href
  split at href
  · obtain rfl := List.mem_singleton.1 href
    simp [Derived]
  · obtain rfl := List.mem_singleton.1 href
    simp [Derived]
  · obtain rfl := List.mem_singleton.1 href
    simp [Derived]
  · obtain ⟨src, -, href⟩ := List.mem_flatMap.1 href
    exact configRefs_kind href
  · cases href

theorem Pod.links_proper {pod : Pod} (hl : l ∈ pod.links) : l.Proper .pod := by
  simp only [Pod.links, List.mem_append, List.mem_flatMap, List.mem_map] at hl
  rcases hl with ((hl | hl) | ⟨c, -, hl⟩) | ⟨ref, ⟨v, -, href⟩, rfl⟩
  · exact ownerLinks_proper hl _
  · split at hl
    · cases hl
    · obtain rfl := List.mem_singleton.1 hl
      constructor <;> simp [Derived]
  · rcases List.mem_cons.1 hl with rfl | hl
    · constructor <;> simp [Derived, derivedEdge]
    · obtain ⟨ref, href, rfl⟩ := List.mem_map.1 hl
      exact mountLink_proper _ (Container.mountRefs_kind href) _
  · exact mountLink_proper _ (Volume.mountRefs_kind href) _

theorem EndpointSlice.links_proper {eps : EndpointSlice} (hl : l ∈ eps.links) :
    l.Proper .endpointSlice := by
  simp only [EndpointSlice.links, List.mem_append, List.mem_filterMap] at hl
  rcases hl with (hl | hl) | ⟨ref, -, hl⟩
  · exact ownerLinks_proper hl _
  · split at hl
    · cases hl
    · obtain rfl := List.mem_singleton.1 hl
      constructor <;> simp [Derived]
  · split at hl
    · cases hl
    · split at hl
      · cases hl
      · obtain rfl := Option.some.inj hl
        constructor <;> simp [Derived]

theorem Ingress.links_proper {ing : Ingress} (hl : l ∈ ing.links) : l.Proper .ingress := by
  simp only [Ingress.links, List.mem_append, List.mem_filterMap] at hl
  rcases hl with hl | ⟨backend, -, hl⟩
  · exact ownerLinks_proper hl _
  · unfold backendLink at hl
    split at hl
    · cases hl
    · split at hl
      · cases hl
      · obtain rfl := Option.some.inj hl
        constructor <;> simp [Derived]

theorem Node.links_proper {n : Node} (hl : l ∈ n.links) : l.Proper .node := by
  simp only [Node.links, List.mem_append] at hl
  rcases hl with hl | hl
  · exact ownerLinks_proper hl _
  · split at hl
    · cases hl
    · obtain rfl := List.mem_singleton.1 hl
      constructor <;> simp [Derived, derivedEdge]

variable [Platform] {o : Object}

theorem Object.links_proper (hl : l ∈ o.links) : l.Proper o.kind := by
  cases o with
  | pod p => exact Pod.links_proper hl
  | node n => exact Node.links_proper hl
  | endpointSlice eps => exact EndpointSlice.links_proper hl
  | ingress ing => exact Ingress.links_proper hl
  | _ => exact ownerLinks_proper hl _

theorem Object.kind_not_derived (o : Object) : ¬ o.kind.Derived := by
  cases o <;> simp [Object.kind, Derived]

/-- The labels a pod is matched by. -/
def Object.podLabels : Object → Option Labels
  | .pod p => some p.metadata.labels
  | _ => none

/-- The selector an object registers. -/
def Object.entry : Object → Option SelEntry
  | .service svc => Build.serviceEntry svc
  | .networkPolicy np => Build.policyEntry np
  | _ => none

theorem Object.kind_of_podLabels (h : o.podLabels ≠ none) : o.kind = .pod := by
  cases o with
  | pod p => rfl
  | _ => exact absurd rfl h

theorem Object.kind_of_entry (h : o.entry ≠ none) :
    o.kind = .service ∨ o.kind = .networkPolicy := by
  cases o with
  | service svc => exact .inl rfl
  | networkPolicy np => exact .inr rfl
  | _ => exact absurd rfl h

theorem Object.entry_kind {ent : SelEntry} (h : o.entry = some ent) :
    ent.kind = .selects ∨ ent.kind = .governs := by
  cases o with
  | service svc =>
    simp only [Object.entry, Build.serviceEntry] at h
    split at h
    · cases h
    · cases h
      exact .inl rfl
  | networkPolicy np =>
    obtain ⟨sel, -, rfl⟩ := Option.map_eq_some_iff.1 h
    exact .inr rfl
  | _ => cases h

/-! ## Worlds -/

/-- The live objects by key. -/
structure World where
  get : GoString → Option Object
  keyed : ∀ key o, get key = some o → o.key = key

variable {W : World}

namespace World

variable (W)

def empty : World := ⟨fun _ => none, by simp⟩

/-- Replace what lives at `key`. -/
def set (key : GoString) (o : Option Object) (ho : ∀ x ∈ o, x.key = key) : World where
  get := Function.update W.get key o
  keyed := by
    intro k x hx
    by_cases hk : k = key
    · subst hk
      rw [Function.update_self] at hx
      exact ho x hx
    · rw [Function.update_of_ne hk] at hx
      exact W.keyed k x hx

@[simp] theorem get_set_self (key : GoString) (o : Option Object)
    (ho : ∀ x ∈ o, x.key = key) : (W.set key o ho).get key = o :=
  Function.update_self ..

variable {d : Delta} {e : KeyEdge}

theorem get_set_of_ne {o : Option Object} {ho : ∀ x ∈ o, x.key = key} (hk : k ≠ key) :
    (W.set key o ho).get k = W.get k :=
  Function.update_of_ne hk ..

@[ext] theorem ext_get {W W' : World} (h : ∀ key, W.get key = W'.get key) : W = W' := by
  obtain ⟨get, _⟩ := W
  obtain ⟨get', _⟩ := W'
  obtain rfl : get = get' := funext h
  rfl

/-- What a delta leaves alive of its object. -/
def survivor (d : Delta) : Option Object := if d.op = .delete then none else some d.object

theorem survivor_key (d : Delta) : ∀ x ∈ survivor d, x.key = d.object.key := by
  intro x hx
  unfold survivor at hx
  split at hx
  · cases hx
  · cases hx
    rfl

/-- The live objects after a delta. -/
def apply (d : Delta) : World := W.set d.object.key (survivor d) (survivor_key d)

theorem apply_delete (hop : d.op = .delete) :
    W.apply d = W.set d.object.key none (by simp) := by
  simp only [apply, survivor, hop, if_true]

theorem apply_upsert (hop : d.op ≠ .delete) :
    W.apply d = W.set d.object.key (some d.object) (by simp) := by
  simp only [apply, survivor, hop, if_false]

/-- The last delta of an object decides. -/
theorem apply_apply {d' : Delta} (h : d.object.key = d'.object.key) :
    (W.apply d).apply d' = W.apply d' := by
  refine ext_get fun key => ?_
  by_cases hk : key = d'.object.key
  · subst hk
    exact (get_set_self ..).trans (get_set_self ..).symm
  · exact (get_set_of_ne _ hk).trans ((get_set_of_ne W (h ▸ hk)).trans (get_set_of_ne W hk).symm)

/-- A table by namespace of what the live objects provide. -/
def table {α : Type} (W : World) (f : Object → Option α) (ns key : GoString) : Option α :=
  (W.get key).bind fun o => if o.metadata.ns.text = ns then f o else none

def labels : GoString → GoString → Option Labels := W.table Object.podLabels

def selectors : GoString → GoString → Option SelEntry := W.table Object.entry

/-- The edges an object asks for. -/
def asked (o : Object) : Set KeyEdge :=
  linkEdges o.key o.links ∪ {e | ∃ ent ∈ o.entry, ∃ pod l, W.labels o.metadata.ns.text pod = some l ∧
    Platform.matchesLabels ent.sel l = true ∧ e = ⟨o.key, pod, ent.kind⟩}

/-- The edges the object at `key` declares. -/
def declared (key : GoString) : Set KeyEdge := {e | ∃ o ∈ W.get key, e ∈ W.asked o}

/-- The edges of the graph. -/
def edges : Set KeyEdge := {e | ∃ key, e ∈ W.declared key}

variable {W}

theorem keyed_hasKind {o : Object} (h : W.get key = some o) : HasKind key o.kind :=
  W.keyed key o h ▸ hasKind_nodeKey ..

/-- Every edge of a live object names the object as its declarer. -/
theorem declarer_of_mem (h : e ∈ W.declared key) : e.declarer = key := by
  obtain ⟨o, ho, he⟩ := h
  rw [← W.keyed key o ho]
  rcases he with ⟨l, hl, rfl⟩ | ⟨ent, hent, pod, _, -, -, rfl⟩
  · exact (Object.links_proper hl).declarer (hasKind_nodeKey ..)
  · rcases Object.entry_kind hent with hk | hk <;> simp [KeyEdge.declarer, hk]

theorem mem_edges_iff : e ∈ W.edges ↔ e ∈ W.declared e.declarer := by
  constructor
  · rintro ⟨key, he⟩
    rwa [declarer_of_mem he]
  · exact fun he => ⟨_, he⟩

section set

variable {ns name : GoString} {o : Option Object} {ho : ∀ x ∈ o, x.key = key}

/-- An object's key determines its namespace. -/
theorem ns_of_key {x : Object} (hns : slash ∉ ns) (hx : x.key = nodeKey kind ns name) :
    x.metadata.ns.text = ns :=
  (nodeKey_injective x.metadata.ns.noSlash hns hx).2.1

theorem table_of_ne {α : Type} {f : Object → Option α} {ns' : GoString} (hk : k ≠ key) :
    (W.set key o ho).table f ns' k = W.table f ns' k := by
  rw [table, table, get_set_of_ne W hk]

/-- Replacing what lives at a key changes one entry of one namespace's table. -/
theorem table_set {α : Type} (f : Object → Option α) (hns : slash ∉ ns)
    (hkey : key = nodeKey kind ns name) :
    (W.set key o ho).table f =
      Function.update (W.table f) ns (Function.update (W.table f ns) key (o.bind f)) := by
  funext ns' k
  by_cases hn : ns' = ns
  · subst hn
    rw [Function.update_self]
    by_cases hk : k = key
    · subst hk
      rw [Function.update_self, table, get_set_self]
      cases o with
      | none => rfl
      | some x => simp [ns_of_key hns ((ho x rfl).trans hkey)]
    · rw [Function.update_of_ne hk, table_of_ne hk]
  · rw [Function.update_of_ne hn]
    by_cases hk : k = key
    · -- Neither the old nor the new object lives in another namespace.
      subst hk
      have hother : ∀ x : Object, x.key = k → x.metadata.ns.text ≠ ns' :=
        fun x hx h => hn ((ns_of_key hns (hx.trans hkey)).symm.trans h).symm
      rw [table, table, get_set_self]
      have hnew : (o.bind fun x => if x.metadata.ns.text = ns' then f x else none) = none := by
        cases o with
        | none => rfl
        | some x => simp [hother x (ho x rfl)]
      have hold : ((W.get k).bind fun x => if x.metadata.ns.text = ns' then f x else none) = none := by
        cases hx : W.get k with
        | none => rfl
        | some x => simp [hother x (W.keyed k x hx)]
      rw [hnew, hold]
    · exact table_of_ne hk

end set

end World

open Object (entry entry_kind key kind)

/-! ## Maintenance is faithful to the live objects -/

variable {key name ns pod src : GoString} {T : Topology} {e : KeyEdge} {ent : SelEntry}
  {o : Option Object} {x : Object} {W : World} {kind : NodeKind}

namespace Topology

/-! ## Edges and their declarers -/

/-- The edges are those that their declarers declare. -/
def Owned (T : Topology) : Prop := ∀ e, e ∈ T.edges ↔ e ∈ T.declared e.declarer

theorem Owned.setDeclared {want : Set KeyEdge} (h : T.Owned)
    (hold : ∀ e ∈ T.declared key, e.declarer = key) (hwant : ∀ e ∈ want, e.declarer = key) :
    (T.setDeclared key want).Owned := by
  intro e
  change e ∈ (T.edges \ (T.declared key \ want)) ∪ (want \ T.declared key) ↔
    e ∈ Function.update T.declared key want e.declarer
  have hmem := h e
  by_cases hkey : e.declarer = key
  · rw [hkey, Function.update_self]
    rw [hkey] at hmem
    simp only [Set.mem_union, Set.mem_sdiff]
    tauto
  · have h1 := mt (hold e) hkey
    have h2 := mt (hwant e) hkey
    rw [Function.update_of_ne hkey, ← hmem]
    simp only [Set.mem_union, Set.mem_sdiff]
    tauto

theorem setLabels_eq_self {labels : Option Labels} (h : T.podLabels ns pod = labels) :
    T.setLabels ns pod labels = T := by
  rw [setLabels, ← h, Function.update_eq_self, Function.update_eq_self]

theorem setSelector_eq_self {ent : Option SelEntry} (h : T.selectors ns src = ent) :
    T.setSelector ns src ent = T := by
  rw [setSelector, ← h, Function.update_eq_self, Function.update_eq_self]

section reselect

variable {want : SelEntry → Bool}

/-- After re-evaluation a source declares the edge to the pod exactly when it is wanted. -/
theorem mem_reselect_declared :
    e ∈ (T.reselect ns pod want).declared src ↔
      (e ∈ T.declared src ∧
        ¬ ∃ ent, T.selectors ns src = some ent ∧ want ent = false ∧ e = ⟨src, pod, ent.kind⟩) ∨
      ∃ ent, T.selectors ns src = some ent ∧ want ent = true ∧ e = ⟨src, pod, ent.kind⟩ := by
  constructor
  · rintro ⟨h | ⟨⟨src', -, ent, hent, hwant, rfl, -⟩, rfl⟩, hstale⟩
    · refine .inl ⟨h, ?_⟩
      rintro ⟨ent, hent, hwant, rfl⟩
      exact hstale ⟨⟨src, trivial, ent, hent, hwant, rfl, h⟩, rfl⟩
    · exact .inr ⟨ent, hent, hwant, rfl⟩
  · rintro (⟨h, hstale⟩ | ⟨ent, hent, hwant, rfl⟩)
    · refine ⟨.inl h, ?_⟩
      rintro ⟨⟨src', -, ent, hent, hwant, rfl, -⟩, rfl⟩
      exact hstale ⟨ent, hent, hwant, rfl⟩
    · refine ⟨?_, ?_⟩
      · by_cases h : ⟨src, pod, ent.kind⟩ ∈ T.declared src
        · exact .inl h
        · exact .inr ⟨⟨src, trivial, ent, hent, hwant, rfl, h⟩, rfl⟩
      · rintro ⟨⟨src', -, ent', hent', hwant', heq, -⟩, -⟩
        simp only [KeyEdge.mk.injEq] at heq
        rw [← heq.1, hent] at hent'
        cases hent'
        rw [hwant] at hwant'
        cases hwant'

theorem Owned.reselect (h : T.Owned)
    (hsel : ∀ src ent, T.selectors ns src = some ent →
      (⟨src, pod, ent.kind⟩ : KeyEdge).declarer = src) :
    (T.reselect ns pod want).Owned := by
  intro e
  have hmem := h e
  change (e ∈ T.edges ∨ e ∈ T.missingEdges ns pod want Set.univ) ∧
      e ∉ T.staleEdges ns pod want Set.univ ↔
    (e ∈ T.declared e.declarer ∨ e ∈ T.missingEdges ns pod want Set.univ ∧ e.src = e.declarer) ∧
      ¬ (e ∈ T.staleEdges ns pod want Set.univ ∧ e.src = e.declarer)
  have hm : e ∈ T.missingEdges ns pod want Set.univ → e.src = e.declarer := by
    rintro ⟨src, -, ent, hent, -, rfl, -⟩
    exact (hsel src ent hent).symm
  have hs : e ∈ T.staleEdges ns pod want Set.univ → e.src = e.declarer := by
    rintro ⟨src, -, ent, hent, -, rfl, -⟩
    exact (hsel src ent hent).symm
  tauto

end reselect

/-! ## One object's part of the graph -/

/-- The edges the object at `key` asks for, with the labels at hand. -/
def wanted (T : Topology) (ns key : GoString) (o : Option Object) : Set KeyEdge :=
  {e | ∃ x ∈ o, e ∈ linkEdges key x.links} ∪
    {e | ∃ ent ∈ o.bind entry, e ∈ T.selectedEdges ns key ent}

/-- Bring the graph in line with what now lives at `key`. -/
noncomputable def reconcile (T : Topology) (ns key : GoString) (o : Option Object) : Topology :=
  let T := T.setSelector ns key (o.bind entry)
  let T := T.setDeclared key (T.wanted ns key o)
  (T.setLabels ns key (o.bind Object.podLabels)).reselect ns key fun ent =>
    (o.bind Object.podLabels).any (Platform.matchesLabels ent.sel)

/-- An object appears or changes. -/
noncomputable def put (T : Topology) (o : Object) : Topology :=
  ((T.addNode o.kind o.metadata.ns.text o.metadata.name).declare o.key o.kind o.links).reconcile
    o.metadata.ns.text o.key (some o)

/-- An object is gone. -/
noncomputable def remove (T : Topology) (o : Object) : Topology :=
  ((T.addNode o.kind o.metadata.ns.text o.metadata.name).reconcile
    o.metadata.ns.text o.key none).markDeleted o.key

end Topology

/-- The edges, declarations and tables of `T` are those of the live objects. -/
structure Agrees (W : World) (T : Topology) : Prop where
  declared : T.declared = W.declared
  owned : T.Owned
  podLabels : T.podLabels = W.labels
  selectors : T.selectors = W.selectors

theorem Agrees.edges (h : Agrees W T) : T.edges = W.edges := by
  ext e
  rw [h.owned, h.declared, World.mem_edges_iff]

namespace World

variable {ho : ∀ x ∈ o, x.key = key}

theorem not_hasKind_pod (hkind : HasKind key x.kind) (hent : x.entry = some ent) :
    ¬ HasKind key .pod := by
  intro hp
  have hk := hkind.unique hp
  rcases Object.kind_of_entry (Option.ne_none_iff_exists'.2 ⟨ent, hent⟩) with h | h
  · cases hk.symm.trans h
  · cases hk.symm.trans h

theorem podLabels_eq_none (hkind : HasKind key x.kind) (hpod : ¬ HasKind key .pod) :
    x.podLabels = none := by
  by_contra hne
  exact hpod (Object.kind_of_podLabels hne ▸ hkind)

theorem entry_of_selectors (h : W.selectors ns src = some ent) :
    ∃ x, W.get src = some x ∧ x.metadata.ns.text = ns ∧ x.entry = some ent := by
  obtain ⟨x, hx, hent⟩ := Option.bind_eq_some_iff.1 h
  split at hent
  · next hns => exact ⟨x, hx, hns, hent⟩
  · cases hent

theorem selectors_of_entry (hx : W.get src = some x) :
    W.selectors x.metadata.ns.text src = x.entry := by
  simp [selectors, table, hx]

/-- Only pods are matched by labels. -/
theorem labels_eq_none (hpod : ¬ HasKind pod .pod) : W.labels ns pod = none := by
  refine Option.bind_eq_none_iff.2 fun x hx => ?_
  rw [podLabels_eq_none (keyed_hasKind hx) hpod, ite_self]

theorem selector_declarer (h : W.selectors ns src = some ent) (pod : GoString) :
    (⟨src, pod, ent.kind⟩ : KeyEdge).declarer = src := by
  obtain ⟨x, -, -, hent⟩ := entry_of_selectors h
  rcases entry_kind hent with hk | hk <;> simp [KeyEdge.declarer, hk]

theorem not_mem_linkEdges {self : GoString} (he : e ∈ linkEdges self x.links) :
    ¬ (e.kind = .selects ∨ e.kind = .governs) := by
  obtain ⟨l, hl, rfl⟩ := he
  obtain ⟨h1, h2⟩ := (Object.links_proper hl).unselected
  have hkind : (l.edgeAt self).kind = l.edge := by
    unfold Link.edgeAt
    split <;> rfl
  rw [hkind]
  exact not_or.2 ⟨h1, h2⟩

/-- A selector edge leads to a pod. -/
theorem hasKind_dst (he : e ∈ W.declared src) (hk : e.kind = .selects ∨ e.kind = .governs) :
    HasKind e.dst .pod := by
  obtain ⟨x, -, he | ⟨ent, -, pod, l, hlabels, -, rfl⟩⟩ := he
  · exact absurd hk (not_mem_linkEdges he)
  · by_contra hpod
    rw [labels_eq_none hpod] at hlabels
    cases hlabels

section

variable (hns : slash ∉ ns) (hkey : key = nodeKey kind ns name)

include hns hkey

theorem labels_set_self : (W.set key o ho).labels ns key = o.bind Object.podLabels := by
  rw [labels, table_set Object.podLabels hns hkey, Function.update_self, Function.update_self]

theorem labels_set_other {ns' : GoString} (hne : ¬ (ns' = ns ∧ pod = key)) :
    (W.set key o ho).labels ns' pod = W.labels ns' pod := by
  rw [labels, table_set Object.podLabels hns hkey]
  by_cases hn : ns' = ns
  · subst hn
    rw [Function.update_self, Function.update_of_ne fun hp => hne ⟨rfl, hp⟩]
    rfl
  · rw [Function.update_of_ne hn]
    rfl

/-- An object with a selector has no labels that count, neither before nor after. -/
theorem labels_set_of_entry (hx : x ∈ o) (hent : x.entry = some ent) :
    (W.set key o ho).labels = W.labels := by
  have hxkind : HasKind key x.kind := ho x hx ▸ hasKind_nodeKey ..
  have hpod := not_hasKind_pod hxkind hent
  have hold : W.labels ns key = none := labels_eq_none hpod
  have hnew : o.bind Object.podLabels = none := by
    rw [Option.mem_def.1 hx, Option.bind_some, podLabels_eq_none hxkind hpod]
  rw [labels, table_set Object.podLabels hns hkey, hnew, ← hold]
  change Function.update W.labels ns (Function.update (W.labels ns) key (W.labels ns key)) = _
  rw [Function.update_eq_self, Function.update_eq_self]

end

end World

section agree

/-- What the machine wants for `key` is what the new world declares there. -/
theorem World.wanted_eq (hlabels : T.podLabels = W.labels) (hns : slash ∉ ns)
    (hkey : key = nodeKey kind ns name) (ho : ∀ x ∈ o, x.key = key) :
    T.wanted ns key o = (W.set key o ho).declared key := by
  cases o with
  | none => simp [Topology.wanted, World.declared]
  | some x =>
    have hwanted : T.wanted ns key (some x) = (W.set key (some x) ho).asked x := by
      have hent : ∀ ent ∈ x.entry, (W.set key (some x) ho).labels = T.podLabels := fun ent hent =>
        (World.labels_set_of_entry hns hkey rfl hent).trans hlabels.symm
      ext e
      simp only [Topology.wanted, World.asked, ho,
        World.ns_of_key hns ((ho x rfl).trans hkey), Option.mem_def, Option.some.injEq,
        exists_eq_left']
      refine or_congr Iff.rfl (exists_congr fun ent => and_congr_right fun hx => ?_)
      rw [hent ent hx]
      rfl
    rw [hwanted]
    simp [World.declared]

/-- The selector edges of the object at `key` itself need no re-evaluation. -/
theorem World.reselect_self (ho : ∀ x ∈ o, x.key = key)
    (hent : (W.set key o ho).selectors ns key = some ent) :
    (o.bind Object.podLabels).any (Platform.matchesLabels ent.sel) = false ∧
      (⟨key, key, ent.kind⟩ : KeyEdge) ∉ (W.set key o ho).declared key := by
  obtain ⟨x, hx, -, hxent⟩ := entry_of_selectors hent
  have hkind := keyed_hasKind hx
  have hpod := not_hasKind_pod hkind hxent
  rw [get_set_self] at hx
  constructor
  · rw [hx, Option.bind_some, podLabels_eq_none hkind hpod, Option.any_none]
  · intro hmem
    exact hpod (hasKind_dst hmem (entry_kind hxent))

/-- The selectors of other objects gain and lose the edge to `key` by its labels. -/
theorem World.mem_declared_set (hns : slash ∉ ns) (hkey : key = nodeKey kind ns name)
    (ho : ∀ x ∈ o, x.key = key) (hsrc : src ≠ key) :
    e ∈ (W.set key o ho).declared src ↔
      (e ∈ W.declared src ∧ ¬ ∃ ent, (W.set key o ho).selectors ns src = some ent ∧
        (o.bind Object.podLabels).any (Platform.matchesLabels ent.sel) = false ∧
        e = ⟨src, key, ent.kind⟩) ∨
      ∃ ent, (W.set key o ho).selectors ns src = some ent ∧
        (o.bind Object.podLabels).any (Platform.matchesLabels ent.sel) = true ∧
        e = ⟨src, key, ent.kind⟩ := by
  have hget : (W.set key o ho).get src = W.get src := W.get_set_of_ne hsrc
  have hhere : (W.set key o ho).labels ns key = o.bind Object.podLabels :=
    labels_set_self hns hkey
  constructor
  · rintro ⟨x, hx, he⟩
    have hxkey := (W.set key o ho).keyed src x hx
    rcases he with he | ⟨ent, hent, pod, l, hl, hm, rfl⟩
    · -- A link is not a selector edge.
      refine .inl ⟨⟨x, hget ▸ hx, .inl he⟩, ?_⟩
      rintro ⟨ent, hent, -, rfl⟩
      obtain ⟨x', -, -, hent'⟩ := entry_of_selectors hent
      exact not_mem_linkEdges he (entry_kind hent')
    · by_cases hat : x.metadata.ns.text = ns ∧ pod = key
      · obtain ⟨hxns, rfl⟩ := hat
        rw [hxns, hhere] at hl
        refine .inr ⟨ent, ?_, by simpa [hl] using hm, by rw [hxkey]⟩
        rw [← hxns, selectors_of_entry hx]
        exact hent
      · rw [labels_set_other hns hkey hat] at hl
        refine .inl ⟨⟨x, hget ▸ hx, .inr ⟨ent, hent, pod, l, hl, hm, rfl⟩⟩, ?_⟩
        rintro ⟨ent', hent', -, heq⟩
        obtain ⟨x', hx', hxns, -⟩ := entry_of_selectors hent'
        cases Option.some.inj (hx.symm.trans hx')
        exact hat ⟨hxns, (KeyEdge.mk.inj heq).2.1⟩
  · rintro (⟨⟨x, hx, he⟩, hkept⟩ | ⟨ent, hent, hany, rfl⟩)
    · have hxkey := W.keyed src x hx
      rw [Option.mem_def, ← hget] at hx
      refine ⟨x, hx, ?_⟩
      rcases he with he | ⟨ent, hent, pod, l, hl, hm, rfl⟩
      · exact .inl he
      · refine .inr ⟨ent, hent, pod, ?_⟩
        by_cases hat : x.metadata.ns.text = ns ∧ pod = key
        · obtain ⟨hxns, rfl⟩ := hat
          have hsel : (W.set pod o ho).selectors ns src = some ent := by
            rw [← hxns, selectors_of_entry hx]
            exact hent
          cases hany : (o.bind Object.podLabels).any (Platform.matchesLabels ent.sel) with
          | false => exact absurd ⟨ent, hsel, hany, by rw [hxkey]⟩ hkept
          | true =>
            obtain ⟨l', hl', hm'⟩ := (Option.any_eq_true _ _).1 hany
            exact ⟨l', by rw [hxns, hhere, hl'], hm', rfl⟩
        · exact ⟨l, by rw [labels_set_other hns hkey hat, hl], hm, rfl⟩
    · obtain ⟨x, hx, hxns, hxent⟩ := entry_of_selectors hent
      obtain ⟨l, hl, hm⟩ := (Option.any_eq_true _ _).1 hany
      refine ⟨x, hx, .inr ⟨ent, hxent, key, l, by rw [hxns, hhere, hl], hm, ?_⟩⟩
      rw [(W.set key o ho).keyed src x hx]

/-- Re-evaluating every selector on `key` gives what the new world declares. -/
theorem World.reselect_declared (hns : slash ∉ ns) (hkey : key = nodeKey kind ns name)
    (ho : ∀ x ∈ o, x.key = key)
    (hdecl : T.declared = Function.update W.declared key ((W.set key o ho).declared key))
    (hsel : T.selectors = (W.set key o ho).selectors) :
    (T.reselect ns key fun ent => (o.bind Object.podLabels).any
      (Platform.matchesLabels ent.sel)).declared = (W.set key o ho).declared := by
  funext src
  ext e
  rw [Topology.mem_reselect_declared, hdecl, hsel]
  by_cases hsrc : src = key
  · subst hsrc
    rw [Function.update_self]
    constructor
    · rintro (⟨he, -⟩ | ⟨ent, hent, hany, -⟩)
      · exact he
      · rw [(reselect_self ho hent).1] at hany
        cases hany
    · intro he
      refine .inl ⟨he, ?_⟩
      rintro ⟨ent, hent, -, rfl⟩
      exact (reselect_self ho hent).2 he
  · rw [Function.update_of_ne hsrc, ← mem_declared_set hns hkey ho hsrc]

section

variable (h : Agrees W T) (hns : slash ∉ ns) (hkey : key = nodeKey kind ns name)
  (ho : ∀ x ∈ o, x.key = key)

include h hns hkey ho

theorem Agrees.setSelector :
    (T.setSelector ns key (o.bind entry)).selectors = (W.set key o ho).selectors := by
  rw [World.selectors, World.table_set entry hns hkey]
  change Function.update T.selectors ns (Function.update (T.selectors ns) key _) = _
  rw [h.selectors]
  rfl

/-- Reconciling follows the live objects. -/
theorem Agrees.reconcile : Agrees (W.set key o ho) (T.reconcile ns key o) := by
  have hsel := h.setSelector hns hkey ho
  have hwant : (T.setSelector ns key (o.bind entry)).wanted ns key o =
      (W.set key o ho).declared key :=
    World.wanted_eq h.podLabels hns hkey ho
  have hdecl : Function.update T.declared key ((W.set key o ho).declared key) =
      Function.update W.declared key ((W.set key o ho).declared key) := by
    rw [h.declared]
  unfold Topology.reconcile
  simp only [hwant]
  refine ⟨?_, ?_, ?_, hsel⟩
  · exact World.reselect_declared hns hkey ho hdecl hsel
  · refine Topology.Owned.reselect (Topology.Owned.setDeclared h.owned ?_ ?_) ?_
    · intro e he
      exact World.declarer_of_mem (W := W) (h.declared ▸ he)
    · exact fun e he => World.declarer_of_mem he
    · intro src ent hent
      exact World.selector_declarer (W := W.set key o ho) (hsel ▸ hent) key
  · rw [World.labels, World.table_set Object.podLabels hns hkey]
    change Function.update T.podLabels ns (Function.update (T.podLabels ns) key _) = _
    rw [h.podLabels]
    rfl

/-- No selector edge leads to an object that is no pod. -/
theorem Agrees.staleEdges_of_not_pod (hpod : ¬ HasKind key .pod) (want : SelEntry → Bool) :
    ((T.setSelector ns key (o.bind entry)).setDeclared key
      (T.wanted ns key o)).staleEdges ns key want Set.univ = ∅ := by
  ext e
  refine iff_of_false ?_ (Set.notMem_empty e)
  rintro ⟨src, -, ent, hent, -, rfl, hmem⟩
  change (T.setSelector ns key (o.bind entry)).selectors ns src = some ent at hent
  rw [h.setSelector hns hkey ho] at hent
  obtain ⟨x, -, -, hxent⟩ := World.entry_of_selectors hent
  change _ ∈ Function.update T.declared key (T.wanted ns key o) src at hmem
  by_cases hsrc : src = key
  · subst hsrc
    rw [Function.update_self, World.wanted_eq h.podLabels hns hkey ho] at hmem
    exact hpod (World.hasKind_dst hmem (entry_kind hxent))
  · rw [Function.update_of_ne hsrc, h.declared] at hmem
    exact hpod (World.hasKind_dst hmem (entry_kind hxent))

/-- An object that is no pod changes nothing about labels. -/
theorem Agrees.reconcile_of_not_pod (hkind : kind ≠ .pod) :
    T.reconcile ns key o = (T.setSelector ns key (o.bind entry)).setDeclared key
      (T.wanted ns key o) := by
  have hpod : ¬ HasKind key .pod :=
    fun hp => hkind ((hkey ▸ hasKind_nodeKey kind ns name : HasKind key kind).unique hp)
  have hnew : o.bind Object.podLabels = none := by
    have hset : (W.set key o ho).labels ns key = o.bind Object.podLabels :=
      World.labels_set_self hns hkey
    exact hset.symm.trans (World.labels_eq_none hpod)
  have hstale := h.staleEdges_of_not_pod hns hkey ho hpod fun _ => false
  have hold : T.podLabels ns key = none := by
    rw [h.podLabels, World.labels_eq_none hpod]
  unfold Topology.reconcile
  simp only [hnew]
  rw [Topology.setLabels_eq_self (by exact hold)]
  -- Nothing is wanted, and nothing is stale.
  refine Topology.reselectOn_eq_self ?_ hstale
  ext e
  refine iff_of_false ?_ (Set.notMem_empty e)
  rintro ⟨src, -, ent, -, ⟨⟩, -⟩

end

theorem Agrees.onlyNodes {T' : Topology} (h : Agrees W T) (hT : T.OnlyNodes T') : Agrees W T' := by
  rw [hT]
  exact ⟨h.declared, h.owned, h.podLabels, h.selectors⟩

theorem Object.entry_eq_none (hnot : x.kind ≠ .service ∧ x.kind ≠ .networkPolicy) :
    x.entry = none := by
  by_contra hne
  exact (Object.kind_of_entry hne).elim hnot.1 hnot.2

theorem Agrees.selectors_eq_none (h : Agrees W T) (ns : GoString) (hkind : HasKind key kind)
    (hnot : kind ≠ .service ∧ kind ≠ .networkPolicy) : T.selectors ns key = none := by
  rw [h.selectors]
  by_contra hne
  obtain ⟨ent, hent⟩ := Option.ne_none_iff_exists'.1 hne
  obtain ⟨x, hx, -, hxent⟩ := World.entry_of_selectors hent
  rw [hkind.unique (World.keyed_hasKind hx)] at hnot
  cases (Object.entry_eq_none hnot).symm.trans hxent

theorem Topology.wanted_none (T : Topology) (ns key : GoString) : T.wanted ns key none = ∅ := by
  simp [Topology.wanted]

/-- An object without a selector is reconciled by its links. -/
theorem Topology.wanted_of_entry (hent : x.entry = none) :
    T.wanted ns key (some x) = linkEdges key x.links := by
  simp [Topology.wanted, hent]

section

variable (h : Agrees W T)

include h

theorem Agrees.reconcile_none (hpod : x.kind ≠ .pod) :
    T.reconcile x.metadata.ns.text x.key none =
      (T.setSelector x.metadata.ns.text x.key none).setDeclared x.key ∅ := by
  have hkey : x.key = nodeKey x.kind x.metadata.ns.text x.metadata.name := rfl
  rw [h.reconcile_of_not_pod x.metadata.ns.noSlash hkey (by simp) hpod, Topology.wanted_none]
  rfl

theorem Agrees.reconcile_some (hpod : x.kind ≠ .pod) :
    T.reconcile x.metadata.ns.text x.key (some x) =
      (T.setSelector x.metadata.ns.text x.key x.entry).setDeclared x.key
        (T.wanted x.metadata.ns.text x.key (some x)) := by
  have hkey : x.key = nodeKey x.kind x.metadata.ns.text x.metadata.name := rfl
  exact h.reconcile_of_not_pod x.metadata.ns.noSlash hkey (by simp) hpod

theorem Agrees.applyLinks_eq (op : Op) (hpod : x.kind ≠ .pod)
    (hnot : x.kind ≠ .service ∧ x.kind ≠ .networkPolicy) :
    T.applyLinks op x.kind x.metadata x.links = if op = .delete then T.remove x else T.put x := by
  have hent := Object.entry_eq_none hnot
  have hadd := h.onlyNodes (Topology.onlyNodes_addNode T x.kind x.metadata.ns.text x.metadata.name)
  have hdecl := hadd.onlyNodes (Topology.onlyNodes_declare _ x.key x.kind x.links)
  have hkind : HasKind x.key x.kind := hasKind_nodeKey ..
  unfold Topology.applyLinks Topology.remove Topology.put
  split
  · rw [hadd.reconcile_none hpod,
      Topology.setSelector_eq_self (hadd.selectors_eq_none _ hkind hnot)]
    rfl
  · rw [hdecl.reconcile_some hpod, Topology.wanted_of_entry hent, hent,
      Topology.setSelector_eq_self (hdecl.selectors_eq_none _ hkind hnot)]
    rfl

theorem Agrees.applySelecting_eq (op : Op) (hpod : x.kind ≠ .pod)
    (hlinks : x.links = ownerLinks x.metadata) :
    T.applySelecting op x.kind x.metadata (ownerLinks x.metadata) x.entry =
      if op = .delete then T.remove x else T.put x := by
  have hadd := h.onlyNodes (Topology.onlyNodes_addNode T x.kind x.metadata.ns.text x.metadata.name)
  have hdecl := hadd.onlyNodes (Topology.onlyNodes_declare _ x.key x.kind x.links)
  unfold Topology.applySelecting Topology.remove Topology.put
  rw [← hlinks]
  split
  · rw [hadd.reconcile_none hpod]
    rfl
  · rw [hdecl.reconcile_some hpod]
    simp only [Topology.wanted, Option.mem_def, Option.some.injEq, exists_eq_left']
    rfl

theorem Agrees.applyPod_eq (op : Op) (pod : Pod) :
    T.applyPod op pod =
      if op = .delete then T.remove (.pod pod) else T.put (.pod pod) := by
  have hadd := h.onlyNodes (Topology.onlyNodes_addNode T .pod pod.metadata.ns.text pod.metadata.name)
  have hdecl := hadd.onlyNodes (Topology.onlyNodes_declare _
    (nodeKey .pod pod.metadata.ns.text pod.metadata.name) .pod pod.links)
  have hkind : HasKind (nodeKey .pod pod.metadata.ns.text pod.metadata.name) .pod :=
    hasKind_nodeKey ..
  have hsel1 := hadd.selectors_eq_none pod.metadata.ns.text hkind (by decide)
  have hsel2 := hdecl.selectors_eq_none pod.metadata.ns.text hkind (by decide)
  have hT1 := Topology.setSelector_eq_self hsel1
  have hT2 := Topology.setSelector_eq_self hsel2
  unfold Topology.applyPod Topology.remove Topology.put Topology.reconcile
  split
  · change _ = Topology.markDeleted (Topology.reselect (Topology.setLabels (Topology.setDeclared
      (Topology.setSelector _ _ _ none) _ (Topology.wanted _ _ _ none)) _ _ none) _ _ fun _ => false) _
    rw [Topology.wanted_none]
    simp only [kind, Object.metadata, key, hT1]
    rfl
  · change _ = Topology.reselect (Topology.setLabels (Topology.setDeclared
      (Topology.setSelector _ _ _ none) _ (Topology.wanted _ _ _ (some (.pod pod)))) _ _ _) _ _ _
    rw [Topology.wanted_of_entry rfl]
    simp only [kind, Object.metadata, key, Object.links, hT2]
    rfl

/-- Applying a delta is one of the two uniform operations. -/
theorem Agrees.apply_eq (d : Delta) :
    T.apply d = if d.op = .delete then T.remove d.object else T.put d.object := by
  obtain ⟨op, x⟩ := d
  cases x with
  | pod pod => exact h.applyPod_eq op pod
  | service svc | networkPolicy np => exact h.applySelecting_eq op (by simp [kind]) rfl
  | _ => exact h.applyLinks_eq op (by simp [kind]) (by simp [kind])

/-- Applying a delta follows the live objects. -/
theorem Agrees.apply (d : Delta) : Agrees (W.apply d) (T.apply d) := by
  have hkey : d.object.key = nodeKey d.object.kind d.object.metadata.ns.text
    d.object.metadata.name := rfl
  have hns := d.object.metadata.ns.noSlash
  have hadd := h.onlyNodes (Topology.onlyNodes_addNode T d.object.kind
    d.object.metadata.ns.text d.object.metadata.name)
  rw [h.apply_eq]
  split
  · next hop =>
    rw [W.apply_delete hop]
    exact (hadd.reconcile hns hkey (by simp)).onlyNodes (Topology.onlyNodes_markDeleted ..)
  · next hop =>
    rw [W.apply_upsert hop]
    exact (hadd.onlyNodes (Topology.onlyNodes_declare ..)).reconcile hns hkey (by simp)

end

end agree

end Lookout
