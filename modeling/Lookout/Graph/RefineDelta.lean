-- SUMMARY: Applying a delta refines the identity-level machine, whatever order its loops run in.
import Lookout.Graph.Writer
import Lookout.Graph.Refinement
import Lookout.Lib.Run

/-!
# Applying a delta refines the identity-level machine

The composite operations of the writer, from reconciling declared edges up to a
whole delta. Their loops become the set operations of `Topology`. The orders of
the loops over maps disappear on the way, because the set operations do not
depend on them.
-/

namespace Lookout

open Interner
open Map (getD writes_insert)

variable [Platform]

namespace Build

variable {s : Build} {T : Topology}

/-! ## The keys a delta interns -/

section

variable (s)

@[simp] theorem storeDeclared_intern (id : NodeID) (es : List HalfEdge) :
    (s.storeDeclared id es).intern = s.intern := by
  unfold storeDeclared
  split <;> rfl

@[simp] theorem markDeleted_intern (id : NodeID) : (s.markDeleted id).intern = s.intern := by
  unfold markDeleted
  split
  · rfl
  · exact maybeGC_intern ..

theorem removeEdges_intern (l : List HalfEdge) : (l.foldl removeEdge s).intern = s.intern :=
  Run.foldl_keeps (g := fun s => s.intern) removeEdge_intern l s

theorem addEdges_intern (l : List HalfEdge) : (l.foldl addEdge s).intern = s.intern :=
  Run.foldl_keeps (g := fun s => s.intern) addEdge_intern l s

@[simp] theorem setDeclared_intern (id : NodeID) (want : List HalfEdge) :
    (s.setDeclared id want).intern = s.intern := by
  simp only [setDeclared]
  split
  · rfl
  · rw [storeDeclared_intern, addEdges_intern, removeEdges_intern]

@[simp] theorem setSelectorEdge_intern (src pod : NodeID) (kind : EdgeKind) (want : Bool) :
    (s.setSelectorEdge src pod kind want).intern = s.intern := by
  simp only [setSelectorEdge]
  split <;> split <;> simp

theorem reselectSources_intern (sels : Map NodeID SelEntry) (pod : NodeID) (want : SelEntry → Bool)
    (ids : List NodeID) : (ids.foldl (reselectSource sels pod want) s).intern = s.intern := by
  refine Run.foldl_keeps (g := fun s => s.intern) (fun s src => ?_) ids s
  simp only [reselectSource]
  split
  · rfl
  · exact setSelectorEdge_intern ..

@[simp] theorem reselect_intern (o : Map.RangeOrder) (ns : GoString) (pod : NodeID)
    (want : SelEntry → Bool) : (s.reselect o ns pod want).intern = s.intern :=
  reselectSources_intern ..

/-- The keys that following a link interns, in order. -/
def linkKeys (l : Link) : List GoString := identityKeys l.kind l.ns.text l.name

@[simp] theorem observe_intern (id : NodeID) (kind : NodeKind) :
    (s.observe id kind).intern = s.intern :=
  rfl

end

theorem link_intern (self : NodeID) (p : Build × List HalfEdge) (l : Link) :
    (link self p l).1.intern = p.1.intern.internAll (linkKeys l) := by
  simp only [link, linkKeys, ← node_intern]
  split <;> rfl

theorem declare_intern (s : Build) (self : NodeID) (links : List Link) :
    (s.declare self links).1.intern = s.intern.internAll (links.flatMap linkKeys) := by
  induction links using List.reverseRecOn with
  | nil => rfl
  | append_singleton links l ih =>
    rw [declare, List.foldl_append, List.flatMap_append, internAll_append, ← ih]
    exact (link_intern ..).trans (by simp [declare])

/-- The keys that applying a delta interns, in order. They depend on the delta only. -/
def deltaKeys (d : Delta) : List GoString :=
  identityKeys d.object.kind d.object.metadata.ns.text d.object.metadata.name ++
    if d.op = .delete then [] else d.object.links.flatMap linkKeys

theorem applyLinks_intern (s : Build) (op : Op) (kind : NodeKind) (m : ObjectMeta)
    (links : List Link) :
    (s.applyLinks op kind m links).intern =
      s.intern.internAll (identityKeys kind m.ns.text m.name ++
        if op = .delete then [] else links.flatMap linkKeys) := by
  simp only [applyLinks]
  split <;> simp [internAll_append, node_intern, declare_intern]

theorem applySelecting_intern (s : Build) (o : Map.RangeOrder) (op : Op) (kind : NodeKind)
    (m : ObjectMeta) (entry : Option SelEntry) :
    (s.applySelecting o op kind m entry).intern =
      s.intern.internAll (identityKeys kind m.ns.text m.name ++
        if op = .delete then [] else (ownerLinks m).flatMap linkKeys) := by
  simp only [applySelecting]
  split
  · simp [node_intern, dropSelector]
  · split <;>
      simp [internAll_append, node_intern, declare_intern, setSelector, dropSelector]

theorem applyPod_intern (s : Build) (o : Map.RangeOrder) (op : Op) (pod : Pod) :
    (s.applyPod o op pod).intern =
      s.intern.internAll (identityKeys .pod pod.metadata.ns.text pod.metadata.name ++
        if op = .delete then [] else pod.links.flatMap linkKeys) := by
  simp only [applyPod]
  split <;> simp [internAll_append, node_intern, declare_intern]

theorem applyDelta_intern (s : Build) (o : Map.RangeOrder) (d : Delta) :
    (s.applyDelta o d).intern = s.intern.internAll (deltaKeys d) := by
  obtain ⟨op, obj⟩ := d
  cases obj with
  | pod pod => exact s.applyPod_intern o op pod
  | service svc => exact s.applySelecting_intern o op .service svc.metadata _
  | networkPolicy np => exact s.applySelecting_intern o op .networkPolicy np.metadata _
  | _ => exact s.applyLinks_intern op _ _ _

/-! ## Declared edges -/

variable {key : GoString} {id pod src : NodeID}

theorem view_declared (hid : s.intern.keyOf? id = some key) :
    s.view.declared key = named s.intern (· ∈ getD s.declared id []) := by
  refine named_congr fun e => ?_
  rw [read_of_keyOf? hid, getD]
  cases s.declared.lookup id <;> simp

theorem WF.declared_getD (h : s.WF) (id : NodeID) :
    (getD s.declared id []).Nodup ∧ ∀ e ∈ getD s.declared id [], e.Valid s.intern := by
  rw [getD]
  cases hes : s.declared.lookup id with
  | none => simp
  | some es => exact (h.declaredEnds id es hes).2

/-- Replacing the declared edges of one object. A stored list is not empty. -/
theorem Refines.writeDeclared (h : s.Refines T) (hid : s.intern.keyOf? id = some key)
    {o : Option (List HalfEdge)} {m : Map NodeID (List HalfEdge)}
    (hm : Map.Writes id o s.declared m)
    (ho : ∀ es, o = some es → es ≠ [] ∧ es.Nodup ∧ ∀ e ∈ es, e.Valid s.intern) :
    { s with declared := m }.Refines (T.withDeclared key (named s.intern (· ∈ o.getD []))) := by
  refine ⟨{ h.wf with
    declared := h.wf.declared.writes (fun _ => by simp [hid]) hm
    declaredEnds := hm.forall_lookup ho h.wf.declaredEnds }, ?_⟩
  rw [← h.means]
  simp only [view, Topology.withDeclared, read_writes hid hm, Topology.mk.injEq, and_true,
    true_and]
  funext k
  by_cases hk : k = key
  · cases o <;> simp [hk]
  · simp [Function.update_of_ne hk]

/-- Store the declared edges of one object, without an entry for none. -/
theorem Refines.storeDeclared (h : s.Refines T) (id : NodeID) (key : GoString)
    (es : List HalfEdge) (hid : s.intern.keyOf? id = some key) (hnodup : es.Nodup)
    (hvalid : ∀ e ∈ es, e.Valid s.intern) :
    (s.storeDeclared id es).Refines (T.withDeclared key (named s.intern (· ∈ es))) := by
  unfold Build.storeDeclared
  split
  · next hnil =>
    subst hnil
    exact h.writeDeclared hid (Map.writes_erase _ _) fun _ hnone =>
      absurd hnone.symm (Option.some_ne_none _)
  · next hne =>
    refine h.writeDeclared hid (writes_insert _ _ _) fun es' hes' => ?_
    cases hes'
    exact ⟨hne, hnodup, hvalid⟩

variable {l cur : List HalfEdge} {i : Nat} {self : NodeID}

/-- A loop of edge updates does what one update of all the edges does. -/
theorem Refines.foldl_edges {f : Build → HalfEdge → Build} {F : Topology → Set KeyEdge → Topology}
    (hf : ∀ {s T e k}, s.Refines T → e.Names s.intern k → (f s e).Refines (F T {k}))
    (hintern : ∀ s e, (f s e).intern = s.intern) (hempty : ∀ T, F T ∅ = T)
    (hunion : ∀ T A B, F (F T A) B = F T (A ∪ B)) (h : s.Refines T) (hl : ∀ e ∈ l, e.Valid s.intern) :
    (l.foldl f s).Refines (F T (named s.intern (· ∈ l))) := by
  induction l generalizing s T with
  | nil =>
    rw [named_nil, hempty]
    exact h
  | cons e l ih =>
    obtain ⟨k, hk⟩ := hl e List.mem_cons_self
    have hfold := ih (hf h hk) fun f hf => hintern s e ▸ hl f (List.mem_cons_of_mem e hf)
    have hset : named s.intern (· ∈ e :: l) = {k} ∪ named s.intern (· ∈ l) := by
      rw [named_congr fun f => List.mem_cons, named_or, named_eq hk]
    rw [hunion, hintern] at hfold
    rw [List.foldl_cons, hset]
    exact hfold

theorem Refines.removeEdges (h : s.Refines T) (hl : ∀ e ∈ l, e.Valid s.intern) :
    (l.foldl Build.removeEdge s).Refines (T.dropEdges (named s.intern (· ∈ l))) :=
  foldl_edges (fun h hk => h.removeEdge hk) removeEdge_intern Topology.dropEdges_empty
    Topology.dropEdges_dropEdges h hl

theorem Refines.addEdges (h : s.Refines T) (hl : ∀ e ∈ l, e.Valid s.intern) :
    (l.foldl Build.addEdge s).Refines (T.addEdges (named s.intern (· ∈ l))) :=
  foldl_edges (fun h hk => h.addEdge hk) addEdge_intern Topology.addEdges_empty
    Topology.addEdges_addEdges h hl

omit [Platform] in
theorem uniq_spec (want : List HalfEdge) :
    (uniq want).Nodup ∧ ∀ e, e ∈ uniq want ↔ e ∈ want := by
  unfold uniq
  induction want using List.reverseRecOn with
  | nil => simp
  | append_singleton want e ih =>
    obtain ⟨hnodup, hmem⟩ := ih
    rw [List.foldl_append, List.foldl_cons, List.foldl_nil]
    split
    · next he =>
      refine ⟨hnodup, fun f => ?_⟩
      rw [hmem] at he
      simp only [hmem, List.mem_append, List.mem_singleton]
      exact ⟨Or.inl, fun hf => hf.elim id (fun hf => hf ▸ he)⟩
    · next he =>
      refine ⟨?_, fun f => by simp [hmem]⟩
      rw [← List.concat_eq_append]
      exact hnodup.concat he

/-- Reconciling an object's declared edges. -/
theorem Refines.setDeclared (h : s.Refines T) (hid : s.intern.keyOf? id = some key)
    (want : List HalfEdge) (hwant : ∀ e ∈ want, e.Valid s.intern) :
    (s.setDeclared id want).Refines (T.setDeclared key (named s.intern (· ∈ want))) := by
  have hold : T.declared key = named s.intern (· ∈ getD s.declared id []) := by
    rw [← h.means]
    exact view_declared hid
  have hvalid := (h.wf.declared_getD id).2
  unfold Build.setDeclared Topology.setDeclared
  rw [hold]
  generalize hdecl : getD s.declared id [] = old at hold hvalid ⊢
  by_cases hnil : old = [] ∧ want = []
  · -- Nothing was declared and nothing is wanted.
    obtain ⟨rfl, rfl⟩ := hnil
    have hsame : T.withDeclared key ∅ = T := by
      have hempty : T.declared key = ∅ := by simpa using hold
      rw [Topology.withDeclared, ← hempty, Function.update_eq_self]
    simpa [hsame] using h
  · simp only [hnil]
    obtain ⟨hnodup, hmem⟩ := uniq_spec want
    have hremove := h.removeEdges (l := old.filter fun e => e ∉ want)
      fun e he => hvalid e (List.mem_of_mem_filter he)
    have hadd := hremove.addEdges (l := (uniq want).filter fun e => e ∉ old) (by
      intro e he
      rw [removeEdges_intern]
      exact hwant e ((hmem e).1 (List.mem_of_mem_filter he)))
    have hstored := hadd.storeDeclared id key (uniq want) (by
      rw [addEdges_intern, removeEdges_intern]
      exact hid) hnodup (by
      rw [addEdges_intern, removeEdges_intern]
      exact fun e he => hwant e ((hmem e).1 he))
    have hstale : named s.intern (· ∈ old.filter fun e => e ∉ want) =
        named s.intern (· ∈ old) \ named s.intern (· ∈ want) := by
      rw [← named_and_not]
      exact named_congr fun e => by simp
    have hnew : named s.intern (· ∈ (uniq want).filter fun e => e ∉ old) =
        named s.intern (· ∈ want) \ named s.intern (· ∈ old) := by
      rw [← named_and_not]
      exact named_congr fun e => by simp [hmem]
    rw [addEdges_intern, removeEdges_intern, hstale, hnew, named_congr hmem] at hstored
    exact hstored

/-! ## Selector edges -/

omit [Platform] in
/-- Swap-deletion removes one position, up to order. -/
theorem swapDelete_perm (hi : i < cur.length) : (swapDelete cur i).Perm (cur.eraseIdx i) := by
  rcases List.eq_nil_or_concat cur with rfl | ⟨l, last, rfl⟩
  · cases hi
  · unfold swapDelete
    rw [List.concat_eq_append, List.getLast?_append_cons, List.getLast?_singleton]
    rw [List.concat_eq_append, List.length_append, List.length_singleton] at hi
    simp only
    rcases Nat.lt_or_ge i l.length with hlt | hge
    · rw [List.set_append_left _ _ hlt, List.dropLast_concat, List.eraseIdx_append_of_lt_length hlt]
      exact (List.set_perm_cons_eraseIdx hlt last).trans (List.perm_append_singleton _ _).symm
    · obtain rfl : i = l.length := by omega
      rw [List.set_append_right _ _ (Nat.le_refl _), List.eraseIdx_append_of_length_le (Nat.le_refl _)]
      simp

omit [Platform] in
theorem swapDelete_spec {e : HalfEdge} (hnodup : cur.Nodup) (hi : cur.idxOf? e = some i) :
    (swapDelete cur i).Nodup ∧ ∀ f, f ∈ swapDelete cur i ↔ f ∈ cur ∧ f ≠ e := by
  obtain ⟨hlt, hget, -⟩ := List.idxOf?_eq_some_iff.1 hi
  have hperm := swapDelete_perm hlt
  have herase : cur.eraseIdx i = cur.erase e := by
    rw [← hget, hnodup.erase_getElem]
  rw [herase] at hperm
  refine ⟨hperm.nodup_iff.2 (hnodup.erase e), fun f => ?_⟩
  rw [hperm.mem_iff, hnodup.mem_erase_iff, and_comm]

theorem Refines.setSelectorEdge (h : s.Refines T) {a b : GoString}
    (hsrc : s.intern.keyOf? src = some a) (hpod : s.intern.keyOf? pod = some b) (kind : EdgeKind)
    (want : Bool) :
    (s.setSelectorEdge src pod kind want).Refines (T.setSelectorEdge ⟨a, b, kind⟩ want) := by
  have hnames : (⟨src, pod, kind⟩ : HalfEdge).Names s.intern ⟨a, b, kind⟩ := ⟨hsrc, hpod, rfl⟩
  have hdecl : T.declared a = named s.intern (· ∈ getD s.declared src []) := by
    rw [← h.means]
    exact view_declared hsrc
  obtain ⟨hnodup, hvalid⟩ := h.wf.declared_getD src
  have hsame : T.withDeclared a (T.declared a) = T := by
    rw [Topology.withDeclared, Function.update_eq_self]
  simp only [Build.setSelectorEdge]
  generalize hcur : getD s.declared src [] = cur at hdecl hnodup hvalid
  have hmem : ⟨a, b, kind⟩ ∈ T.declared a ↔ ⟨src, pod, kind⟩ ∈ cur := by
    rw [hdecl]
    exact mem_named_iff hnames
  cases hidx : cur.idxOf? ⟨src, pod, kind⟩ with
  | none =>
    have habsent : ⟨a, b, kind⟩ ∉ T.declared a := by
      rw [hmem]
      exact List.idxOf?_eq_none_iff.1 hidx
    cases want with
    | true =>
      have hset : named (s.addEdge ⟨src, pod, kind⟩).intern (· ∈ cur ++ [⟨src, pod, kind⟩]) =
          T.declared a ∪ {⟨a, b, kind⟩} := by
        rw [addEdge_intern, hdecl, ← named_eq hnames, ← named_or]
        exact named_congr fun f => by simp
      have hall : ∀ f ∈ cur ++ [⟨src, pod, kind⟩], f.Valid s.intern := by
        simpa [or_imp, forall_and] using And.intro hvalid ⟨_, hnames⟩
      have hstep := (h.addEdge hnames).writeDeclared ((addEdge_intern ..).symm ▸ hsrc)
        (writes_insert _ _ (cur ++ [⟨src, pod, kind⟩])) fun es hes => by
          cases hes
          rw [addEdge_intern, ← List.concat_eq_append] at *
          exact ⟨by simp, hnodup.concat fun hin => habsent (hmem.2 hin), hall⟩
      rw [Option.getD_some, hset] at hstep
      simp only [Topology.setSelectorEdge]
      rw [sdiff_eq_left.2 (Set.disjoint_singleton_left.2 habsent)]
      exact hstep
    | false =>
      simp only [Topology.setSelectorEdge]
      rw [Set.singleton_inter_eq_empty.2 habsent, Topology.dropEdges_empty,
        Set.sdiff_singleton_eq_self habsent, hsame]
      exact h
  | some i =>
    have hpresent : ⟨a, b, kind⟩ ∈ T.declared a := by
      rw [hmem]
      exact List.mem_of_getElem (List.idxOf?_eq_some_iff.1 hidx).2.1
    cases want with
    | true =>
      simp only [Topology.setSelectorEdge]
      rw [sdiff_eq_bot_iff.2 (Set.singleton_subset_iff.2 hpresent), Set.bot_eq_empty,
        Topology.addEdges_empty, Set.union_eq_self_of_subset_right
          (Set.singleton_subset_iff.2 hpresent), hsame]
      exact h
    | false =>
      obtain ⟨hnodup', hmem'⟩ := swapDelete_spec hnodup hidx
      have hstep := (h.removeEdge hnames).storeDeclared src a (swapDelete cur i) ?_ hnodup' ?_
      · have hset : named s.intern (· ∈ swapDelete cur i) = T.declared a \ {⟨a, b, kind⟩} := by
          rw [hdecl, ← named_eq hnames, ← named_and_not]
          exact named_congr hmem'
        rw [removeEdge_intern, hset] at hstep
        simp only [Topology.setSelectorEdge]
        rw [Set.inter_eq_left.2 (Set.singleton_subset_iff.2 hpresent)]
        exact hstep
      · rw [removeEdge_intern]
        exact hsrc
      · intro f hf
        rw [removeEdge_intern]
        exact hvalid f ((hmem' f).1 hf).1

/-! ## Tables by namespace -/

section tables

variable {α : Type} {m : Map GoString (Map NodeID α)} {ns : GoString}
  {f : Map NodeID α → Map NodeID α} {t : Interner GoString}

omit [Platform] in
/-- An empty table needs no entry: it reads the same without one. -/
theorem getD_updateNs (ns' : GoString) :
    getD (updateNs m ns f) ns' ∅ = if ns' = ns then f (getD m ns ∅) else getD m ns' ∅ := by
  simp only [updateNs]
  split
  · next hempty =>
    rw [Map.getD_erase, Map.eq_empty_of_keys hempty]
  · rw [Map.getD_insert]

omit [Platform] in
theorem read_updateNs {g : GoString → Option α} (hg : t.read (f (getD m ns ∅)) = g) :
    (fun ns' => t.read (getD (updateNs m ns f) ns' ∅)) =
      Function.update (fun ns' => t.read (getD m ns' ∅)) ns g := by
  funext ns'
  rw [getD_updateNs]
  by_cases hns : ns' = ns
  · rw [if_pos hns, hns, Function.update_self, hg]
  · rw [if_neg hns, Function.update_of_ne hns]

omit [Platform] in
theorem covers_updateNs (h : ∀ ns, t.Covers (getD m ns ∅)) (hf : t.Covers (f (getD m ns ∅)))
    (ns' : GoString) : t.Covers (getD (updateNs m ns f) ns' ∅) := by
  rw [getD_updateNs]
  split
  · exact hf
  · exact h ns'

end tables

section

variable (h : s.Refines T) (hsrc : s.intern.keyOf? src = some key) (ns : GoString)

include h hsrc

/-- Changing the selector of one object. -/
theorem Refines.updateSelectors {o : Option SelEntry}
    {f : Map NodeID SelEntry → Map NodeID SelEntry} (hf : ∀ m, Map.Writes src o m (f m)) :
    { s with selectors := updateNs s.selectors ns f }.Refines (T.setSelector ns key o) := by
  refine ⟨{ h.wf with
    selectors := covers_updateNs h.wf.selectors ((h.wf.selectors ns).writes (fun _ => by simp [hsrc]) (hf _)) }, ?_⟩
  rw [← h.means]
  ext1 <;> try rfl
  exact read_updateNs (read_writes hsrc (hf _))

theorem Refines.setSelector (ent : SelEntry) :
    (s.setSelector ns src ent).Refines (T.setSelector ns key (some ent)) :=
  h.updateSelectors hsrc ns fun m => writes_insert m src ent

theorem Refines.dropSelector : (s.dropSelector ns src).Refines (T.setSelector ns key none) :=
  h.updateSelectors hsrc ns fun m => Map.writes_erase m src

end

/-- Changing the labels of one pod. -/
theorem Refines.updateLabels (h : s.Refines T) (hpod : s.intern.keyOf? pod = some key)
    (ns : GoString) {o : Option Labels} {f : Map NodeID Labels → Map NodeID Labels}
    (hf : ∀ m, Map.Writes pod o m (f m)) :
    { s with podLabels := updateNs s.podLabels ns f }.Refines (T.setLabels ns key o) := by
  refine ⟨{ h.wf with
    podLabels := covers_updateNs h.wf.podLabels ((h.wf.podLabels ns).writes (fun _ => by simp [hpod]) (hf _)) }, ?_⟩
  rw [← h.means]
  ext1 <;> try rfl
  exact read_updateNs (read_writes hpod (hf _))

/-! ## Reselection -/

/-- The keys of a list of numbers. -/
def keySet (t : Interner GoString) (ids : List NodeID) : Set GoString :=
  {k | ∃ id ∈ ids, t.keyOf? id = some k}

/-- The loop over the selectors, after it has visited the sources `ids`. -/
theorem Refines.reselectSources (h : s.Refines T) {ns : GoString}
    (hpod : s.intern.keyOf? pod = some key) {want : SelEntry → Bool}
    (hkept : ∀ ent, want ent = true → ¬ T.CollectableAt key) {sels : Map NodeID SelEntry}
    (hsels : s.intern.read sels = T.selectors ns) {ids : List NodeID} (hnodup : ids.Nodup)
    (hids : ∀ id ∈ ids, (s.intern.keyOf? id).isSome) :
    (ids.foldl (reselectSource sels pod want) s).Refines
      (T.reselectOn ns key want (keySet s.intern ids)) := by
  induction ids using List.reverseRecOn with
  | nil =>
    have hempty : keySet s.intern [] = ∅ := by simp [keySet]
    rw [hempty, Topology.reselectOn_empty]
    exact h
  | append_singleton ids src ih =>
    obtain ⟨hnodup', -, hdisj⟩ := List.nodup_append.1 hnodup
    have hr := ih hnodup' fun id hid => hids id (List.mem_append_left _ hid)
    obtain ⟨a, ha⟩ := Option.isSome_iff_exists.1 (hids src (by simp))
    have hset : keySet s.intern (ids ++ [src]) = insert a (keySet s.intern ids) := by
      ext k
      simp [keySet, ha, eq_comm, or_comm]
    have hfresh : a ∉ keySet s.intern ids := by
      rintro ⟨id, hid, hk⟩
      exact hdisj id hid src (List.mem_singleton_self src) (keyOf?_inj hk ha)
    have hread : T.selectors ns a = sels.lookup src := by
      rw [← hsels, read_of_keyOf? ha]
    simp only [List.foldl_append, List.foldl_cons, hset]
    unfold reselectSource
    cases hent : sels.lookup src with
    | none =>
      rw [Topology.reselectOn_congr]
      · exact hr
      · intro x hx
        have hne : x ≠ a := by
          rintro rfl
          exact hx (hread.trans hent)
        simp [hne]
    | some ent =>
      rw [← reselectSources_intern s sels pod want ids] at ha hpod
      have hstep := hr.setSelectorEdge ha hpod ent.kind (want ent)
      rw [Topology.reselectOn_insert hfresh (hread.trans hent) (hkept ent)] at hstep
      exact hstep

theorem Refines.reselect (h : s.Refines T) (o : Map.RangeOrder) (ns : GoString)
    (hpod : s.intern.keyOf? pod = some key) (want : SelEntry → Bool)
    (hkept : ∀ ent, want ent = true → ¬ T.CollectableAt key) :
    (s.reselect o ns pod want).Refines (T.reselect ns key want) := by
  have hcovers := h.wf.selectors ns
  have hsels : s.intern.read (getD s.selectors ns ∅) = T.selectors ns := by
    rw [← h.means]
    rfl
  have hloop := h.reselectSources hpod hkept hsels (Map.nodup_range o _) (by
    intro id hid
    rw [Map.mem_range, Map.mem_iff_ne_none] at hid
    exact hcovers id hid)
  rw [Topology.reselectOn_congr] at hloop
  · exact hloop
  · -- Every registered source is visited, because its table is covered.
    intro src hsrc
    rw [← hsels] at hsrc
    obtain ⟨ent, hent⟩ := Option.ne_none_iff_exists'.1 hsrc
    obtain ⟨id, hid, hlookup⟩ := read_eq_some.1 hent
    refine iff_of_true ⟨id, ?_, hid⟩ trivial
    rw [Map.mem_range, Map.mem_iff_ne_none, hlookup]
    exact Option.some_ne_none ent

/-! ## Links -/

theorem Refines.linkNode (h : s.Refines T) (self : NodeID) (decl : List HalfEdge) (l : Link) :
    (link self (s, decl) l).1.Refines (T.link l) := by
  have hnode := h.node l.kind l.ns.text l.name
  simp only [link, Topology.link]
  split
  · exact hnode.observe (node_keyOf? s l.kind l.ns.text l.name) l.kind
  · exact hnode

/-- The edge that a link appends is named as the link asks. -/
theorem link_names (hself : s.intern.keyOf? self = some key) (decl : List HalfEdge) (l : Link) :
    ∃ e, (link self (s, decl) l).2 = decl ++ [e] ∧
      e.Names (link self (s, decl) l).1.intern (l.edgeAt key) := by
  have hother := node_keyOf? s l.kind l.ns.text l.name
  rw [node_intern] at hother
  refine ⟨_, rfl, ?_⟩
  rw [link_intern]
  have hself' := keyOf?_internAll (linkKeys l) hself
  unfold Link.edgeAt
  split
  · exact ⟨hother, hself', rfl⟩
  · exact ⟨hself', hother, rfl⟩

section

variable (h : s.Refines T)

include h

/-- Following all links creates their nodes and collects their edges. -/
theorem Refines.declare (hself : s.intern.keyOf? self = some key) (links : List Link) :
    (s.declare self links).1.Refines (links.foldl Topology.link T) ∧
      (∀ e ∈ (s.declare self links).2, e.Valid (s.declare self links).1.intern) ∧
      named (s.declare self links).1.intern (· ∈ (s.declare self links).2) =
        linkEdges key links := by
  induction links using List.reverseRecOn with
  | nil => exact ⟨h, by simp [Build.declare], by simp [Build.declare, linkEdges]⟩
  | append_singleton links l ih =>
    obtain ⟨hr, hvalid, hnamed⟩ := ih
    have hintern := declare_intern s self links
    have hdecl : s.declare self (links ++ [l]) = link self (s.declare self links) l := by
      simp [Build.declare]
    rw [hdecl]
    generalize s.declare self links = p at hr hintern hvalid hnamed
    have hself' : p.1.intern.keyOf? self = some key := by
      rw [hintern]
      exact keyOf?_internAll _ hself
    obtain ⟨e, happ, hnames⟩ := link_names hself' p.2 l
    have hgrows := Grows.of_internAll (link_intern self p l)
    refine ⟨?_, ?_, ?_⟩
    · rw [List.foldl_append]
      exact hr.linkNode self p.2 l
    · intro f hf
      rw [happ] at hf
      rcases List.mem_append.1 hf with hf | hf
      · obtain ⟨k, hk⟩ := hvalid f hf
        exact ⟨k, hgrows _ _ hk.1, hgrows _ _ hk.2.1, hk.2.2⟩
      · rw [List.mem_singleton.1 hf]
        exact ⟨_, hnames⟩
    · have hmem : ∀ f, f ∈ p.2 ++ [e] ↔ f ∈ p.2 ∨ f = e := by simp
      rw [happ, named_congr hmem, named_or, named_eq hnames, named_of_grows hgrows hvalid, hnamed]
      ext k
      simp [linkEdges, or_comm]

/-! ## Deltas -/

/-- Reconciling with nothing. -/
theorem Refines.clearDeclared (hid : s.intern.keyOf? id = some key) :
    (s.setDeclared id []).Refines (T.setDeclared key ∅) := by
  have hset := h.setDeclared hid [] (by simp)
  rwa [named_nil] at hset

/-- Observing an object's node and following its links. -/
theorem Refines.declareObject (hid : s.intern.keyOf? id = some key) (kind : NodeKind)
    (links : List Link) :
    ((s.observe id kind).declare id links).1.Refines (T.declare key kind links) ∧
      ((s.observe id kind).declare id links).1.intern.keyOf? id = some key ∧
      (∀ e ∈ ((s.observe id kind).declare id links).2,
        e.Valid ((s.observe id kind).declare id links).1.intern) ∧
      named ((s.observe id kind).declare id links).1.intern
        (· ∈ ((s.observe id kind).declare id links).2) = linkEdges key links := by
  obtain ⟨hdecl, hvalid, hnamed⟩ := (h.observe hid kind).declare hid links
  refine ⟨hdecl, ?_, hvalid, hnamed⟩
  rw [declare_intern]
  exact keyOf?_internAll _ hid

variable (o : Map.RangeOrder) (op : Op)

theorem Refines.applyLinks (kind : NodeKind) (m : ObjectMeta) (links : List Link) :
    (s.applyLinks op kind m links).Refines (T.applyLinks op kind m links) := by
  have hnode := h.node kind m.ns.text m.name
  have hid := node_keyOf? s kind m.ns.text m.name
  simp only [Build.applyLinks, Topology.applyLinks]
  split
  · exact (hnode.clearDeclared hid).markDeleted ((setDeclared_intern ..).symm ▸ hid)
  · obtain ⟨hdecl, hid', hvalid, hnamed⟩ := hnode.declareObject hid kind links
    rw [← hnamed]
    exact hdecl.setDeclared hid' _ hvalid

/-- The pods a selector matches, as edges. -/
theorem Refines.selectedPods (hsrc : s.intern.keyOf? src = some key) (ns : GoString)
    (ent : SelEntry) :
    (∀ pod ∈ s.selectedPods o ns ent.sel, (⟨src, pod, ent.kind⟩ : HalfEdge).Valid s.intern) ∧
      named s.intern (fun e => ∃ pod ∈ s.selectedPods o ns ent.sel, e = ⟨src, pod, ent.kind⟩) =
        T.selectedEdges ns key ent := by
  have hmem : ∀ pod, pod ∈ s.selectedPods o ns ent.sel ↔
      ∃ labels, (getD s.podLabels ns ∅).lookup pod = some labels ∧
        Platform.matchesLabels ent.sel labels = true := by
    intro pod
    simp only [Build.selectedPods, List.mem_filter, Map.mem_range, Map.mem_iff_ne_none,
      Option.any_eq_true]
    constructor
    · rintro ⟨-, labels, hl, hm⟩
      exact ⟨labels, hl, hm⟩
    · rintro ⟨labels, hl, hm⟩
      exact ⟨by simp [hl], labels, hl, hm⟩
  constructor
  · intro pod hpod
    obtain ⟨labels, hl, -⟩ := (hmem pod).1 hpod
    refine HalfEdge.valid_iff.2 ⟨by simp [hsrc], h.wf.podLabels ns pod ?_⟩
    simp [hl]
  · ext k
    rw [← h.means]
    constructor
    · rintro ⟨e, ⟨pod, hpod, rfl⟩, hk⟩
      obtain ⟨labels, hl, hm⟩ := (hmem pod).1 hpod
      refine ⟨k.dst, labels, read_eq_some.2 ⟨pod, hk.2.1, hl⟩, hm, ?_⟩
      have hkey : key = k.src := Option.some.inj (hsrc.symm.trans hk.1)
      have hkind : ent.kind = k.kind := hk.2.2
      rw [hkey, hkind]
    · rintro ⟨pod, labels, hl, hm, rfl⟩
      obtain ⟨id, hid, hlookup⟩ := read_eq_some.1 hl
      exact ⟨⟨src, id, ent.kind⟩, ⟨id, (hmem id).2 ⟨labels, hlookup, hm⟩, rfl⟩, hsrc, hid, rfl⟩

/-- Declaring an object's links together with the pods its selector matches. -/
theorem Refines.setDeclaredSelected (hid : s.intern.keyOf? id = some key) (ns : GoString)
    (ent : SelEntry) {decl : List HalfEdge} (hvalid : ∀ e ∈ decl, e.Valid s.intern) :
    (s.setDeclared id (decl ++ (s.selectedPods o ns ent.sel).map fun pod =>
      ⟨id, pod, ent.kind⟩)).Refines
      (T.setDeclared key (named s.intern (· ∈ decl) ∪ T.selectedEdges ns key ent)) := by
  obtain ⟨hpods, hselected⟩ := h.selectedPods o hid ns ent
  have hmem : ∀ e, e ∈ decl ++ (s.selectedPods o ns ent.sel).map (fun pod => ⟨id, pod, ent.kind⟩) ↔
      e ∈ decl ∨ ∃ pod ∈ s.selectedPods o ns ent.sel, e = ⟨id, pod, ent.kind⟩ := by
    simp [eq_comm]
  rw [← hselected, ← named_or, ← named_congr hmem]
  refine h.setDeclared hid _ fun e he => ?_
  rcases (hmem e).1 he with he | ⟨pod, hpod, rfl⟩
  · exact hvalid e he
  · exact hpods pod hpod

theorem Refines.applySelecting (kind : NodeKind) (m : ObjectMeta) (entry : Option SelEntry) :
    (s.applySelecting o op kind m entry).Refines
      (T.applySelecting op kind m (ownerLinks m) entry) := by
  have hnode := h.node kind m.ns.text m.name
  have hid := node_keyOf? s kind m.ns.text m.name
  simp only [Build.applySelecting, Topology.applySelecting]
  split
  · exact ((hnode.dropSelector hid m.ns.text).clearDeclared hid).markDeleted
      ((setDeclared_intern ..).symm ▸ hid)
  · obtain ⟨hdecl, hid', hvalid, hnamed⟩ := hnode.declareObject hid kind (ownerLinks m)
    rw [← hnamed]
    cases entry with
    | none =>
      simp only [Option.mem_def, reduceCtorEq, false_and, exists_false, Set.ofPred_false,
        Set.union_empty]
      exact (hdecl.dropSelector hid' m.ns.text).setDeclared hid' _ hvalid
    | some ent =>
      simp only [Option.mem_def, Option.some.injEq, exists_eq_left']
      exact (hdecl.setSelector hid' m.ns.text ent).setDeclaredSelected o hid' m.ns.text ent hvalid

theorem Refines.applyPod (pod : Pod) : (s.applyPod o op pod).Refines (T.applyPod op pod) := by
  have hnode := h.node .pod pod.metadata.ns.text pod.metadata.name
  have hid := node_keyOf? s .pod pod.metadata.ns.text pod.metadata.name
  simp only [Build.applyPod, Topology.applyPod]
  split
  · have hclear := hnode.clearDeclared hid
    rw [← setDeclared_intern _ _ []] at hid
    have hsel := hclear.reselect o pod.metadata.ns.text hid (fun _ => false) (by simp)
    rw [← reselect_intern _ o pod.metadata.ns.text _ fun _ => false] at hid
    exact (hsel.updateLabels hid pod.metadata.ns.text fun m =>
      Map.writes_erase m _).markDeleted hid
  · obtain ⟨hdecl, hid', hvalid, hnamed⟩ := hnode.declareObject hid .pod pod.links
    have hset := hdecl.setDeclared hid' _ hvalid
    rw [hnamed] at hset
    rw [← setDeclared_intern] at hid'
    -- The pod is observed, so nothing collects it.
    exact (hset.updateLabels hid' _ fun m => writes_insert m _ _).reselect o _ hid' _ fun _ _ =>
      ((Topology.declare_backed ..).setDeclared (by decide)).not_collectableAt (by decide)

/-- Applying a delta refines the machine, whatever order its loop runs in. -/
theorem Refines.applyDelta (d : Delta) : (s.applyDelta o d).Refines (T.apply d) := by
  obtain ⟨op, obj⟩ := d
  cases obj with
  | pod pod => exact h.applyPod o op pod
  | service svc => exact h.applySelecting o op .service svc.metadata _
  | networkPolicy np => exact h.applySelecting o op .networkPolicy np.metadata _
  | _ => exact h.applyLinks op _ _ _

/-! ## Tracking -/

/-- Changing the fingerprint of one object. -/
theorem Refines.writeTracked (hid : s.intern.keyOf? id = some key) {o : Option TrackedState}
    {m : Map NodeID TrackedState} (hm : Map.Writes id o s.tracked m) :
    { s with tracked := m }.Refines { T with tracked := Function.update T.tracked key o } := by
  refine ⟨{ h.wf with tracked := h.wf.tracked.writes (fun _ => by simp [hid]) hm }, ?_⟩
  rw [← h.means]
  ext1 <;> try rfl
  exact read_writes hid hm

theorem Refines.trackSeed (o : Object) : (s.trackSeed o).Refines (T.track ⟨.add, o⟩) :=
  (h.internKey o.key).writeTracked (internKey_keyOf? s o.key) (writes_insert _ _ _)

theorem Refines.trackChange (now : Int) (d : Delta) :
    (s.trackChange now d).1.Refines (T.track d) := by
  by_cases hop : d.op = .delete
  · simp only [Build.trackChange, Topology.track, hop]
    exact (h.internKey d.object.key).writeTracked (internKey_keyOf? s d.object.key)
      (Map.writes_erase _ _)
  · have htr := h.trackSeed d.object
    simpa only [Build.trackChange, Build.trackSeed, Topology.track, hop, if_false, reduceCtorEq]
      using htr

end

end Build

end Lookout
