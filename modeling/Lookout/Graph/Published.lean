-- SUMMARY: What the published snapshot says after any run: it is the graph of the live objects, and it is well formed.
import Lookout.Graph.Runs

/-!
# The published snapshot

A snapshot is read through its keys, and for a writer that follows its ledger this
reading is the topology. The topology is determined by the live objects: its edges
are the declared ones and its observed nodes are backed by them. So a snapshot
after a long run agrees with one that is built from the live objects at once.

One update can break this. When it takes away the only edge at an unobserved node
and adds another edge to the same node, the removal collects the node and the
addition is left dangling. `World.Safe` excludes exactly such swaps. `Sample` holds
the shortest run with one, and a safe run that deletes the object in between.
-/

namespace Lookout

open Writer World

variable {tracking : Bool} {S : Snapshot}

section

variable [Platform]

/-! ## Reading a snapshot -/

namespace Build

variable {s : Build} {T : Topology}

/-- The ends of a batch's edges are nodes, when the topology has no dangling edge. -/
theorem Refines.ends_mem (h : s.Refines T) (hclosed : T.Closed) {e : HalfEdge}
    (he : e ∈ s.toAdjacency) : e.src ∈ s.nodes ∧ e.dst ∈ s.nodes := by
  obtain ⟨k, hk⟩ := h.wf.ends e he
  have hmem : k ∈ s.view.edges := ⟨e, he, hk⟩
  rw [← h.means] at hclosed
  rw [mem_nodes_iff hk.1, mem_nodes_iff hk.2.1]
  exact ⟨hclosed k.src ⟨k, hmem, .inl rfl⟩, hclosed k.dst ⟨k, hmem, .inr rfl⟩⟩

end Build

namespace Writer

variable {w : Writer} {L : Ledger} {T : Topology}

theorem newBatch_of_snap (hS : w.snap = some S) :
    w.newBatch = { toAdjacency := S.toAdjacency, toPrivate := w.priv, nodes := S.nodes, log := none } := by
  unfold newBatch
  rw [hS]

section

variable (h : w.Follows tracking L T) (hS : w.snap = some S)

include h hS

theorem Follows.keyOf (id : NodeID) : S.keyOf id = w.priv.intern.keyOf? id := by
  rw [Snapshot.keyOf, (h.published S hS).1]
  rfl

/-- Without dangling edges, the ends of an edge are nodes and their keys name it. -/
theorem Follows.hasEdge_iff (hclosed : T.Closed) {a b : GoString} {k : EdgeKind} :
    S.HasEdge a b k ↔ (⟨a, b, k⟩ : KeyEdge) ∈ T.edges := by
  have hbatch := h.batch
  rw [newBatch_of_snap hS] at hbatch
  rw [← hbatch.means]
  refine exists_congr fun e => ?_
  rw [Snapshot.mem_halfEdges]
  refine and_congr_right fun he => ?_
  obtain ⟨hsrc, hdst⟩ := hbatch.ends_mem hclosed he
  rw [Snapshot.resolve_of_mem hsrc, Snapshot.resolve_of_mem hdst, h.keyOf hS, h.keyOf hS]
  rfl

theorem Follows.nodeAt_eq : S.nodeAt = T.node := by
  rw [← h.batch.means, newBatch_of_snap hS]
  funext key
  unfold Snapshot.nodeAt
  simp only [h.keyOf hS, (h.published S hS).2]
  change _ = ((w.priv.intern.idOf? key).bind S.nodes.lookup).map _
  rw [Option.map_bind]
  rfl

end

end Writer

variable {T : Topology} {W : World} {w : Writer}

/-- The observed nodes that are not Namespaces are those that the live objects back. -/
theorem Faithful.observed_iff (h : Faithful tracking W T) {key : GoString} :
    (∃ n ∈ T.node key, n.observed = true ∧ n.kind ≠ .namespace_) ↔
      key ∈ W.backed ∧ ¬ HasKind key .namespace_ := by
  constructor
  · rintro ⟨n, hn, hobs, hkind⟩
    refine ⟨(h.populated.observed key n hn hobs).resolve_left hkind, fun hns => hkind ?_⟩
    exact (h.populated.hasKind hn).unique hns
  · rintro ⟨hback, hkind⟩
    obtain ⟨n, hn, hobs⟩ := h.populated.backed key hback
    exact ⟨n, hn, hobs, fun hns => hkind (hns ▸ h.populated.hasKind hn)⟩

/-- Two writers that follow ledgers with the same live objects, without dangling edges,
    publish the same edges and the same observed nodes. -/
theorem Writer.Follows.same_graph {tracking' : Bool} {w' : Writer} {L L' : Ledger} {T' : Topology}
    (h : w.Follows tracking L T) (hclosed : T.Closed) (h' : w'.Follows tracking' L' T')
    (hclosed' : T'.Closed) (hworld : L.world = L'.world)
    {S' : Snapshot} (hS : w.snap = some S) (hS' : w'.snap = some S') :
    (∀ a b k, S.HasEdge a b k ↔ S'.HasEdge a b k) ∧ ∀ key, S.Observes key ↔ S'.Observes key := by
  constructor
  · intro a b k
    rw [h.hasEdge_iff hS hclosed, h'.hasEdge_iff hS' hclosed', h.faithful.edges, h'.faithful.edges,
      hworld]
  · intro key
    unfold Snapshot.Observes
    rw [h.nodeAt_eq hS, h'.nodeAt_eq hS', h.faithful.observed_iff, h'.faithful.observed_iff, hworld]

/-! ## Rebuilding -/

namespace World

/-- The list holds exactly the live objects. -/
def Lists (W : World) (objs : List Object) : Prop := ∀ o, o ∈ objs ↔ W.get o.key = some o

variable {objs : List Object} {W W₀ : World}

/-- Everything that lives in `W₀` lives in `W`. -/
def Within (W₀ W : World) : Prop := ∀ key o, W₀.get key = some o → W.get key = some o

theorem empty_within (W : World) : empty.Within W := by simp [Within, empty]

/-- Adding a live object again changes nothing else. -/
theorem Within.get_add (h₀ : W₀.Within W) {p : Object} (hp : W.get p.key = some p) (k : GoString)
    (x : Object) :
    (W₀.apply ⟨.add, p⟩).get k = some x ↔ W₀.get k = some x ∨ p = x ∧ p.key = k := by
  rw [W₀.apply_upsert (by simp)]
  by_cases hk : k = p.key
  · subst hk
    rw [get_set_self]
    constructor
    · exact fun h => .inr ⟨Option.some.inj h, rfl⟩
    · rintro (h | ⟨rfl, -⟩)
      · exact hp.symm.trans (h₀ _ _ h)
      · rfl
  · rw [W₀.get_set_of_ne hk]
    exact ⟨.inl, fun h => h.resolve_right fun hpk => hk hpk.2.symm⟩

theorem Within.add (h₀ : W₀.Within W) {p : Object} (hp : W.get p.key = some p) :
    (W₀.apply ⟨.add, p⟩).Within W := by
  intro k x hx
  rcases (h₀.get_add hp k x).1 hx with h | ⟨rfl, rfl⟩
  · exact h₀ k x h
  · exact hp

/-- Adding live objects one by one reaches no other object and loses none. -/
theorem get_foldl_add (hlive : ∀ o ∈ objs, W.get o.key = some o) (h₀ : W₀.Within W)
    (key : GoString) (o : Object) :
    ((objs.map (⟨.add, ·⟩)).foldl apply W₀).get key = some o ↔
      W₀.get key = some o ∨ o ∈ objs ∧ o.key = key := by
  induction objs generalizing W₀ with
  | nil => simp
  | cons p objs ih =>
    have hp := hlive p (by simp)
    rw [List.map_cons, List.foldl_cons, ih (fun x hx => hlive x (by simp [hx])) (h₀.add hp),
      h₀.get_add hp, List.mem_cons]
    constructor
    · rintro ((h | ⟨rfl, h⟩) | ⟨h, hk⟩)
      · exact .inl h
      · exact .inr ⟨.inl rfl, h⟩
      · exact .inr ⟨.inr h, hk⟩
    · rintro (h | ⟨rfl | h, hk⟩)
      · exact .inl (.inl h)
      · exact .inl (.inr ⟨rfl, hk⟩)
      · exact .inr ⟨h, hk⟩

/-- Each of them is new or there already, so no edge is lost on the way. -/
theorem safeAll_add (hlive : ∀ o ∈ objs, W.get o.key = some o) (h₀ : W₀.Within W) :
    W₀.SafeAll (objs.map (⟨.add, ·⟩)) := by
  induction objs generalizing W₀ with
  | nil => trivial
  | cons p objs ih =>
    have hp := hlive p (by simp)
    refine ⟨?_, ih (fun x hx => hlive x (by simp [hx])) (h₀.add hp)⟩
    cases hget : W₀.get p.key with
    | none => exact safe_of_new hget
    | some x =>
      obtain rfl := Option.some.inj ((h₀ _ x hget).symm.trans hp)
      have hsame : W₀.apply ⟨.add, x⟩ = W₀ := by
        refine ext_get fun key => Option.ext fun y => ?_
        rw [h₀.get_add hp]
        refine or_iff_left_of_imp ?_
        rintro ⟨rfl, rfl⟩
        exact hget
      rintro y ⟨e, he, -⟩
      rw [hsame, Set.sdiff_self] at he
      exact he.elim

theorem Lists.foldl_add (h : W.Lists objs) :
    (objs.map (⟨.add, ·⟩)).foldl apply empty = W := by
  refine ext_get fun key => Option.ext fun o => ?_
  have hget := get_foldl_add (fun o ho => (h o).1 ho) (empty_within W) key o
  rw [hget]
  constructor
  · rintro (hnone | ⟨ho, rfl⟩)
    · cases hnone
    · exact (h o).1 ho
  · intro ho
    have hkey := W.keyed key o ho
    exact .inr ⟨(h o).2 (hkey ▸ ho), hkey⟩

end World

theorem validateObjects_typed (objs : List Object) :
    validateObjects (objs.map .typed) = .ok objs := by
  induction objs with
  | nil => rfl
  | cons o objs ih =>
    rw [List.map_cons, validateObjects, ih]
    rfl

/-- A fresh writer that takes in a list of the live objects follows a ledger with the same
    live objects, and leaves no dangling edge. -/
theorem World.Lists.rebuild {objs : List Object} (h : W.Lists objs) (onChange : Bool)
    (watched : Finset NodeKind) {env : Env}
    (hw : (new onChange watched).fromObjects env (objs.map .typed) = some (w, .ok ())) :
    ∃ L T, w.Follows onChange L T ∧ T.Closed ∧ L.world = W ∧ w.snap.isSome := by
  have hstep : (new onChange watched).step (.fromObjects env (objs.map .typed)) = some w := by
    rw [step, hw]
    rfl
  have happlied : Ledger.empty.applied (.fromObjects env (objs.map .typed)) =
      objs.map (⟨.add, ·⟩) :=
    Ledger.applied_of_valid rfl (validateObjects_typed objs)
  have hsafe := safeAll_add (fun o ho => (h o).1 ho) (empty_within W)
  have hnew := follows_new onChange watched
  refine ⟨_, _, hnew.step_of_quiet rfl hstep, ?_, ?_, ?_⟩
  · rw [happlied]
    exact hnew.faithful.closed_advanceAll Topology.closed_empty hsafe
  · simp only [Ledger.step, happlied]
    exact h.foldl_add
  · cases stepped_of_step hstep with
    | refused hrefused => cases hrefused objs (validateObjects_typed objs)
    | seeded => rfl
    | done hop => cases hop

/-! ## The representation invariant -/

namespace Build

variable {s : Build} {T : Topology}

/-- The namespace of a node is a node, when the topology has the Namespace of each node. -/
theorem Refines.ns_mem (h : s.Refines T)
    (hns : ∀ x n k, T.node x = some n → n.ns = some k → T.node k ≠ none) {id : NodeID}
    {info : NodeInfo} (hinfo : s.nodes.lookup id = some info) :
    info.ns = noNode ∨ info.ns ∈ s.nodes := by
  refine (h.wf.nsLinks id info hinfo).imp_right fun hsome => ?_
  obtain ⟨k, hk⟩ := Option.isSome_iff_exists.1 hsome
  obtain ⟨x, hx⟩ := Option.isSome_iff_exists.1 (h.wf.nodes id (by simp [hinfo]))
  rw [mem_nodes_iff hk, h.means]
  refine hns x (info.view s.intern) k ?_ hk
  rw [← h.means, view_node hx, hinfo]
  rfl

end Build

namespace Writer

variable {w : Writer} {L : Ledger} {T : Topology}

theorem Follows.wellFormed (h : w.Follows tracking L T) (hclosed : T.Closed)
    (hS : w.snap = some S) :
    S.WellFormed ∧ ∀ id, Map.getD w.priv.refcnt id 0 = S.degree id := by
  have hb := h.batch
  rw [newBatch_of_snap hS] at hb
  have hwf := hb.wf.adjacency
  refine ⟨⟨?_, ?_, hwf.mirror, hwf.outSorted, hwf.inSorted, hwf.counted, ?_⟩, hb.wf.refcnt⟩
  · intro id e he
    exact hb.ends_mem hclosed (e := ⟨id, e.dst, e.kind⟩) he
  · intro id e he
    have hmem := (hwf.mirror e.dst id e.kind).2 he
    exact (hb.ends_mem hclosed (e := ⟨e.dst, id, e.kind⟩) hmem).symm
  · intro id info hinfo
    exact hb.ns_mem h.faithful.populated.nsPresent hinfo

end Writer

end

/-! ## A swap -/

namespace Sample

/-- Selectors that ask for exact label values. The sample objects have no contents to digest. -/
scoped instance platform : Platform where
  Selector := Labels
  LabelSelector := Labels
  selectorFromSet := id
  labelSelectorAsSelector := some
  matchesLabels sel labels :=
    (Map.sortedKeys sel).all fun k => decide (labels.lookup k = sel.lookup k)
  sha256 := id

/-- All loops run in ascending order, at time zero. -/
def env : Env := ⟨fun _ => 0, fun _ => .ascending, fun _ => .ascending⟩

def podMeta (owners : List OwnerReference) : ObjectMeta :=
  ⟨⟨bytes "ns", by decide +kernel⟩, bytes "p", [], ∅, owners⟩

/-- A pod with a Node as its owner, and nothing else. -/
def ownedPod : Object := .pod ⟨podMeta [⟨bytes "Node", bytes "n1"⟩], [], [], [], []⟩

/-- The same pod without an owner, bound to the Node. -/
def boundPod : Object := .pod ⟨podMeta [], bytes "n1", [], [], []⟩

def nodeN1 : GoString := nodeKey .node [] (bytes "n1")

/-- The update takes away the only edge at the Node, which is not observed, and adds another. -/
def swapRun : List WriterOp :=
  [.apply [⟨1, .typed ownedPod⟩], .flush env, .apply [⟨2, .typed boundPod⟩], .flush env]

theorem lists_boundPod : (empty.apply ⟨.add, boundPod⟩).Lists [boundPod] := by
  intro o
  rw [apply_upsert _ (by simp), List.mem_singleton]
  by_cases ho : o.key = boundPod.key
  · rw [ho, get_set_self, Option.some.injEq, eq_comm]
  · rw [get_set_of_ne _ ho]
    exact iff_of_false (fun h => ho (h ▸ rfl)) (by simp [empty])

/-- The update leaves the bound pod alone. -/
theorem world_swapRun : (Ledger.empty.run swapRun).world = empty.apply ⟨.add, boundPod⟩ := by
  exact apply_apply empty (d := ⟨.add, ownedPod⟩) rfl

/-- A Node with nothing but a name. -/
def bareNode (name : GoString) : Object :=
  .node ⟨⟨⟨PathSegment.empty, name, [], ∅, []⟩, rfl⟩, false⟩

def nodeRun (name : GoString) : List WriterOp :=
  [.apply [⟨1, .typed (bareNode name)⟩], .flush env]

/-- The pod is deleted, the graph compacted, and the pod added again with the other edge. -/
def rebindRun : List WriterOp :=
  [.apply [⟨1, .typed ownedPod⟩], .flush env, .apply [⟨3, .typed ownedPod⟩],
    .compact env env.loops, .apply [⟨1, .typed boundPod⟩], .flush env]

theorem safe_rebindRun : Ledger.empty.SafeRun rebindRun := by
  exact ⟨trivial, ⟨safe_of_new rfl, trivial⟩, trivial, ⟨safe_of_delete rfl, trivial⟩, trivial,
    ⟨safe_of_new (get_set_self _ _ _ (survivor_key _)), trivial⟩, trivial⟩

theorem rebindRun_keeps_edge :
    ∃ w ∈ (new false ∅).run rebindRun, ∃ S ∈ w.snap, S.HasEdge boundPod.key nodeN1 .runsOn := by
  decide +kernel

/-- The pod is bound from the start. -/
def boundRun : List WriterOp := [.apply [⟨1, .typed boundPod⟩], .flush env]

theorem safe_boundRun : Ledger.empty.SafeRun boundRun := by
  exact ⟨trivial, ⟨safe_of_new rfl, trivial⟩, trivial⟩

theorem world_rebindRun : (Ledger.empty.run rebindRun).world = empty.apply ⟨.add, boundPod⟩ := by
  have hdeleted := apply_apply (empty.apply ⟨.add, ownedPod⟩) (d := ⟨.delete, ownedPod⟩)
    (show _ = (⟨.add, boundPod⟩ : Delta).object.key from rfl)
  exact hdeleted.trans (apply_apply empty (d := ⟨.add, ownedPod⟩) rfl)

end Sample

/-! ## Results over runs -/

open Sample

/-- Incremental maintenance equals a rebuild, for safe deltas. -/
theorem published_eq_rebuild [Platform] (onChange : Bool) (watched : Finset NodeKind)
    (ops : List WriterOp)
    (hsafe : Ledger.empty.SafeRun ops)
    (w : Writer) (hrun : (new onChange watched).run ops = some w)
    (S : Snapshot) (hS : w.snap = some S)
    (objs : List Object) (hobjs : (Ledger.empty.run ops).world.Lists objs)
    (onChange' : Bool) (watched' : Finset NodeKind) (env : Env) (w' : Writer)
    (hrebuild : (new onChange' watched').fromObjects env (objs.map .typed) =
      some (w', .ok ())) :
    ∃ S', w'.snap = some S' ∧
      (∀ a b k, S.HasEdge a b k ↔ S'.HasEdge a b k) ∧ ∀ key, S.Observes key ↔ S'.Observes key := by
  obtain ⟨hT, hclosed⟩ :=
    (follows_new onChange watched).run_of_safe Topology.closed_empty hsafe hrun
  obtain ⟨L', T', hT', hclosed', hworld, hsome⟩ := hobjs.rebuild onChange' watched' hrebuild
  obtain ⟨S', hS'⟩ := Option.isSome_iff_exists.1 hsome
  exact ⟨S', hS', hT.same_graph hclosed hT' hclosed' hworld.symm hS hS'⟩

/-- The swap loses the edge, and a rebuild has it. -/
theorem swap_loses_edge :
    ∃ w S w' S', (new false ∅).run swapRun = some w ∧ w.snap = some S ∧
      (Ledger.empty.run swapRun).world.Lists [boundPod] ∧
      (new false ∅).fromObjects env [.typed boundPod] = some (w', .ok ()) ∧
      w'.snap = some S' ∧
      ¬ S.HasEdge boundPod.key nodeN1 .runsOn ∧ S'.HasEdge boundPod.key nodeN1 .runsOn := by
  have hrun : ∃ w ∈ (new false ∅).run swapRun, ∃ S ∈ w.snap,
      ¬ S.HasEdge boundPod.key nodeN1 .runsOn := by
    decide +kernel
  have hrebuild : ∃ r ∈ (new false ∅).fromObjects env [.typed boundPod],
      r.2 = .ok () ∧ ∃ S ∈ r.1.snap, S.HasEdge boundPod.key nodeN1 .runsOn := by
    decide +kernel
  obtain ⟨w, hw, S, hS, hno⟩ := hrun
  obtain ⟨⟨w', e⟩, hw', rfl, S', hS', hyes⟩ := hrebuild
  exact ⟨w, S, w', S', hw, hS, world_swapRun ▸ lists_boundPod, hw', hS', hno, hyes⟩

/-- With a deletion in between the edge is there, as in the rebuild. -/
theorem rebindRun_eq_rebuild :
    ∃ w S w' S', (new false ∅).run rebindRun = some w ∧ w.snap = some S ∧
      S.HasEdge boundPod.key nodeN1 .runsOn ∧
      (new true ∅).fromObjects env [.typed boundPod] = some (w', .ok ()) ∧
      w'.snap = some S' ∧
      (∀ a b k, S.HasEdge a b k ↔ S'.HasEdge a b k) ∧ ∀ key, S.Observes key ↔ S'.Observes key := by
  have hrebuild : ∃ r ∈ (new true ∅).fromObjects env [.typed boundPod], r.2 = .ok () := by
    decide +kernel
  obtain ⟨w, hw, S, hS, hedge⟩ := rebindRun_keeps_edge
  obtain ⟨⟨w', e⟩, hw', rfl⟩ := hrebuild
  obtain ⟨S', hS', hsame⟩ := published_eq_rebuild false ∅ rebindRun safe_rebindRun w hw S hS
    [boundPod] (world_rebindRun ▸ lists_boundPod) true ∅ env w' hw'
  exact ⟨w, S, w', S', hw, hS, hedge, hw', hS', hsame⟩

/-- Every snapshot that a run of safe deltas publishes is well formed, and the writer's
    reference counts are the numbers of edge ends at each node. The snapshot that `Compact`
    publishes before it renumbers is that of a flush in its place. -/
theorem published_wellFormed [Platform] (onChange : Bool) (watched : Finset NodeKind)
    (ops : List WriterOp)
    (hsafe : Ledger.empty.SafeRun ops)
    (w : Writer) (hrun : (new onChange watched).run ops = some w)
    (S : Snapshot) (hS : w.snap = some S) :
    S.WellFormed ∧ ∀ id, Map.getD w.priv.refcnt id 0 = S.degree id := by
  obtain ⟨hT, hclosed⟩ :=
    (follows_new onChange watched).run_of_safe Topology.closed_empty hsafe hrun
  exact hT.wellFormed hclosed hS

/-- The swap publishes an edge whose target is not a node. -/
theorem swap_dangles :
    ∃ w S, (new false ∅).run swapRun = some w ∧ w.snap = some S ∧ ¬ S.WellFormed := by
  have hrun : ∃ w ∈ (new false ∅).run swapRun, ∃ S ∈ w.snap,
      ∃ e ∈ S.halfEdges, e.dst ∉ S.nodes := by
    decide +kernel
  obtain ⟨w, hw, S, hS, e, he, hdst⟩ := hrun
  refine ⟨w, S, hw, hS, fun hwf => hdst ?_⟩
  exact (hwf.outEnds e.src ⟨e.dst, e.kind⟩ (Snapshot.mem_halfEdges.1 he)).2

theorem rebindRun_wellFormed :
    ∃ w S, (new false ∅).run rebindRun = some w ∧ w.snap = some S ∧
      S.HasEdge boundPod.key nodeN1 .runsOn ∧
      S.WellFormed ∧ ∀ id, Map.getD w.priv.refcnt id 0 = S.degree id := by
  obtain ⟨w, hw, S, hS, hedge⟩ := rebindRun_keeps_edge
  exact ⟨w, S, hw, hS, hedge, published_wellFormed false ∅ rebindRun safe_rebindRun w hw S hS⟩

/-- The published graph depends on the live objects alone: not on the order or the batching
    of the safe deltas that led to them, on compactions or on the change hook. -/
theorem published_converges [Platform] {onChange onChange' : Bool}
    {watched watched' : Finset NodeKind} {ops ops' : List WriterOp}
    (hsafe : Ledger.empty.SafeRun ops) (hsafe' : Ledger.empty.SafeRun ops') {w w' : Writer}
    (hrun : (new onChange watched).run ops = some w)
    (hrun' : (new onChange' watched').run ops' = some w')
    (hworld : (Ledger.empty.run ops).world = (Ledger.empty.run ops').world)
    {S S' : Snapshot} (hS : w.snap = some S) (hS' : w'.snap = some S') :
    (∀ a b k, S.HasEdge a b k ↔ S'.HasEdge a b k) ∧ ∀ key, S.Observes key ↔ S'.Observes key := by
  have h := (follows_new onChange watched).run_of_safe Topology.closed_empty hsafe hrun
  have h' := (follows_new onChange' watched').run_of_safe Topology.closed_empty hsafe' hrun'
  exact h.1.same_graph h.2 h'.1 h'.2 hworld hS hS'

/-- The rebinding with compactions, and the pod bound from the start under a change hook. -/
theorem rebindRun_converges :
    ∃ w ∈ (new false ∅).run rebindRun, ∃ w' ∈ (new true ∅).run boundRun, ∃ S ∈ w.snap,
      ∃ S' ∈ w'.snap, S.HasEdge boundPod.key nodeN1 .runsOn ∧
        (∀ a b k, S.HasEdge a b k ↔ S'.HasEdge a b k) ∧
        ∀ key, S.Observes key ↔ S'.Observes key := by
  have hbound : ∃ w' ∈ (new true ∅).run boundRun, w'.snap.isSome := by
    decide +kernel
  obtain ⟨w, hw, S, hS, hedge⟩ := rebindRun_keeps_edge
  obtain ⟨w', hw', hsome'⟩ := hbound
  obtain ⟨S', hS'⟩ := Option.isSome_iff_exists.1 hsome'
  refine ⟨w, hw, w', hw', S, hS, S', hS', hedge, ?_⟩
  exact published_converges safe_rebindRun safe_boundRun hw hw' world_rebindRun hS hS'

end Lookout
