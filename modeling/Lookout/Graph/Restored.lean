-- SUMMARY: Restoring a snapshot from its binary format: it is well formed exactly when the records of the blob are clean.
import Lookout.Graph.Effect
import Lookout.Graph.Snapshot

/-!
# Restored snapshots

A stored snapshot is a header, a version byte and a compressed body. The body holds
the generation, the interner's keys, one record for each node and one for each
source of edges, and since version 2 the watched kinds. Only the forward slices are
stored. `Restore` fills the maps from the records in the order in which they come, and
sorts the reverse slices at the end.

A record is checked on its own when it is read. Whether the snapshot is well formed then
depends on how the records fit together. A source that comes twice leaves the edges
of its first record in the reverse index only. An unsorted slice stays unsorted. A
namespace link may name a key that no node record has.
-/

namespace Lookout

/-- What is read of `compress/gzip`. -/
structure Gzip where
  decompress : GoString → Except GoString GoString

/-- `LKGH` -/
def snapshotMagic : GoString := [0x4c, 0x4b, 0x47, 0x48]

def snapshotFormatVersion : UInt8 := 2

def snapshotFormatV1 : UInt8 := 1

/-- How a restore fails. All of them are wrapped in `ErrBadSnapshot`. -/
inductive RestoreError where
  | missingHeader
  | version (v : UInt8)
  | gzip (text : GoString)
  | keyCount (n : Nat)
  | nodeCount (n identities : Nat)
  | nodeRecord (id : NodeID) (kind : UInt8) (ns : NodeID)
  | edgesFromUnknown (src : NodeID)
  | edgeCount (n : Nat)
  | edgeKind (kind : UInt8)
  | edgeToUnknown (dst : NodeID)
  | watchedCount (n : Nat)
  | watchedKind (kind : UInt8)
  | watchedFlag (flag : UInt8)
  | decode (e : DecodeError)
  | trailing (n : Nat)
  deriving DecidableEq, Repr

/-! ## Reading records -/

open Decoder (fail many)

def readNode (numKeys : Nat) : Decoder RestoreError (NodeID × NodeInfo) := do
  let id ← Wire.id .decode
  let kind ← Wire.byte .decode
  let observed ← Wire.byte .decode
  let ns ← Wire.id .decode
  match NodeKind.ofCode? kind with
  | none => fail (.nodeRecord id kind ns)
  | some k =>
    if id = noNode ∨ numKeys < id ∨ 1 < observed ∨ (ns ≠ noNode ∧ numKeys < ns) then
      fail (.nodeRecord id kind ns)
    else return (id, ⟨k, observed == 1, ns⟩)

def readEdge (nodes : Map NodeID NodeInfo) : Decoder RestoreError Edge := do
  let kind ← Wire.byte .decode
  let dst ← Wire.id .decode
  match EdgeKind.ofCode? kind with
  | none => fail (.edgeKind kind)
  | some k => if dst ∉ nodes then fail (.edgeToUnknown dst) else return ⟨dst, k⟩

def readSource (bodyLen : Nat) (nodes : Map NodeID NodeInfo) :
    Decoder RestoreError (NodeID × List Edge) := do
  let src ← Wire.id .decode
  let n ← Wire.uvarint .decode
  if src ∉ nodes then fail (.edgesFromUnknown src)
  else if bodyLen < n then fail (.edgeCount n)
  else
    let edges ← many (readEdge nodes) n
    return (src, edges)

def readWatchedKind : Decoder RestoreError NodeKind := do
  let k ← Wire.byte .decode
  match NodeKind.ofCode? k with
  | none => fail (.watchedKind k)
  | some kind => return kind

/-- The watched kinds, which version 1 does not have. -/
def readWatched (version : UInt8) : Decoder RestoreError (Option (List NodeKind)) :=
  if version < snapshotFormatVersion then pure none
  else do
    let flag ← Wire.byte .decode
    if flag = 0 then return none
    else if flag = 1 then
      let n ← Wire.uvarint .decode
      if NodeKind.all.length < n then fail (.watchedCount n)
      else
        let kinds ← many readWatchedKind n
        return some kinds
    else fail (.watchedFlag flag)

/-- What a body says, record by record. -/
structure Records where
  generation : Nat
  keys : List GoString
  nodes : List (NodeID × NodeInfo)
  sources : List (NodeID × List Edge)
  watched : Option (List NodeKind)

/-- The node map: a later record of a node replaces an earlier one. -/
def nodesOf (rs : List (NodeID × NodeInfo)) : Map NodeID NodeInfo :=
  rs.foldl (fun m r => m.insert r.1 r.2) ∅

def readRecords (version : UInt8) (bodyLen : Nat) : Decoder RestoreError Records := do
  let generation ← Wire.uvarint .decode
  let numKeys ← Wire.uvarint .decode
  if bodyLen < numKeys then fail (.keyCount numKeys)
  else
    let keys ← many (Wire.str .decode) numKeys
    let numNodes ← Wire.uvarint .decode
    if numKeys < numNodes then fail (.nodeCount numNodes numKeys)
    else
      let nodes ← many (readNode numKeys) numNodes
      let numSources ← Wire.uvarint .decode
      let sources ← many (readSource bodyLen (nodesOf nodes)) numSources
      let watched ← readWatched version
      return ⟨generation, keys, nodes, sources, watched⟩

/-! ## Restore -/

/-- Append an edge to the reverse slice of its target. -/
def addReverse (src : NodeID) (m : Map NodeID (List Edge)) (e : Edge) : Map NodeID (List Edge) :=
  m.insert e.dst (Map.getD m e.dst [] ++ [⟨src, e.kind⟩])

/-- Store one source: its slice replaces an earlier one, and its edges join the reverse
    slices and the count. -/
def addSource (a : Adjacency) (r : NodeID × List Edge) : Adjacency where
  out := a.out.insert r.1 r.2
  in_ := r.2.foldl (addReverse r.1) a.in_
  edges := a.edges + r.2.length

/-- The numbers of the keys. The empty key gets none. -/
def keyIDs (keys : List GoString) : Map GoString NodeID :=
  keys.zipIdx.foldl (fun m p => if p.1 = [] then m else m.insert p.1 ((p.2 + 1) % 2 ^ 32)) ∅

/-- A slice in the order that the writer keeps. -/
def sortEdges (l : List Edge) : List Edge := SortedList.sort EdgeLt l

/-- The adjacency that source records describe, with the reverse slices in the order of
    the records. -/
def adjacencyOf (rs : List (NodeID × List Edge)) : Adjacency := rs.foldl addSource Adjacency.empty

/-- The snapshot that the records describe. -/
def Records.snapshot (R : Records) : Snapshot where
  out := (adjacencyOf R.sources).out
  in_ := Map.mapVals sortEdges (adjacencyOf R.sources).in_
  edges := (adjacencyOf R.sources).edges
  nodes := nodesOf R.nodes
  keys := R.keys
  ids := keyIDs R.keys
  watched := R.watched.map List.toFinset
  generation := R.generation

/-- The records of a stored snapshot. -/
def restoreRecords (gz : Gzip) (data : GoString) : Except RestoreError Records :=
  if data.length < 5 ∨ data.take 4 ≠ snapshotMagic then .error .missingHeader
  else
    let version := data.getD 4 0
    if version ≠ snapshotFormatV1 ∧ version ≠ snapshotFormatVersion then .error (.version version)
    else
      match gz.decompress (data.drop 5) with
      | .error text => .error (.gzip text)
      | .ok body =>
        match readRecords version body.length body with
        | .error e => .error e
        | .ok (R, []) => .ok R
        | .ok (_, rest) => .error (.trailing rest.length)

/-- `Restore` -/
def restore (gz : Gzip) (data : GoString) : Except RestoreError Snapshot :=
  (restoreRecords gz data).map Records.snapshot

/-! ## The adjacency of source records -/

variable (rs : List (NodeID × List Edge))

/-- The reverse slice of `j` as the records fill it. -/
def reverseOf (j : NodeID) : List Edge :=
  rs.flatMap fun r => (r.2.filter (·.dst = j)).map fun e => ⟨r.1, e.kind⟩

/-- Every record that a later record of the same source replaces is empty. -/
def NoReplaced : Prop :=
  rs.Pairwise fun r r' => r.1 = r'.1 → r.2 = []

theorem adjacencyOf_append (r : NodeID × List Edge) :
    adjacencyOf (rs ++ [r]) = addSource (adjacencyOf rs) r :=
  List.foldl_append

variable {i j : NodeID} {r : NodeID × List Edge} {k : EdgeKind} {nodes : Map NodeID NodeInfo}
  {rs : List (NodeID × List Edge)}

theorem noReplaced_append :
    NoReplaced (rs ++ [r]) ↔ NoReplaced rs ∧ ∀ r' ∈ rs, r'.1 = r.1 → r'.2 = [] := by
  simp [NoReplaced, List.pairwise_append]

theorem getD_foldl_addReverse (src : NodeID) (es : List Edge) (m : Map NodeID (List Edge))
    (j : NodeID) :
    Map.getD (es.foldl (addReverse src) m) j [] =
      Map.getD m j [] ++ (es.filter (·.dst = j)).map fun e => ⟨src, e.kind⟩ := by
  induction es generalizing m with
  | nil => simp
  | cons e es ih =>
    rw [List.foldl_cons, ih, addReverse, Map.getD_insert]
    by_cases hj : j = e.dst
    · subst hj
      simp
    · simp [hj, Ne.symm hj]

theorem inOf_adjacencyOf (rs : List (NodeID × List Edge)) (j : NodeID) :
    (adjacencyOf rs).inOf j = reverseOf rs j := by
  induction rs using List.reverseRecOn with
  | nil => rfl
  | append_singleton rs r ih =>
    rw [adjacencyOf_append, Adjacency.inOf, addSource, getD_foldl_addReverse]
    rw [Adjacency.inOf] at ih
    simp [ih, reverseOf]

variable {e : Edge} {bs rest : GoString} {bodyLen : Nat} {R : Records}

theorem mem_reverseOf :
    (⟨i, k⟩ : Edge) ∈ reverseOf rs j ↔ ∃ r ∈ rs, r.1 = i ∧ (⟨j, k⟩ : Edge) ∈ r.2 := by
  simp only [reverseOf, List.mem_flatMap, List.mem_map, List.mem_filter, decide_eq_true_eq]
  constructor
  · rintro ⟨r, hr, ⟨dst, kind⟩, ⟨he, rfl⟩, heq⟩
    cases heq
    exact ⟨r, hr, rfl, he⟩
  · rintro ⟨r, hr, rfl, he⟩
    exact ⟨r, hr, ⟨j, k⟩, ⟨he, rfl⟩, rfl⟩

/-- The slice of a source is that of its last record. -/
theorem outOf_adjacencyOf_append (rs : List (NodeID × List Edge)) (r : NodeID × List Edge)
    (i : NodeID) :
    (adjacencyOf (rs ++ [r])).outOf i = if i = r.1 then r.2 else (adjacencyOf rs).outOf i := by
  rw [adjacencyOf_append, Adjacency.outOf, addSource, Map.getD_insert]
  rfl

theorem outOf_eq_nil_or (rs : List (NodeID × List Edge)) (i : NodeID) :
    (adjacencyOf rs).outOf i = [] ∨ ∃ r ∈ rs, r.1 = i ∧ (adjacencyOf rs).outOf i = r.2 := by
  induction rs using List.reverseRecOn with
  | nil => exact .inl rfl
  | append_singleton rs r ih =>
    rw [outOf_adjacencyOf_append]
    split
    · next hi => exact .inr ⟨r, by simp, hi.symm, rfl⟩
    · rcases ih with hnil | ⟨r', hr', hi, heq⟩
      · exact .inl hnil
      · exact .inr ⟨r', by simp [hr'], hi, heq⟩

/-- With nothing replaced, a record that has edges is the slice of its source. -/
theorem NoReplaced.outOf (h : NoReplaced rs) (hr : r ∈ rs) (hne : r.2 ≠ []) :
    (adjacencyOf rs).outOf r.1 = r.2 := by
  induction rs using List.reverseRecOn with
  | nil => simp at hr
  | append_singleton rs last ih =>
    obtain ⟨hrs, hlast⟩ := noReplaced_append.1 h
    rw [outOf_adjacencyOf_append]
    rcases List.mem_append.1 hr with hr | hr
    · rw [if_neg fun heq => hne (hlast r hr heq)]
      exact ih hrs hr
    · rw [List.mem_singleton.1 hr, if_pos rfl]

theorem NoReplaced.mem_outOf (h : NoReplaced rs) :
    e ∈ (adjacencyOf rs).outOf i ↔ ∃ r ∈ rs, r.1 = i ∧ e ∈ r.2 := by
  constructor
  · intro he
    rcases outOf_eq_nil_or rs i with hnil | ⟨r, hr, hi, heq⟩
    · rw [hnil] at he
      cases he
    · exact ⟨r, hr, hi, heq ▸ he⟩
  · rintro ⟨r, hr, rfl, he⟩
    rwa [h.outOf hr (List.ne_nil_of_mem he)]

/-- The count is that of the stored slices exactly when nothing is replaced. -/
theorem edges_adjacencyOf_iff (rs : List (NodeID × List Edge)) :
    Map.total (adjacencyOf rs).out ≤ (adjacencyOf rs).edges ∧
      ((adjacencyOf rs).edges = Map.total (adjacencyOf rs).out ↔ NoReplaced rs) := by
  induction rs using List.reverseRecOn with
  | nil => exact ⟨Int.le_refl _, by simp [adjacencyOf, Adjacency.empty, NoReplaced]⟩
  | append_singleton rs r ih =>
    obtain ⟨hle, hiff⟩ := ih
    have htotal := Map.total_insert (adjacencyOf rs).out r.1 r.2
    have hedges : (adjacencyOf (rs ++ [r])).edges = (adjacencyOf rs).edges + r.2.length := by
      rw [adjacencyOf_append]
      rfl
    have hout : (adjacencyOf (rs ++ [r])).out = (adjacencyOf rs).out.insert r.1 r.2 := by
      rw [adjacencyOf_append]
      rfl
    rw [hedges, hout, noReplaced_append, ← hiff]
    refine ⟨by omega, ?_⟩
    constructor
    · intro heq
      have hcount : (adjacencyOf rs).edges = Map.total (adjacencyOf rs).out := by omega
      have hnil : (adjacencyOf rs).outOf r.1 = [] := List.length_eq_zero_iff.1 (by
        unfold Adjacency.outOf
        omega)
      refine ⟨hcount, fun r' hr' hsrc => ?_⟩
      by_contra hne
      exact hne ((hiff.1 hcount).outOf hr' hne ▸ hsrc ▸ hnil)
    · rintro ⟨hcount, hempty⟩
      have hnil : (adjacencyOf rs).outOf r.1 = [] := by
        rcases outOf_eq_nil_or rs r.1 with hnil | ⟨r', hr', hsrc, heq⟩
        · exact hnil
        · rw [heq, hempty r' hr' hsrc]
      have hlen : (Map.getD (adjacencyOf rs).out r.1 []).length = 0 := by
        rw [← Adjacency.outOf, hnil]
        rfl
      omega

/-- With nothing replaced and every slice sorted, no edge comes twice. -/
theorem NoReplaced.nodup_reverseOf (h : NoReplaced rs) (hsorted : ∀ r ∈ rs, r.2.Pairwise EdgeLt)
    (j : NodeID) : (reverseOf rs j).Nodup := by
  refine List.nodup_flatMap.2 ⟨fun r hr => ?_, ?_⟩
  · -- Within a slice of edges to `j`, the kind tells the edges apart.
    have hnodup := (SortedList.nodup (hsorted r hr)).filter (·.dst = j)
    refine List.Nodup.map_on (fun e he f hf heq => ?_) hnodup
    have hdst : e.dst = f.dst := by
      rw [of_decide_eq_true (List.mem_filter.1 he).2, of_decide_eq_true (List.mem_filter.1 hf).2]
    cases e
    cases f
    simp_all
  · -- Two records with edges have different sources.
    refine h.imp fun {r r'} hreplaced => ?_
    intro e he he'
    obtain ⟨f, hf, rfl⟩ := List.mem_map.1 he
    obtain ⟨f', hf', heq⟩ := List.mem_map.1 he'
    have hsrc : r.1 = r'.1 := (congrArg Edge.dst heq).symm
    rw [hreplaced hsrc] at hf
    simp at hf

/-! ## The nodes of node records -/

theorem lookup_nodesOf_append (rs : List (NodeID × NodeInfo)) (r : NodeID × NodeInfo)
    (id : NodeID) :
    (nodesOf (rs ++ [r])).lookup id = if id = r.1 then some r.2 else (nodesOf rs).lookup id := by
  rw [nodesOf, List.foldl_append]
  exact Map.lookup_insert ..

theorem mem_nodesOf {rs : List (NodeID × NodeInfo)} {id : NodeID} :
    id ∈ nodesOf rs ↔ ∃ r ∈ rs, r.1 = id := by
  induction rs using List.reverseRecOn with
  | nil => exact iff_of_false Finmap.notMem_empty (by simp)
  | append_singleton rs r ih =>
    rw [Map.mem_iff_ne_none] at ih ⊢
    rw [lookup_nodesOf_append]
    split
    · next hid => simp [hid]
    · next hid => simp [ih, Ne.symm hid]

/-- A node is what its last record says. -/
theorem lookup_nodesOf (rs : List (NodeID × NodeInfo)) (id : NodeID) :
    (nodesOf rs).lookup id = rs.reverse.lookup id := by
  induction rs using List.reverseRecOn with
  | nil => rfl
  | append_singleton rs r ih =>
    rw [lookup_nodesOf_append, ih, List.reverse_append, List.reverse_singleton,
      List.singleton_append, List.lookup_cons]
    by_cases hid : id = r.1
    · simp [hid]
    · simp [hid, beq_eq_false_iff_ne.2 hid]

/-! ## Clean records -/

namespace Records

/-- What a body must say beyond what the reader checks. No record with edges is replaced,
    every slice is strictly sorted, and the last record of each node links to a node. -/
structure Clean (R : Records) : Prop where
  replaced : NoReplaced R.sources
  sorted : ∀ r ∈ R.sources, r.2.Pairwise EdgeLt
  links : ∀ id info, R.nodes.reverse.lookup id = some info →
    info.ns = noNode ∨ ∃ r ∈ R.nodes, r.1 = info.ns

/-- What the reader checks: the ends of all edges are nodes. -/
def Checked (R : Records) : Prop :=
  ∀ r ∈ R.sources, r.1 ∈ nodesOf R.nodes ∧ ∀ e ∈ r.2, e.dst ∈ nodesOf R.nodes

variable {R : Records}

theorem inOf_snapshot (R : Records) (j : NodeID) :
    R.snapshot.inOf j = sortEdges (reverseOf R.sources j) := by
  rw [← inOf_adjacencyOf]
  exact Map.getD_mapVals sortEdges (adjacencyOf R.sources).in_ j []

theorem mem_inOf_snapshot :
    (⟨i, k⟩ : Edge) ∈ R.snapshot.inOf j ↔ ∃ r ∈ R.sources, r.1 = i ∧ (⟨j, k⟩ : Edge) ∈ r.2 := by
  rw [inOf_snapshot, sortEdges, (SortedList.perm_sort _).mem_iff, mem_reverseOf]

theorem links_iff : (∀ id info, R.snapshot.nodes.lookup id = some info →
      info.ns = noNode ∨ info.ns ∈ R.snapshot.nodes) ↔
    ∀ id info, R.nodes.reverse.lookup id = some info →
      info.ns = noNode ∨ ∃ r ∈ R.nodes, r.1 = info.ns := by
  change (∀ id info, (nodesOf R.nodes).lookup id = some info →
    info.ns = noNode ∨ info.ns ∈ nodesOf R.nodes) ↔ _
  simp only [lookup_nodesOf, mem_nodesOf]

/-- Clean records are what a well-formed snapshot needs. -/
theorem Checked.wellFormed_iff (h : R.Checked) : R.snapshot.WellFormed ↔ R.Clean := by
  have hcount := (edges_adjacencyOf_iff R.sources).2
  constructor
  · intro hwf
    have hreplaced : NoReplaced R.sources := hcount.1 hwf.counted
    refine ⟨hreplaced, fun r hr => ?_, links_iff.1 hwf.nsNodes⟩
    by_cases hne : r.2 = []
    · rw [hne]
      exact .nil
    · rw [← hreplaced.outOf hr hne]
      exact hwf.outSorted r.1
  · intro hclean
    have hout : ∀ {i e}, e ∈ R.snapshot.outOf i ↔ ∃ r ∈ R.sources, r.1 = i ∧ e ∈ r.2 :=
      hclean.replaced.mem_outOf
    refine ⟨?_, ?_, ?_, ?_, ?_, hcount.2 hclean.replaced, links_iff.2 hclean.links⟩
    · intro id e he
      obtain ⟨r, hr, rfl, he'⟩ := hout.1 he
      exact ⟨(h r hr).1, (h r hr).2 e he'⟩
    · intro id e he
      obtain ⟨r, hr, hsrc, he⟩ := mem_inOf_snapshot.1 he
      exact ⟨(h r hr).2 _ he, hsrc ▸ (h r hr).1⟩
    · intro i j k
      rw [hout, mem_inOf_snapshot]
    · intro id
      change ((adjacencyOf R.sources).outOf id).Pairwise EdgeLt
      rcases outOf_eq_nil_or R.sources id with hnil | ⟨r, hr, -, heq⟩
      · rw [hnil]
        exact .nil
      · rw [heq]
        exact hclean.sorted r hr
    · intro id
      rw [inOf_snapshot]
      exact SortedList.pairwise_sort (hclean.replaced.nodup_reverseOf hclean.sorted id)

end Records

/-! ## What the reader checks -/

open Decoder (bind_ok pure_ok fail_ok forall_of_many_ok)

theorem mem_of_readEdge (h : readEdge nodes bs = .ok (e, rest)) : e.dst ∈ nodes := by
  obtain ⟨kind, mid, -, h⟩ := bind_ok.1 h
  obtain ⟨dst, mid', -, h⟩ := bind_ok.1 h
  cases hkind : EdgeKind.ofCode? kind with
  | none => simp [hkind] at h
  | some k =>
    simp only [hkind] at h
    split at h
    · simp at h
    · next hmem =>
      obtain ⟨rfl, -⟩ := pure_ok.1 h
      exact not_not.1 hmem

theorem mem_of_readSource (h : readSource bodyLen nodes bs = .ok (r, rest)) :
    r.1 ∈ nodes ∧ ∀ e ∈ r.2, e.dst ∈ nodes := by
  obtain ⟨src, mid, -, h⟩ := bind_ok.1 h
  obtain ⟨n, mid', -, h⟩ := bind_ok.1 h
  split at h
  · simp at h
  · next hsrc =>
    split at h
    · simp at h
    · obtain ⟨edges, mid'', hedges, h⟩ := bind_ok.1 h
      obtain ⟨rfl, -⟩ := pure_ok.1 h
      exact ⟨not_not.1 hsrc, forall_of_many_ok (fun _ _ _ => mem_of_readEdge) hedges⟩

theorem checked_of_readRecords {version : UInt8}
    (h : readRecords version bodyLen bs = .ok (R, rest)) : R.Checked := by
  obtain ⟨generation, _, -, h⟩ := bind_ok.1 h
  obtain ⟨numKeys, _, -, h⟩ := bind_ok.1 h
  split at h
  · simp at h
  · obtain ⟨keys, _, -, h⟩ := bind_ok.1 h
    obtain ⟨numNodes, _, -, h⟩ := bind_ok.1 h
    split at h
    · simp at h
    · obtain ⟨nodes, _, -, h⟩ := bind_ok.1 h
      obtain ⟨numSources, _, -, h⟩ := bind_ok.1 h
      obtain ⟨sources, _, hsources, h⟩ := bind_ok.1 h
      obtain ⟨watched, _, -, h⟩ := bind_ok.1 h
      obtain ⟨rfl, -⟩ := pure_ok.1 h
      exact forall_of_many_ok (fun _ _ _ => mem_of_readSource) hsources

theorem checked_of_restoreRecords {gz : Gzip} {data : GoString} (h : restoreRecords gz data = .ok R) :
    R.Checked := by
  revert h
  fun_cases restoreRecords with
  | case5 =>
    rintro ⟨⟩
    exact checked_of_readRecords ‹_›
  | _ => nofun

namespace Sample

/-- Gzip on one stream, which is all that is read here. -/
def gzipOn (body stream : GoString) : Gzip where
  decompress z := if z = stream then .ok body else .error (bytes "gzip: invalid header")

/-- Version 1 of a body with the keys `a` and `b`, a node for each, and the source `a` in
    two records, with one edge to `b` each. -/
def repeatedBody : GoString :=
  [0, 2, 1, 0x61, 1, 0x62, 2, 1, 4, 1, 0, 2, 2, 1, 0, 2, 1, 1, 1, 2, 1, 1, 2, 2]

/-- The body as one stored block. -/
def repeatedStream : GoString :=
  [0x1f, 0x8b, 8, 0, 0, 0, 0, 0, 0, 0xff, 1, 24, 0, 0xe7, 0xff] ++ repeatedBody ++
    [0x1b, 0x5f, 0x73, 0xed, 24, 0, 0, 0]

end Sample

/-- `Restore` yields no malformed snapshot exactly for blobs whose records are clean. -/
theorem restore_wellFormed_iff (gz : Gzip) (data : GoString) :
    (∀ s, restore gz data = .ok s → s.WellFormed) ↔
      ∀ R, restoreRecords gz data = .ok R → R.Clean := by
  constructor
  · intro h R hR
    have hs : restore gz data = .ok R.snapshot := by
      rw [restore, hR]
      rfl
    exact (checked_of_restoreRecords hR).wellFormed_iff.1 (h _ hs)
  · intro h s hs
    unfold restore at hs
    cases hR : restoreRecords gz data with
    | error e =>
      rw [hR] at hs
      cases hs
    | ok R =>
      rw [hR] at hs
      cases hs
      exact (checked_of_restoreRecords hR).wellFormed_iff.2 (h R hR)

open Sample in
/-- A repeated source leaves an edge in the reverse index only. -/
theorem repeated_source_malformed :
    ∃ s, restore (gzipOn repeatedBody repeatedStream)
        (snapshotMagic ++ snapshotFormatV1 :: repeatedStream) = .ok s ∧ ¬ s.WellFormed := by
  have hrestore : ∃ s ∈ (restore (gzipOn repeatedBody repeatedStream)
      (snapshotMagic ++ snapshotFormatV1 :: repeatedStream)).toOption,
        (⟨1, .routesTo⟩ : Edge) ∈ s.inOf 2 ∧ (⟨2, .routesTo⟩ : Edge) ∉ s.outOf 1 := by
    decide +kernel
  obtain ⟨s, hs, hin, hout⟩ := hrestore
  generalize restore _ _ = res at hs
  cases res with
  | error e => cases hs
  | ok s' =>
    cases hs
    exact ⟨s, rfl, fun hwf => hout ((hwf.mirror 1 2 .routesTo).2 hin)⟩

end Lookout
