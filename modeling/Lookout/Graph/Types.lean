-- SUMMARY: Node and edge kinds, sorted adjacency slices, and identity keys of the topology graph.
import Lookout.Lib.Interner
import Lookout.Lib.SortedList

/-!
# Graph data types

Nodes are numbered identities. An identity is the key `Kind/namespace/name`, and
the writer's interner numbers the keys. Edges are typed, and every adjacency
slice is kept strictly sorted by `(Kind, To)`, so that it is searched by
bisection.

Go strings are byte strings, and a Go `uint32` node id is a natural number here.
The one place where its width shows is the interner's overflow check.
-/

namespace Lookout

/-- A Go string: any sequence of bytes. -/
abbrev GoString : Type := List UInt8

instance : @Std.Total GoString (· ≤ ·) := inferInstance

instance : IsTrans GoString (· ≤ ·) := inferInstance

instance : @Std.Antisymm GoString (· ≤ ·) := inferInstance

instance : LawfulBEq GoString := inferInstance

/-- The bytes of a string literal. -/
def bytes (s : String) : GoString := s.toUTF8.toList

theorem byteArray_toList_loop (b : ByteArray) (i : Nat) (r : List UInt8) :
    ByteArray.toList.loop b i r = r.reverse ++ b.data.toList.drop i := by
  fun_induction ByteArray.toList.loop b i r with
  | case1 i r hlt ih =>
    have hlt' : i < b.data.toList.length := by simpa using hlt
    have hget : b.get! i = b.data.toList[i] := by
      exact getElem!_pos b.data i hlt
    rw [ih, List.reverse_cons, List.append_assoc, hget, List.singleton_append,
      List.getElem_cons_drop]
  | case2 i r hge =>
    have hge' : b.data.toList.length ≤ i := by simpa using hge
    rw [List.drop_eq_nil_of_le hge', List.append_nil]

/-- Literals can be compared as strings. -/
theorem bytes_inj {s t : String} : bytes s = bytes t ↔ s = t := by
  constructor
  · intro h
    simp only [bytes, ByteArray.toList, byteArray_toList_loop, List.reverse_nil,
      List.nil_append, List.drop_zero, Array.toList_inj] at h
    exact String.toByteArray_inj.1 (ByteArray.ext h)
  · rintro rfl
    rfl

/-- The separator of identity keys. -/
def slash : UInt8 := 0x2f

/-- A byte of an ASCII letter in lower case. -/
def lowerByte (b : UInt8) : UInt8 := if 0x41 ≤ b ∧ b ≤ 0x5a then b + 0x20 else b

/-- A node number. Zero is `NoNode`. -/
abbrev NodeID : Type := Nat

def noNode : NodeID := 0

/-! ## Kinds -/

inductive NodeKind where
  | unknown
  | namespace_
  | node
  | zone
  | pod
  | container
  | service
  | endpointSlice
  | ingress
  | networkPolicy
  | configMap
  | secret
  | persistentVolumeClaim
  | deployment
  | replicaSet
  | statefulSet
  | daemonSet
  | job
  | cronJob
  deriving DecidableEq, Repr

namespace NodeKind

/-- All kinds in the order of their wire codes. -/
def all : List NodeKind :=
  [unknown, namespace_, node, zone, pod, container, service, endpointSlice, ingress,
    networkPolicy, configMap, secret, persistentVolumeClaim, deployment, replicaSet, statefulSet,
    daemonSet, job, cronJob]

/-- The byte a kind is stored as. -/
def code (k : NodeKind) : UInt8 := (all.idxOf k).toUInt8

/-- The kind stored as `b`, when `b` is below `numNodeKinds`. -/
def ofCode? (b : UInt8) : Option NodeKind := all[b.toNat]?

/-- The kind's name, as it stands in identity keys. -/
def name : NodeKind → GoString
  | unknown => bytes "Unknown"
  | namespace_ => bytes "Namespace"
  | node => bytes "Node"
  | zone => bytes "Zone"
  | pod => bytes "Pod"
  | container => bytes "Container"
  | service => bytes "Service"
  | endpointSlice => bytes "EndpointSlice"
  | ingress => bytes "Ingress"
  | networkPolicy => bytes "NetworkPolicy"
  | configMap => bytes "ConfigMap"
  | secret => bytes "Secret"
  | persistentVolumeClaim => bytes "PersistentVolumeClaim"
  | deployment => bytes "Deployment"
  | replicaSet => bytes "ReplicaSet"
  | statefulSet => bytes "StatefulSet"
  | daemonSet => bytes "DaemonSet"
  | job => bytes "Job"
  | cronJob => bytes "CronJob"

theorem mem_all (k : NodeKind) : k ∈ all := by
  cases k <;> decide

theorem ofCode?_code (k : NodeKind) : ofCode? k.code = some k := by
  cases k <;> decide

theorem name_noSlash (k : NodeKind) : slash ∉ k.name := by
  cases k <;> decide +kernel

theorem name_injective {k k' : NodeKind} (h : k.name = k'.name) : k = k' := by
  have hnodup : (all.map name).Nodup := by decide +kernel
  exact List.inj_on_of_nodup_map hnodup (mem_all k) (mem_all k') h

end NodeKind

inductive EdgeKind where
  | routesTo
  | selects
  | governs
  | runsOn
  | contains
  | mounts
  | owns
  deriving DecidableEq, Repr

namespace EdgeKind

/-- All kinds in the order of their wire codes, which start at one. -/
def all : List EdgeKind := [routesTo, selects, governs, runsOn, contains, mounts, owns]

/-- The byte a kind is stored as. Zero is `EdgeInvalid`, which no edge has. -/
def code (k : EdgeKind) : UInt8 := (all.idxOf k + 1).toUInt8

/-- The kind stored as `b`, unless `b` is `EdgeInvalid` or unknown. -/
def ofCode? (b : UInt8) : Option EdgeKind := Interner.keyAt all b.toNat

theorem ofCode?_code (k : EdgeKind) : ofCode? k.code = some k := by
  cases k <;> decide

theorem code_injective {k k' : EdgeKind} (h : k.code = k'.code) : k = k' := by
  have hk := ofCode?_code k
  rw [h, ofCode?_code k'] at hk
  exact (Option.some.inj hk).symm

end EdgeKind

/-! ## Edges and adjacency slices -/

/-- One entry of an adjacency slice. In a forward slice `dst` is the target, in a
    reverse slice it is the source. -/
structure Edge where
  dst : NodeID
  kind : EdgeKind
  deriving DecidableEq, Repr

/-- A fully specified directed edge. -/
structure HalfEdge where
  src : NodeID
  dst : NodeID
  kind : EdgeKind
  deriving DecidableEq, Repr

/-- The order of adjacency slices: by kind, then by node. -/
def edgeLess (a b : Edge) : Bool :=
  if a.kind ≠ b.kind then decide (a.kind.code < b.kind.code) else decide (a.dst < b.dst)

/-- `edgeLess` as a relation. -/
def EdgeLt (a b : Edge) : Prop := edgeLess a b = true

instance : DecidableRel EdgeLt := fun a b => inferInstanceAs (Decidable (edgeLess a b = true))

theorem edgeLt_iff {a b : Edge} :
    EdgeLt a b ↔ a.kind.code < b.kind.code ∨ (a.kind = b.kind ∧ a.dst < b.dst) := by
  unfold EdgeLt edgeLess
  by_cases h : a.kind = b.kind
  · simp [h]
  · simp [h]

instance : IsStrictTotalOrder Edge EdgeLt where
  trichotomous a b hab hba := by
    rw [edgeLt_iff] at hab hba
    push Not at hab hba
    have hcode : a.kind.code = b.kind.code := UInt8.le_antisymm (UInt8.not_lt.1 hba.1) (UInt8.not_lt.1 hab.1)
    have hkind := EdgeKind.code_injective hcode
    have hto : a.dst = b.dst := Nat.le_antisymm (hba.2 hkind.symm) (hab.2 hkind)
    cases a
    cases b
    simp_all
  irrefl a h := by
    rw [edgeLt_iff] at h
    rcases h with h | ⟨-, h⟩
    · exact absurd h (UInt8.lt_irrefl _)
    · exact absurd h (Nat.lt_irrefl _)
  trans a b c hab hbc := by
    rw [edgeLt_iff] at hab hbc ⊢
    rcases hab with hab | ⟨hk, hab⟩ <;> rcases hbc with hbc | ⟨hk', hbc⟩
    · exact .inl (UInt8.lt_trans hab hbc)
    · exact .inl (hk' ▸ hab)
    · exact .inl (hk ▸ hbc)
    · exact .inr ⟨hk.trans hk', Nat.lt_trans hab hbc⟩

/-- The slice with `e` inserted in order, and whether that changed it. -/
def insertEdge (s : List Edge) (e : Edge) : List Edge × Bool := SortedList.insert EdgeLt s e

/-- The slice with `e` removed, and whether that changed it. -/
def deleteEdge (s : List Edge) (e : Edge) : List Edge × Bool := SortedList.delete EdgeLt s e

/-! ## Nodes and identity keys -/

structure NodeInfo where
  kind : NodeKind
  observed : Bool
  ns : NodeID
  deriving DecidableEq, Repr

/-- The identity key of a node: `Kind/namespace/name`. -/
def nodeKey (kind : NodeKind) (ns name : GoString) : GoString :=
  kind.name ++ slash :: (ns ++ slash :: name)

/-- `strings.Cut` at the first slash. -/
def cut : GoString → Option (GoString × GoString)
  | [] => none
  | c :: rest => if c = slash then some ([], rest) else (cut rest).map fun p => (c :: p.1, p.2)

/-- The namespace and name of an identity key. -/
def splitKey (key : GoString) : GoString × GoString :=
  match cut key with
  | none => ([], key)
  | some (_, rest) =>
    match cut rest with
    | none => ([], rest)
    | some (ns, name) => (ns, name)

theorem cut_append {a : GoString} (ha : slash ∉ a) (b : GoString) :
    cut (a ++ slash :: b) = some (a, b) := by
  induction a with
  | nil => simp [cut]
  | cons c a ih =>
    have hc : c ≠ slash := fun h => ha (h ▸ List.mem_cons_self)
    have ha' : slash ∉ a := fun h => ha (List.mem_cons_of_mem c h)
    simp [cut, hc, ih ha']

variable {ns name name' ns' : GoString} {kind kind' : NodeKind}

theorem splitKey_nodeKey (kind : NodeKind) (hns : slash ∉ ns) (name : GoString) :
    splitKey (nodeKey kind ns name) = (ns, name) := by
  simp [splitKey, nodeKey, cut_append kind.name_noSlash, cut_append hns]

/-- A key determines the kind of its identity. -/
theorem nodeKey_kind (h : nodeKey kind ns name = nodeKey kind' ns' name') : kind = kind' := by
  have hcut := congrArg cut h
  rw [nodeKey, nodeKey, cut_append kind.name_noSlash, cut_append kind'.name_noSlash] at hcut
  exact NodeKind.name_injective (Prod.mk.inj (Option.some.inj hcut)).1

/-- Identities with a well-formed namespace never share a key. -/
theorem nodeKey_injective (hns : slash ∉ ns) (hns' : slash ∉ ns')
    (h : nodeKey kind ns name = nodeKey kind' ns' name') :
    kind = kind' ∧ ns = ns' ∧ name = name' := by
  have hsplit := congrArg splitKey h
  rw [splitKey_nodeKey kind hns, splitKey_nodeKey kind' hns'] at hsplit
  obtain ⟨hn, hname⟩ := Prod.mk.inj hsplit
  exact ⟨nodeKey_kind h, hn, hname⟩

theorem nodeKey_ne_nil (kind : NodeKind) (ns name : GoString) : nodeKey kind ns name ≠ [] := by
  simp [nodeKey]

end Lookout
