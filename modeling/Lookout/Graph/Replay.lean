-- SUMMARY: The replayer: effects performed on a base snapshot, read from their wire format.
import Lookout.Graph.Effect
import Lookout.Graph.Snapshot

/-!
# The replayer

A replayer starts from a snapshot and performs the effects of change records in
order. It does not derive anything again: an effect names the mutation, and the
replayer checks only that it makes sense for the graph at hand.

The writer gives an object its number before it gives one to the object's
namespace, but it creates the namespace's node first. So a node may arrive whose
number is two past the last known key. The gap is padded with the empty key, which
no identity has, and filled when its own node arrives.

`perform` is what each effect does. The functions that read an effect from a blob,
one for each kind of entry, are proved to perform the effect that was encoded.
-/

namespace Lookout

open Interner
open Decoder (appendUvarint check fail loop)

variable {key : GoString} {kind : NodeKind} {id : NodeID} {keys : List GoString}

/-- How a replay fails. All but the first are wrapped in `ErrBadEffect`. -/
inductive ReplayError where
  | usedAfterSnapshot
  | version (v : UInt8)
  | decode (e : DecodeError)
  | unknownOp (op : UInt8)
  | nodeNewKind (id : NodeID) (kind : UInt8)
  | idOutsideInterner (id : NodeID) (identities : Nat)
  | keyMismatch (id : NodeID) (key interned : GoString)
  | nsNotInterned (id : NodeID) (ns : GoString)
  | observeUnknown (id : NodeID)
  | observeKind (id : NodeID) (kind : UInt8)
  | unobserveUnknown (id : NodeID)
  | gcUnknown (id : NodeID)
  | edgeKind (src dst : NodeID) (kind : UInt8)
  | trailing (n : Nat)
  deriving DecidableEq, Repr

structure Replayer extends Adjacency where
  nodes : Map NodeID NodeInfo
  keys : List GoString
  ids : Map GoString NodeID
  watched : Option (Finset NodeKind)
  gen : Nat
  done : Bool

/-- The numbers of the keys in a list: for a repeated key the last one. -/
def idsOfKeys (keys : List GoString) : Map GoString NodeID :=
  keys.zipIdx.foldl (fun m p => m.insert p.1 (p.2 + 1)) ∅

/-- Distinct keys are numbered as an interner numbers them. -/
theorem idsOfKeys_assign (hnodup : keys.Nodup) : idsOfKeys keys = (assign keys).ids := by
  induction keys using List.reverseRecOn with
  | nil => rfl
  | append_singleton keys key ih =>
    obtain ⟨hkeys, -, hdisjoint⟩ := List.nodup_append.1 hnodup
    have hfresh : (assign keys).idOf? key = none := by
      rw [Option.eq_none_iff_forall_ne_some]
      intro id hid
      have hmem := mem_keys_iff.2 ⟨id, hid⟩
      rw [keys_assign hkeys] at hmem
      exact hdisjoint key hmem key (List.mem_singleton_self key) rfl
    have hassign : assign (keys ++ [key]) = ((assign keys).intern key).1 :=
      internAll_append ..
    rw [hassign, (intern_of_fresh hfresh).2.1, ← ih hkeys, keys_assign hkeys]
    simp [idsOfKeys, List.zipIdx_append]

theorem idsOfKeys_keys (t : Interner GoString) : idsOfKeys t.keys = t.ids :=
  (idsOfKeys_assign t.nodup_keys).trans (ids_eq_of_keys (keys_assign t.nodup_keys))

namespace Replayer

/-- `NewReplayer` -/
def new (base : Snapshot) : Replayer where
  toAdjacency := base.toAdjacency
  nodes := base.nodes
  keys := base.keys
  ids := idsOfKeys base.keys
  watched := base.watched
  gen := base.generation
  done := false

/-- The largest gap between a node's number and the known keys. -/
def maxIDGap : Nat := 1048576

/-! ## What each effect does -/

/-- Give `id` its key: append it behind padding, fill a padded place, or check it. -/
def intern (r : Replayer) (id : NodeID) (key : GoString) : Except ReplayError Replayer :=
  if id = noNode then .error (.idOutsideInterner id r.keys.length)
  else if r.keys.length < id then
    if key = [] ∨ maxIDGap < id - r.keys.length then
      .error (.idOutsideInterner id r.keys.length)
    else
      let padding := List.replicate (id - 1 - r.keys.length) []
      .ok { r with keys := r.keys ++ padding ++ [key], ids := r.ids.insert key id }
  else if keyAt r.keys id = some [] then
    .ok { r with keys := r.keys.set (id - 1) key, ids := r.ids.insert key id }
  else if keyAt r.keys id ≠ some key then
    .error (.keyMismatch id key ((keyAt r.keys id).getD []))
  else .ok r

variable {r : Replayer}

/-- The key of a number that is within the known keys. -/
theorem keyAt_pos (h : keyAt keys id = some key) : id ≠ noNode ∧ id ≤ keys.length := by
  cases id with
  | zero => cases h
  | succ i => exact ⟨Nat.succ_ne_zero i, (List.getElem?_eq_some_iff.1 h).1⟩

theorem intern_of_known (h : keyAt r.keys id = some key) (hkey : key ≠ []) :
    r.intern id key = .ok r := by
  obtain ⟨hpos, hle⟩ := keyAt_pos h
  rw [intern, if_neg hpos, if_neg (Nat.not_lt.2 hle), h, if_neg (by simpa using hkey),
    if_neg (by simp)]

theorem intern_fill (h : keyAt r.keys id = some []) (key : GoString) :
    r.intern id key =
      .ok { r with keys := r.keys.set (id - 1) key, ids := r.ids.insert key id } := by
  obtain ⟨hpos, hle⟩ := keyAt_pos h
  rw [intern, if_neg hpos, if_neg (Nat.not_lt.2 hle), if_pos h]

/-- A number past the known keys is padded up to. -/
theorem intern_append (r : Replayer) (hkey : key ≠ []) {n : Nat} (hn : n < maxIDGap) :
    r.intern (r.keys.length + n + 1) key =
      .ok { r with
        keys := r.keys ++ List.replicate n [] ++ [key]
        ids := r.ids.insert key (r.keys.length + n + 1) } := by
  have hgap : ¬ (key = [] ∨ maxIDGap < r.keys.length + n + 1 - r.keys.length) := by
    rintro (hnil | hgt)
    · exact hkey hnil
    · omega
  have hpos : r.keys.length + n + 1 ≠ noNode := Nat.succ_ne_zero _
  rw [intern, if_neg hpos, if_pos (by omega), if_neg hgap,
    show r.keys.length + n + 1 - 1 - r.keys.length = n by omega]

/-- The namespace link of a new node. Its Namespace must have a number already. -/
def nsOf (r : Replayer) (id : NodeID) (key : GoString) : Except ReplayError NodeID :=
  let ns := (splitKey key).1
  if ns = [] then .ok noNode
  else
    match r.ids.lookup (nodeKey .namespace_ [] ns) with
    | none => .error (.nsNotInterned id ns)
    | some nsID => .ok nsID

/-- Create a node. Nothing happens when it is there already. -/
def create (r : Replayer) (id : NodeID) (kind : NodeKind) (key : GoString) :
    Except ReplayError Replayer := do
  let r ← r.intern id key
  if id ∈ r.nodes then return r
  let ns ← r.nsOf id key
  return { r with nodes := r.nodes.insert id ⟨kind, decide (kind = .namespace_), ns⟩ }

theorem create_of_intern {r' : Replayer} {ns : NodeID} (hintern : r.intern id key = .ok r')
    (hnot : id ∉ r'.nodes) (hns : r'.nsOf id key = .ok ns) :
    r.create id kind key = .ok
      { r' with nodes := r'.nodes.insert id ⟨kind, decide (kind = .namespace_), ns⟩ } := by
  rw [create, hintern]
  simp only [bind, Except.bind, if_neg hnot, hns]
  rfl

/-- Create a namespaced node whose place is padded. -/
theorem create_fill {nskey : GoString} {nsID : NodeID} (hat : keyAt r.keys id = some [])
    (hnot : id ∉ r.nodes) (hns : (splitKey key).1 ≠ [])
    (hnk : nodeKey .namespace_ [] (splitKey key).1 = nskey)
    (hlookup : r.ids.lookup nskey = some nsID) (hne : nskey ≠ key) :
    r.create id kind key = .ok
      { r with
        keys := r.keys.set (id - 1) key
        ids := r.ids.insert key id
        nodes := r.nodes.insert id ⟨kind, decide (kind = .namespace_), nsID⟩ } := by
  refine create_of_intern (intern_fill hat key) hnot ?_
  have hfound : (r.ids.insert key id).lookup (nodeKey .namespace_ [] (splitKey key).1) =
      some nsID := by
    rw [hnk, Map.lookup_insert, if_neg hne, hlookup]
  rw [nsOf, if_neg hns, hfound]

/-- Change the record of a node that must be there. -/
def update (r : Replayer) (id : NodeID) (missing : ReplayError) (f : NodeInfo → NodeInfo) :
    Except ReplayError Replayer :=
  match r.nodes.lookup id with
  | none => .error missing
  | some info => .ok { r with nodes := r.nodes.insert id (f info) }

def perform (r : Replayer) : Effect → Except ReplayError Replayer
  | .nodeNew id kind key => r.create id kind key
  | .observe id kind =>
    r.update id (.observeUnknown id) fun info => { info with kind := kind, observed := true }
  | .unobserve id => r.update id (.unobserveUnknown id) fun info => { info with observed := false }
  | .gc id =>
    if id ∈ r.nodes then .ok { r with nodes := r.nodes.erase id } else .error (.gcUnknown id)
  | .edgeAdd e => .ok { r with toAdjacency := (r.toAdjacency.add e).1 }
  | .edgeRemove e => .ok { r with toAdjacency := (r.toAdjacency.remove e).1 }

/-! ## Reading effects -/

open Decoder (fail check)

variable (r)

def nodeNew : Decoder ReplayError Replayer := do
  let id ← Wire.id .decode
  let kind ← Wire.byte .decode
  let key ← Wire.str .decode
  match NodeKind.ofCode? kind with
  | none => fail (.nodeNewKind id kind)
  | some kind => check (r.perform (.nodeNew id kind key))

/-- The node is looked up before the kind is checked. -/
def observe : Decoder ReplayError Replayer := do
  let id ← Wire.id .decode
  let kind ← Wire.byte .decode
  if id ∉ r.nodes then fail (.observeUnknown id)
  else
    match NodeKind.ofCode? kind with
    | none => fail (.observeKind id kind)
    | some kind => check (r.perform (.observe id kind))

def unobserve : Decoder ReplayError Replayer := do
  let id ← Wire.id .decode
  check (r.perform (.unobserve id))

def gc : Decoder ReplayError Replayer := do
  let id ← Wire.id .decode
  check (r.perform (.gc id))

def edge (effect : HalfEdge → Effect) : Decoder ReplayError Replayer := do
  let src ← Wire.id .decode
  let dst ← Wire.id .decode
  let kind ← Wire.byte .decode
  match EdgeKind.ofCode? kind with
  | none => fail (.edgeKind src dst kind)
  | some kind => check (r.perform (effect ⟨src, dst, kind⟩))

/-- One entry of a blob. -/
def entry : Decoder ReplayError Replayer := do
  let op ← Wire.byte .decode
  if op = 1 then r.nodeNew
  else if op = 2 then r.observe
  else if op = 3 then r.unobserve
  else if op = 4 then r.gc
  else if op = 5 then r.edge .edgeAdd
  else if op = 6 then r.edge .edgeRemove
  else fail (.unknownOp op)

def entries : Decoder ReplayError Replayer := do
  let n ← Wire.uvarint .decode
  loop entry n r

/-- Replay the effect of one record. -/
def apply (generation : Nat) (effect : GoString) : Except ReplayError Replayer :=
  if r.done then .error .usedAfterSnapshot
  else
    let r := if r.gen ≤ generation then { r with gen := generation } else r
    match effect with
    | [] => .ok r
    | version :: body =>
      if version ≠ effectVersion then .error (.version version)
      else
        match r.entries body with
        | .error e => .error e
        | .ok (r, []) => .ok r
        | .ok (_, rest) => .error (.trailing rest.length)

/-- Finalize the replay. -/
def snapshot : Snapshot where
  toAdjacency := r.toAdjacency
  nodes := r.nodes
  keys := r.keys
  ids := idsOfKeys r.keys
  watched := r.watched
  generation := r.gen

end Replayer

/-! ## The blob of a log is read back -/

/-- The numbers fit 32 bits, and a reader accepts the key. -/
def Effect.Fits : Effect → Prop
  | .nodeNew id _ key => id ≤ maxUint32 ∧ key.length ≤ maxRestoreStringLen
  | .observe id _ | .unobserve id | .gc id => id ≤ maxUint32
  | .edgeAdd e | .edgeRemove e => e.src ≤ maxUint32 ∧ e.dst ≤ maxUint32

namespace Replayer

open Decoder (Reads)

variable {r r' : Replayer}

theorem reads_edge {e : HalfEdge} {effect : HalfEdge → Effect} (hsrc : e.src ≤ maxUint32)
    (hdst : e.dst ≤ maxUint32) (h : r.perform (effect e) = .ok r') :
    Reads (r.edge effect) (Effect.encodeEdge e) r' := by
  have hcheck : Reads (match EdgeKind.ofCode? e.kind.code with
      | none => fail (ReplayError.edgeKind e.src e.dst e.kind.code)
      | some kind => check (r.perform (effect ⟨e.src, e.dst, kind⟩))) [] r' := by
    rw [EdgeKind.ofCode?_code]
    exact Reads.check h
  have hread : Reads (r.edge effect) _ r' :=
    (Wire.reads_id ReplayError.decode hsrc).bind
      ((Wire.reads_id ReplayError.decode hdst).bind
        ((Wire.reads_byte ReplayError.decode e.kind.code).bind hcheck))
  simpa [Effect.encodeEdge] using hread

/-- An entry performs the effect that it encodes. -/
theorem reads_entry {e : Effect} (hfits : e.Fits) (h : r.perform e = .ok r') :
    Reads r.entry e.encode r' := by
  have hid : ∀ {id : NodeID}, id ≤ maxUint32 →
      Reads (Wire.id ReplayError.decode) (appendUvarint id) id := Wire.reads_id _
  have hbyte : ∀ b, Reads (Wire.byte ReplayError.decode) [b] b := Wire.reads_byte _
  cases e with
  | nodeNew id kind key =>
    have hcheck : Reads (match NodeKind.ofCode? kind.code with
        | none => fail (ReplayError.nodeNewKind id kind.code)
        | some kind => check (r.perform (.nodeNew id kind key))) [] r' := by
      rw [NodeKind.ofCode?_code]
      exact Reads.check h
    have hread : Reads r.nodeNew _ r' :=
      (hid hfits.1).bind ((hbyte kind.code).bind ((Wire.reads_str _ hfits.2).bind hcheck))
    have hentry : Reads r.entry ([1] ++ _) r' := (hbyte 1).bind hread
    simpa [Effect.encode] using hentry
  | observe id kind =>
    have hmem : id ∈ r.nodes := by
      by_contra hnot
      rw [perform, update, Finmap.lookup_eq_none.2 hnot] at h
      cases h
    have hcheck : Reads (if id ∉ r.nodes then fail (ReplayError.observeUnknown id)
        else match NodeKind.ofCode? kind.code with
          | none => fail (ReplayError.observeKind id kind.code)
          | some kind => check (r.perform (.observe id kind))) [] r' := by
      rw [if_neg (not_not.2 hmem), NodeKind.ofCode?_code]
      exact Reads.check h
    have hread : Reads r.observe _ r' := (hid hfits).bind ((hbyte kind.code).bind hcheck)
    have hentry : Reads r.entry ([2] ++ _) r' := (hbyte 2).bind hread
    simpa [Effect.encode] using hentry
  | unobserve id =>
    have hread : Reads r.unobserve _ r' := (hid hfits).bind (Reads.check h)
    have hentry : Reads r.entry ([3] ++ _) r' := (hbyte 3).bind hread
    simpa [Effect.encode] using hentry
  | gc id =>
    have hread : Reads r.gc _ r' := (hid hfits).bind (Reads.check h)
    have hentry : Reads r.entry ([4] ++ _) r' := (hbyte 4).bind hread
    simpa [Effect.encode] using hentry
  | edgeAdd e => exact (hbyte 5).bind (reads_edge hfits.1 hfits.2 h)
  | edgeRemove e => exact (hbyte 6).bind (reads_edge hfits.1 hfits.2 h)

/-- Perform a list of effects. -/
def performAll (r : Replayer) (effects : List Effect) : Except ReplayError Replayer :=
  effects.foldlM perform r

variable {effects : List Effect} {generation : Nat}

/-- A replayer that meets two new keys in the other order pads the first one's place and
    fills it afterwards. -/
theorem performAll_swapped (r : Replayer) (kind : NodeKind) {ns : GoString} (hns : ns ≠ [])
    (hsplit : (splitKey key).1 = ns) (hne : nodeKey .namespace_ [] ns ≠ key)
    (hnot : r.keys.length + 1 ∉ r.nodes) (hnot' : r.keys.length + 2 ∉ r.nodes) :
    r.performAll [.nodeNew (r.keys.length + 2) .namespace_ (nodeKey .namespace_ [] ns),
      .nodeNew (r.keys.length + 1) kind key] = .ok
        { r with
          keys := r.keys ++ [key] ++ [nodeKey .namespace_ [] ns]
          ids := (r.ids.insert key (r.keys.length + 1)).insert (nodeKey .namespace_ [] ns)
            (r.keys.length + 2)
          nodes := (r.nodes.insert (r.keys.length + 2) ⟨.namespace_, true, noNode⟩).insert
            (r.keys.length + 1) ⟨kind, decide (kind = .namespace_), r.keys.length + 2⟩ } := by
  generalize hnk : nodeKey .namespace_ [] ns = nskey at *
  have hnskey : nskey ≠ [] := hnk ▸ nodeKey_ne_nil _ _ _
  have hnsplit : (splitKey nskey).1 = [] := by rw [← hnk, splitKey_nodeKey _ (by simp)]
  -- First the namespace, two past the known keys.
  have hfirst : r.create (r.keys.length + 2) .namespace_ nskey = .ok
      { r with
        keys := r.keys ++ [[]] ++ [nskey]
        ids := r.ids.insert nskey (r.keys.length + 2)
        nodes := r.nodes.insert (r.keys.length + 2) ⟨.namespace_, true, noNode⟩ } := by
    refine create_of_intern (r.intern_append hnskey (n := 1) (by decide)) hnot' ?_
    rw [nsOf, if_pos hnsplit]
  -- Then the object, whose place is padded.
  have hat : keyAt (r.keys ++ [[]] ++ [nskey]) (r.keys.length + 1) = some [] := by
    simp [keyAt]
  have hset : (r.keys ++ [[]] ++ [nskey]).set (r.keys.length + 1 - 1) key =
      r.keys ++ [key] ++ [nskey] := by
    simp
  have hnot₂ : r.keys.length + 1 ∉
      r.nodes.insert (r.keys.length + 2) (⟨.namespace_, true, noNode⟩ : NodeInfo) := by
    simp [hnot]
  have hlookup : (r.ids.insert nskey (r.keys.length + 2)).lookup nskey =
      some (r.keys.length + 2) := by
    rw [Map.lookup_insert, if_pos rfl]
  rw [performAll, List.foldlM_cons, perform, hfirst]
  refine (congrArg (· >>= pure) (create_fill hat hnot₂ (by rwa [hsplit]) (by rwa [hsplit])
    hlookup hne)).trans ?_
  simp only [hset]
  rw [Finmap.insert_insert_of_ne _ (Ne.symm hne)]
  rfl

theorem reads_loop (hfits : ∀ e ∈ effects, e.Fits) (h : r.performAll effects = .ok r') :
    Reads (loop entry effects.length r) (effects.flatMap Effect.encode) r' := by
  induction effects generalizing r with
  | nil =>
    cases h
    exact Reads.pure _
  | cons e effects ih =>
    rw [performAll, List.foldlM_cons] at h
    cases hstep : r.perform e with
    | error err =>
      rw [hstep] at h
      cases h
    | ok r₁ =>
      rw [hstep] at h
      exact (reads_entry (hfits e (by simp)) hstep).bind
        (ih (fun e' he' => hfits e' (by simp [he'])) h)

/-- Replaying the blob of a log performs its effects. -/
theorem apply_encodeLog (hopen : r.done = false) (hfits : ∀ e ∈ effects, e.Fits)
    (hcount : effects.length < 2 ^ 64)
    (h : { r with gen := max r.gen generation }.performAll effects = .ok r') :
    r.apply generation (Effect.encodeLog effects) = .ok r' := by
  have hgen : (if r.gen ≤ generation then { r with gen := generation } else r) =
      { r with gen := max r.gen generation } := by
    split
    · next hle => rw [Nat.max_eq_right hle]
    · next hlt => rw [Nat.max_eq_left (by omega)]
  rw [apply, if_neg (by simp [hopen]), hgen]
  cases effects with
  | nil =>
    cases h
    rfl
  | cons e effects =>
    have hread : Reads (entries { r with gen := max r.gen generation }) _ r' :=
      (Wire.reads_uvarint ReplayError.decode hcount).bind (reads_loop hfits h)
    have hrun := hread []
    rw [List.append_nil] at hrun
    simp only [Effect.encodeLog, ne_eq, not_true_eq_false, if_false, hrun]

end Replayer

end Lookout
