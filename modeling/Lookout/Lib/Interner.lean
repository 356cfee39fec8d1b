-- SUMMARY: Interners: keys numbered densely from one, with the two directions of the numbering kept inverse to each other.
import Lookout.Lib.Map

/-!
# Interners

An interner numbers distinct keys `1, 2, 3, …` in the order it first sees them
and never forgets one. Zero names no key. The list of keys and the map from
keys to numbers are inverse to each other, and the structure carries that fact.
-/

/-- The key numbered `id` in `keys`. -/
def Interner.keyAt {κ : Type} (keys : List κ) : Nat → Option κ
  | 0 => none
  | i + 1 => keys[i]?

structure Interner (κ : Type) [DecidableEq κ] where
  keys : List κ
  ids : Map κ Nat
  inverse : ∀ k id, ids.lookup k = some id ↔ Interner.keyAt keys id = some k

namespace Interner

variable {κ : Type} [DecidableEq κ]

def empty : Interner κ where
  keys := []
  ids := ∅
  inverse := by
    intro k id
    cases id <;> simp [keyAt, Finmap.lookup_empty]

/-- The key numbered `id`. -/
def keyOf? (t : Interner κ) (id : Nat) : Option κ := keyAt t.keys id

/-- The number of `k`. -/
def idOf? (t : Interner κ) (k : κ) : Option Nat := t.ids.lookup k

variable {id i j : Nat} {ids : List Nat} {t : Interner κ} {k x : κ}

theorem idOf?_eq_some : t.idOf? k = some id ↔ t.keyOf? id = some k :=
  t.inverse k id

theorem keyOf?_isSome : (t.keyOf? id).isSome ↔ 1 ≤ id ∧ id ≤ t.keys.length := by
  cases id with
  | zero => simp [keyOf?, keyAt]
  | succ i =>
    have hsome : (t.keyOf? (i + 1)).isSome ↔ i < t.keys.length := by simp [keyOf?, keyAt]
    rw [hsome]
    omega

theorem keyOf?_inj (hi : t.keyOf? i = some k) (hj : t.keyOf? j = some k) : i = j := by
  rw [← idOf?_eq_some] at hi hj
  rw [hi] at hj
  exact Option.some.inj hj

theorem mem_keys_iff : k ∈ t.keys ↔ ∃ id, t.idOf? k = some id := by
  constructor
  · intro hk
    obtain ⟨i, hi⟩ := List.mem_iff_getElem?.1 hk
    exact ⟨i + 1, idOf?_eq_some.2 hi⟩
  · rintro ⟨id, hid⟩
    rw [idOf?_eq_some] at hid
    cases id with
    | zero => cases hid
    | succ i => exact List.mem_of_getElem? hid

/-- The keys determine the numbers. -/
theorem ids_eq_of_keys {t' : Interner κ} (h : t.keys = t'.keys) : t.ids = t'.ids := by
  refine Finmap.ext_lookup fun k => Option.ext fun id => ?_
  rw [t.inverse, t'.inverse, h]

theorem nodup_keys (t : Interner κ) : t.keys.Nodup := by
  rw [List.nodup_iff_getElem?_ne_getElem?]
  intro i j hij hj heq
  obtain ⟨k, hk⟩ : ∃ k, t.keys[j]? = some k := ⟨_, List.getElem?_eq_getElem hj⟩
  have hi : t.keyOf? (i + 1) = some k := heq.trans hk
  have := keyOf?_inj hi (show t.keyOf? (j + 1) = some k from hk)
  omega

/-- Numbering a fresh key with the next number keeps the two directions inverse. -/
theorem inverse_append (t : Interner κ) (h : t.ids.lookup k = none) (k' : κ) (id : Nat) :
    (t.ids.insert k (t.keys.length + 1)).lookup k' = some id ↔
      keyAt (t.keys ++ [k]) id = some k' := by
  have hfresh : ∀ i, keyAt t.keys i ≠ some k := by
    intro i hi
    rw [(t.inverse k i).2 hi] at h
    cases h
  rw [Map.lookup_insert]
  cases id with
  | zero => split <;> simp [keyAt, t.inverse]
  | succ i =>
    rcases Nat.lt_trichotomy i t.keys.length with hi | hi | hi
    · -- An old number: the appended key does not move it.
      have hold : keyAt (t.keys ++ [k]) (i + 1) = keyAt t.keys (i + 1) := by
        simp only [keyAt, List.getElem?_append_left hi]
      rw [hold]
      split
      · next hk => exact iff_of_false (by simp; omega) (hk ▸ hfresh (i + 1))
      · exact t.inverse k' (i + 1)
    · subst hi
      split
      · next hk => simp [keyAt, hk]
      · next hk => simp [keyAt, t.inverse, Ne.symm hk]
    · -- A number not given out yet, on either side.
      have hnone : keyAt t.keys (i + 1) = none := by
        simp only [keyAt, List.getElem?_eq_none_iff]
        omega
      have hnone' : keyAt (t.keys ++ [k]) (i + 1) = none := by
        simp only [keyAt, List.getElem?_eq_none_iff, List.length_append, List.length_singleton]
        omega
      rw [hnone']
      split
      · exact iff_of_false (by simp; omega) (by simp)
      · rw [t.inverse, hnone]

/-- Number `k`, unless it has a number already. -/
def intern (t : Interner κ) (k : κ) : Interner κ × Nat :=
  match h : t.ids.lookup k with
  | some id => (t, id)
  | none =>
    ({ keys := t.keys ++ [k]
       ids := t.ids.insert k (t.keys.length + 1)
       inverse := t.inverse_append h }, t.keys.length + 1)

theorem intern_of_idOf? (h : t.idOf? k = some id) : t.intern k = (t, id) := by
  unfold idOf? at h
  unfold intern
  split
  · next h' => rw [h] at h'; cases h'; rfl
  · next h' => rw [h] at h'; cases h'

theorem intern_of_fresh (h : t.idOf? k = none) :
    (t.intern k).1.keys = t.keys ++ [k] ∧
      (t.intern k).1.ids = t.ids.insert k (t.keys.length + 1) ∧
      (t.intern k).2 = t.keys.length + 1 := by
  unfold idOf? at h
  unfold intern
  split
  · next h' => rw [h] at h'; cases h'
  · exact ⟨rfl, rfl, rfl⟩

theorem idOf?_intern (t : Interner κ) (k k' : κ) :
    (t.intern k).1.idOf? k' = if k' = k then some (t.intern k).2 else t.idOf? k' := by
  cases h : t.idOf? k with
  | some id =>
    rw [intern_of_idOf? h]
    split
    · next hk => rw [hk, h]
    · rfl
  | none =>
    obtain ⟨-, hids, hid⟩ := intern_of_fresh h
    rw [idOf?, hids, Map.lookup_insert, hid]
    rfl

theorem keyOf?_intern_self (t : Interner κ) (k : κ) :
    (t.intern k).1.keyOf? (t.intern k).2 = some k := by
  rw [← idOf?_eq_some, idOf?_intern, if_pos rfl]

/-- Interning keeps every number that is already given out. -/
theorem keyOf?_intern (k : κ) (h : t.keyOf? id = some x) : (t.intern k).1.keyOf? id = some x := by
  rw [← idOf?_eq_some] at h ⊢
  rw [idOf?_intern]
  split
  · next hk => rw [← hk, intern_of_idOf? h]
  · exact h

section

variable (t)

theorem keys_intern (k : κ) :
    (t.intern k).1.keys = if k ∈ t.keys then t.keys else t.keys ++ [k] := by
  cases h : t.idOf? k with
  | some id => rw [intern_of_idOf? h, if_pos (mem_keys_iff.2 ⟨id, h⟩)]
  | none =>
    rw [(intern_of_fresh h).1, if_neg]
    intro hk
    obtain ⟨id, hid⟩ := mem_keys_iff.1 hk
    rw [h] at hid
    cases hid

theorem keys_intern_extends (k : κ) : t.keys <+: (t.intern k).1.keys := by
  rw [keys_intern]
  split
  · exact List.prefix_rfl
  · exact List.prefix_append _ _

/-- Number several keys in order. -/
def internAll (t : Interner κ) (ks : List κ) : Interner κ := ks.foldl (fun t k => (t.intern k).1) t

@[simp] theorem internAll_nil : t.internAll [] = t := rfl

theorem internAll_append (ks ks' : List κ) :
    t.internAll (ks ++ ks') = (t.internAll ks).internAll ks' :=
  List.foldl_append

end

theorem keyOf?_internAll (ks : List κ) (h : t.keyOf? id = some x) :
    (t.internAll ks).keyOf? id = some x := by
  induction ks generalizing t with
  | nil => exact h
  | cons k ks ih => exact ih (keyOf?_intern k h)

theorem keys_internAll_extends (t : Interner κ) (ks : List κ) :
    t.keys <+: (t.internAll ks).keys := by
  induction ks generalizing t with
  | nil => exact List.prefix_rfl
  | cons k ks ih => exact (keys_intern_extends t k).trans (ih _)

/-- The interner that numbers `ks` in order. -/
def assign (ks : List κ) : Interner κ := empty.internAll ks

/-- Distinct keys are numbered by their position. -/
theorem keys_assign {ks : List κ} (h : ks.Nodup) : (assign ks).keys = ks := by
  unfold assign internAll
  induction ks using List.reverseRecOn with
  | nil => rfl
  | append_singleton ks k ih =>
    obtain ⟨hks, -, hdisj⟩ := List.nodup_append.1 h
    have hk : k ∉ ks := fun hmem => hdisj k hmem k (List.mem_singleton_self k) rfl
    rw [List.foldl_append, List.foldl_cons, List.foldl_nil, keys_intern, ih hks, if_neg hk]

/-! ## Tables by number, read by key -/

variable {α : Type} {m m' : Map Nat α} {o : Option α}

/-- The entry of a table at the number of `k`. -/
def read (t : Interner κ) (m : Map Nat α) (k : κ) : Option α := (t.idOf? k).bind m.lookup

/-- Every entry of the table belongs to a number that is given out. -/
def Covers (t : Interner κ) (m : Map Nat α) : Prop :=
  ∀ id, m.lookup id ≠ none → (t.keyOf? id).isSome

theorem read_of_keyOf? (h : t.keyOf? id = some k) : t.read m k = m.lookup id := by
  rw [read, idOf?_eq_some.2 h]
  rfl

theorem read_eq_some {v : α} :
    t.read m k = some v ↔ ∃ id, t.keyOf? id = some k ∧ m.lookup id = some v := by
  simp only [read, Option.bind_eq_some_iff, idOf?_eq_some]

theorem read_empty (t : Interner κ) : t.read (∅ : Map Nat α) = fun _ => none := by
  funext k
  cases h : t.idOf? k <;> simp [read]

/-- Replacing the entry at a number replaces what its key reads. -/
theorem read_writes (h : t.keyOf? id = some k) (hm : Map.Writes id o m m') :
    t.read m' = Function.update (t.read m) k o := by
  funext k'
  by_cases hk : k' = k
  · rw [hk, Function.update_self, read_of_keyOf? h, hm, if_pos rfl]
  · rw [Function.update_of_ne hk, read, read]
    cases hid : t.idOf? k' with
    | none => rfl
    | some id' =>
      have hne : id' ≠ id := by
        rintro rfl
        rw [idOf?_eq_some, h] at hid
        exact hk (Option.some.inj hid).symm
      exact (hm id').trans (if_neg hne)

theorem read_intern (hm : t.Covers m) (k : κ) : (t.intern k).1.read m = t.read m := by
  funext k'
  rw [read, read, idOf?_intern]
  split
  · next hk =>
    subst hk
    cases h : t.idOf? k' with
    | some id => rw [intern_of_idOf? h]
    | none =>
      -- The key is new, so its number is beyond every number the table uses.
      obtain ⟨-, -, hid⟩ := intern_of_fresh h
      rw [hid]
      by_contra hne
      have hcov := hm (t.keys.length + 1) hne
      rw [keyOf?_isSome] at hcov
      omega
  · rfl

theorem Covers.empty (t : Interner κ) : t.Covers (∅ : Map Nat α) := by
  intro id h
  exact absurd (Finmap.lookup_empty id) h

/-- A new entry needs a number that is given out. -/
theorem Covers.writes (h : t.Covers m) (hid : o ≠ none → (t.keyOf? id).isSome)
    (hm : Map.Writes id o m m') : t.Covers m' := by
  intro id' hid'
  rw [hm] at hid'
  split at hid'
  · next heq => exact heq ▸ hid hid'
  · exact h id' hid'

theorem Covers.insert (hm : t.Covers m) (hid : (t.keyOf? id).isSome) (v : α) :
    t.Covers (m.insert id v) :=
  hm.writes (fun _ => hid) (Map.writes_insert _ _ _)

theorem Covers.erase (hm : t.Covers m) (id : Nat) : t.Covers (m.erase id) :=
  hm.writes (absurd rfl) (Map.writes_erase _ _)

theorem Covers.intern (hm : t.Covers m) (k : κ) : (t.intern k).1.Covers m := by
  intro id h
  obtain ⟨x, hx⟩ := Option.isSome_iff_exists.1 (hm id h)
  exact Option.isSome_iff_exists.2 ⟨x, keyOf?_intern k hx⟩

/-! ## Renumbering -/

/-- The new number of `id` when the numbers `ids` are renumbered by position. -/
def remap (ids : List Nat) (id : Nat) : Option Nat := (ids.idxOf? id).map (· + 1)

theorem remap_eq_some (hnodup : ids.Nodup) :
    remap ids id = some j ↔ ∃ i, ids[i]? = some id ∧ j = i + 1 := by
  simp only [remap, Option.map_eq_some_iff, List.idxOf?_eq_some_iff]
  constructor
  · rintro ⟨i, ⟨hi, hget, -⟩, rfl⟩
    exact ⟨i, by simp [hi, hget], rfl⟩
  · rintro ⟨i, hi, rfl⟩
    obtain ⟨hlt, hget⟩ := List.getElem?_eq_some_iff.1 hi
    refine ⟨i, ⟨hlt, hget, ?_⟩, rfl⟩
    intro k hk heq
    have := (List.Nodup.getElem_inj_iff hnodup).1 (heq.trans hget.symm)
    omega

theorem remap_isSome : (remap ids id).isSome ↔ id ∈ ids := by
  rw [remap, Option.isSome_map, List.isSome_idxOf?]

variable {a b : Nat}

theorem remap_inj (hnodup : ids.Nodup) (ha : remap ids a = some j) (hb : remap ids b = some j) :
    a = b := by
  obtain ⟨i, hi, rfl⟩ := (remap_eq_some hnodup).1 ha
  obtain ⟨i', hi', heq⟩ := (remap_eq_some hnodup).1 hb
  obtain rfl : i = i' := by omega
  exact Option.some.inj (hi.symm.trans hi')

/-- Renumbering an ascending list keeps the order. -/
theorem remap_lt_iff (hids : ids.Pairwise (· < ·)) (ha : remap ids a = some i)
    (hb : remap ids b = some j) : i < j ↔ a < b := by
  have hnodup : ids.Nodup := hids.imp fun h => Nat.ne_of_lt h
  obtain ⟨i, hi, rfl⟩ := (remap_eq_some hnodup).1 ha
  obtain ⟨j, hj, rfl⟩ := (remap_eq_some hnodup).1 hb
  obtain ⟨hilt, rfl⟩ := List.getElem?_eq_some_iff.1 hi
  obtain ⟨hjlt, rfl⟩ := List.getElem?_eq_some_iff.1 hj
  rw [Nat.add_lt_add_iff_right, hids.sortedLT.getElem_lt_getElem_iff]

/-- Keep only the keys numbered by `ids`, and number them by position. -/
def renumber (t : Interner κ) (ids : List Nat) : Interner κ := assign (ids.filterMap t.keyOf?)

section renumber

variable {t : Interner κ} {ids : List Nat}

theorem keys_renumber (hnodup : ids.Nodup) : (t.renumber ids).keys = ids.filterMap t.keyOf? := by
  refine keys_assign (hnodup.filterMap ?_)
  intro a b k ha hb
  exact keyOf?_inj ha hb

/-- The keys after renumbering are those that the kept numbers had. -/
theorem keyOf?_renumber (hnodup : ids.Nodup) (hids : ∀ id ∈ ids, (t.keyOf? id).isSome) {j : Nat}
    {k : κ} :
    (t.renumber ids).keyOf? j = some k ↔ ∃ id, remap ids id = some j ∧ t.keyOf? id = some k := by
  have hmap : ∀ i : Nat, (ids.filterMap t.keyOf?)[i]? = ids[i]?.bind t.keyOf? := by
    clear hnodup
    induction ids with
    | nil => simp
    | cons a ids ih =>
      obtain ⟨x, hx⟩ := Option.isSome_iff_exists.1 (hids a List.mem_cons_self)
      have ih' := ih fun id hid => hids id (List.mem_cons_of_mem a hid)
      intro i
      rw [List.filterMap_cons_some hx]
      cases i with
      | zero => simp [hx]
      | succ i => simpa using ih' i
  rw [keyOf?, keys_renumber hnodup]
  cases j with
  | zero =>
    refine iff_of_false (by simp [keyAt]) ?_
    rintro ⟨id, hid, -⟩
    obtain ⟨i, -, hi⟩ := (remap_eq_some hnodup).1 hid
    omega
  | succ i =>
    rw [keyAt, hmap, Option.bind_eq_some_iff]
    refine exists_congr fun id => and_congr_left fun _ => ?_
    rw [remap_eq_some hnodup]
    constructor
    · exact fun hi => ⟨i, hi, rfl⟩
    · rintro ⟨i', hi', heq⟩
      obtain rfl : i = i' := by omega
      exact hi'

variable {β : Type} {m : Map Nat α} {m' : Map Nat β} {g : α → β}

section

variable (hnodup : ids.Nodup) (hids : ∀ id ∈ ids, (t.keyOf? id).isSome)
  (hm : ∀ j b, m'.lookup j = some b ↔ ∃ id v, m.lookup id = some v ∧ remap ids id = some j ∧ b = g v)

include hnodup hids hm

/-- A table whose entries move with the numbers reads the same by key. -/
theorem read_renumber (hdom : ∀ id k, m.lookup id ≠ none → t.keyOf? id = some k → id ∈ ids) :
    (t.renumber ids).read m' = fun k => (t.read m k).map g := by
  funext k
  ext b
  rw [Option.map_eq_some_iff]
  simp only [read_eq_some, keyOf?_renumber hnodup hids, hm]
  constructor
  · rintro ⟨j, ⟨id, hid, hk⟩, id', v, hv, hid', rfl⟩
    obtain rfl := remap_inj hnodup hid hid'
    exact ⟨v, ⟨id, hk, hv⟩, rfl⟩
  · rintro ⟨v, ⟨id, hk, hv⟩, rfl⟩
    have hin := hdom id k (by simp [hv]) hk
    obtain ⟨j, hj⟩ := Option.isSome_iff_exists.1 (remap_isSome.2 hin)
    exact ⟨j, ⟨id, hj, hk⟩, id, v, hv, hj, rfl⟩

theorem covers_renumber : (t.renumber ids).Covers m' := by
  intro j hj
  obtain ⟨b, hb⟩ := Option.ne_none_iff_exists'.1 hj
  obtain ⟨id, v, -, hid, -⟩ := (hm j b).1 hb
  obtain ⟨k, hk⟩ := Option.isSome_iff_exists.1
    (hids id (remap_isSome.1 (Option.isSome_iff_exists.2 ⟨j, hid⟩)))
  exact Option.isSome_iff_exists.2 ⟨k, (keyOf?_renumber hnodup hids).2 ⟨id, hid, hk⟩⟩

end

end renumber

/-! ## The order of keys -/

/-- Key `a` has a smaller number than key `b`. -/
def Before (t : Interner κ) (a b : κ) : Prop :=
  ∃ i j, t.keyOf? i = some a ∧ t.keyOf? j = some b ∧ i < j

theorem before_iff {t : Interner κ} {a b : κ} (hi : t.keyOf? i = some a) (hj : t.keyOf? j = some b) :
    t.Before a b ↔ i < j := by
  constructor
  · rintro ⟨i', j', hi', hj', hlt⟩
    rwa [keyOf?_inj hi hi', keyOf?_inj hj hj']
  · exact fun hlt => ⟨i, j, hi, hj, hlt⟩

theorem mem_keys_of_keyOf? {t : Interner κ} {k : κ} (h : t.keyOf? id = some k) : k ∈ t.keys :=
  mem_keys_iff.2 ⟨id, idOf?_eq_some.2 h⟩

theorem mem_keys_intern {t : Interner κ} {k k' : κ} :
    k' ∈ (t.intern k).1.keys ↔ k' = k ∨ k' ∈ t.keys := by
  rw [keys_intern]
  split
  · next hk => exact ⟨.inr, fun h => h.elim (fun heq => heq ▸ hk) id⟩
  · rw [List.mem_append, List.mem_singleton, or_comm]

theorem mem_keys_internAll {t : Interner κ} {ks : List κ} {k : κ} :
    k ∈ (t.internAll ks).keys ↔ k ∈ t.keys ∨ k ∈ ks := by
  induction ks generalizing t with
  | nil => simp
  | cons k' ks ih =>
    change k ∈ ((t.intern k').1.internAll ks).keys ↔ _
    rw [ih, mem_keys_intern, List.mem_cons]
    tauto

theorem keyOf?_intern_of_fresh {t : Interner κ} {k : κ} (h : k ∉ t.keys) {x : κ} :
    (t.intern k).1.keyOf? i = some x ↔ t.keyOf? i = some x ∨ i = t.keys.length + 1 ∧ x = k := by
  rw [keyOf?, keyOf?, keys_intern, if_neg h]
  cases i with
  | zero => simp [keyAt]
  | succ i =>
    simp only [keyAt]
    grind

/-- A fresh key comes after all others. -/
theorem before_intern {t : Interner κ} {k a b : κ} :
    (t.intern k).1.Before a b ↔ t.Before a b ∨ k ∉ t.keys ∧ b = k ∧ a ∈ t.keys := by
  by_cases hk : k ∈ t.keys
  · obtain ⟨id, hid⟩ := mem_keys_iff.1 hk
    rw [intern_of_idOf? hid]
    simp [hk]
  · have hle : ∀ {i x}, t.keyOf? i = some x → i ≤ t.keys.length := fun hi =>
      (keyOf?_isSome.1 (Option.isSome_iff_exists.2 ⟨_, hi⟩)).2
    simp only [Before, keyOf?_intern_of_fresh hk]
    constructor
    · rintro ⟨i, j, hi | ⟨rfl, rfl⟩, hj | ⟨rfl, rfl⟩, hlt⟩
      · exact .inl ⟨i, j, hi, hj, hlt⟩
      · exact .inr ⟨hk, rfl, mem_keys_of_keyOf? hi⟩
      · exact absurd (hle hj) (by omega)
      · exact absurd hlt (Nat.lt_irrefl _)
    · rintro (⟨i, j, hi, hj, hlt⟩ | ⟨-, rfl, ha⟩)
      · exact ⟨i, j, .inl hi, .inl hj, hlt⟩
      · obtain ⟨i, hi⟩ := mem_keys_iff.1 ha
        have hi := idOf?_eq_some.1 hi
        exact ⟨i, _, .inl hi, .inr ⟨rfl, rfl⟩, Nat.lt_succ_of_le (hle hi)⟩

/-- `t'` has some of the keys of `t`, in the same order. -/
structure Restricts (t' t : Interner κ) : Prop where
  keys : ∀ k ∈ t'.keys, k ∈ t.keys
  order : ∀ a ∈ t'.keys, ∀ b ∈ t'.keys, t'.Before a b ↔ t.Before a b

theorem Restricts.refl (t : Interner κ) : t.Restricts t := ⟨fun _ h => h, fun _ _ _ _ => Iff.rfl⟩

theorem Restricts.trans {t t' t'' : Interner κ} (h : t''.Restricts t') (h' : t'.Restricts t) :
    t''.Restricts t :=
  ⟨fun k hk => h'.keys k (h.keys k hk), fun a ha b hb =>
    (h.order a ha b hb).trans (h'.order a (h.keys a ha) b (h.keys b hb))⟩

theorem restricts_renumber {t : Interner κ} (hids : ids.Pairwise (· < ·))
    (hsome : ∀ id ∈ ids, (t.keyOf? id).isSome) : (t.renumber ids).Restricts t := by
  have hnodup : ids.Nodup := hids.imp fun h => Nat.ne_of_lt h
  have hold : ∀ k ∈ (t.renumber ids).keys, ∃ j id,
      (t.renumber ids).keyOf? j = some k ∧ remap ids id = some j ∧ t.keyOf? id = some k := by
    intro k hk
    obtain ⟨j, hj⟩ := mem_keys_iff.1 hk
    rw [idOf?_eq_some] at hj
    obtain ⟨id, hid, hkey⟩ := (keyOf?_renumber hnodup hsome).1 hj
    exact ⟨j, id, hj, hid, hkey⟩
  constructor
  · intro k hk
    obtain ⟨_, id, -, -, hkey⟩ := hold k hk
    exact mem_keys_of_keyOf? hkey
  · intro a ha b hb
    obtain ⟨i, ida, hi, hia, hka⟩ := hold a ha
    obtain ⟨j, idb, hj, hjb, hkb⟩ := hold b hb
    rw [before_iff hi hj, before_iff hka hkb, remap_lt_iff hids hia hjb]

/-- The two interners agree on the keys in `P`: which are numbered, and in which order. -/
structure SameOrder (P : κ → Prop) (t t' : Interner κ) : Prop where
  keys : ∀ k, P k → (k ∈ t.keys ↔ k ∈ t'.keys)
  order : ∀ a b, P a → P b → (t.Before a b ↔ t'.Before a b)

section sameOrder

variable {P : κ → Prop} {t t' : Interner κ}

theorem SameOrder.refl (t : Interner κ) : SameOrder P t t :=
  ⟨fun _ _ => Iff.rfl, fun _ _ _ _ => Iff.rfl⟩

theorem SameOrder.intern (h : SameOrder P t t') (k : κ) :
    SameOrder P (t.intern k).1 (t'.intern k).1 := by
  constructor
  · intro k' hk'
    rw [mem_keys_intern, mem_keys_intern, h.keys k' hk']
  · intro a b ha hb
    rw [before_intern, before_intern, h.order a b ha hb, h.keys a ha]
    refine or_congr_right (and_congr_left fun hab => not_congr (h.keys k ?_))
    exact hab.1 ▸ hb

theorem SameOrder.internAll (h : SameOrder P t t') (ks : List κ) :
    SameOrder P (t.internAll ks) (t'.internAll ks) := by
  induction ks generalizing t t' with
  | nil => exact h
  | cons k ks ih => exact ih (h.intern k)

/-- Dropping keys outside of `P` does not matter. -/
theorem SameOrder.restrict {t'' : Interner κ} (h : SameOrder P t t') (hr : t''.Restricts t)
    (hkeep : ∀ k, P k → k ∈ t.keys → k ∈ t''.keys) : SameOrder P t'' t' := by
  have hkeys : ∀ k, P k → (k ∈ t''.keys ↔ k ∈ t.keys) := fun k hk => ⟨hr.keys k, hkeep k hk⟩
  have hmem : ∀ {t : Interner κ} {a b : κ}, t.Before a b → a ∈ t.keys ∧ b ∈ t.keys := by
    rintro t a b ⟨i, j, hi, hj, -⟩
    exact ⟨mem_keys_of_keyOf? hi, mem_keys_of_keyOf? hj⟩
  constructor
  · intro k hk
    rw [hkeys k hk, h.keys k hk]
  · intro a b ha hb
    rw [← h.order a b ha hb]
    constructor
    · intro hlt
      exact (hr.order a (hmem hlt).1 b (hmem hlt).2).1 hlt
    · intro hlt
      exact (hr.order a (hkeep a ha (hmem hlt).1) b (hkeep b hb (hmem hlt).2)).2 hlt

end sameOrder

end Interner
