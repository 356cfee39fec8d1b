-- SUMMARY: Finite maps over `Finmap`: lookups after updates, ordered key lists, map-to-map loops, and totals.
import Mathlib.Data.Finmap
import Mathlib.Data.List.Sort
import Mathlib.Algebra.BigOperators.Group.Finset.Basic
import Mathlib.Algebra.Order.BigOperators.Group.Finset

/-!
# Finite maps

Imperative code keeps its state in mutable maps. Here such a map is a `Finmap`
with one value type. The file adds what loops over maps need: the keys in
ascending order, the same keys in the order a run happens to visit them, and
the map built by a loop that inserts one entry for each visited key.
-/

/-- A finite map from `κ` to `α`. -/
abbrev Map (κ α : Type) : Type := Finmap fun _ : κ => α

namespace Map

variable {κ κ' α β : Type} [DecidableEq κ] [DecidableEq κ']

theorem lookup_insert (m : Map κ α) (k k' : κ) (v : α) :
    (m.insert k v).lookup k' = if k' = k then some v else m.lookup k' := by
  split
  · next h => rw [h, Finmap.lookup_insert]
  · next h => exact Finmap.lookup_insert_of_ne m h

theorem lookup_erase (m : Map κ α) (k k' : κ) :
    (m.erase k).lookup k' = if k' = k then none else m.lookup k' := by
  split
  · next h => rw [h, Finmap.lookup_erase]
  · next h => exact Finmap.lookup_erase_ne h

theorem of_lookup_insert {m : Map κ α} {k k' : κ} {v w : α} (h : (m.insert k v).lookup k' = some w) :
    k' = k ∧ v = w ∨ k' ≠ k ∧ m.lookup k' = some w := by
  rw [lookup_insert] at h
  split at h
  · next hk => exact .inl ⟨hk, Option.some.inj h⟩
  · next hk => exact .inr ⟨hk, h⟩

theorem of_lookup_erase {m : Map κ α} {k k' : κ} {w : α} (h : (m.erase k).lookup k' = some w) :
    k' ≠ k ∧ m.lookup k' = some w := by
  rw [lookup_erase] at h
  split at h
  · cases h
  · next hk => exact ⟨hk, h⟩

/-- `m'` is `m` with the entry at `k` replaced by `o`. -/
def Writes (k : κ) (o : Option α) (m m' : Map κ α) : Prop :=
  ∀ k', m'.lookup k' = if k' = k then o else m.lookup k'

theorem writes_insert (m : Map κ α) (k : κ) (v : α) : Writes k (some v) m (m.insert k v) :=
  fun k' => lookup_insert m k k' v

theorem writes_erase (m : Map κ α) (k : κ) : Writes k none m (m.erase k) :=
  lookup_erase m k

variable {k : κ} {m : Map κ α}

/-- What holds of the new entry and of the old ones holds of all entries. -/
theorem Writes.forall_lookup {o : Option α} {m' : Map κ α} (h : Writes k o m m') {P : κ → α → Prop}
    (hnew : ∀ v, o = some v → P k v) (hold : ∀ k v, m.lookup k = some v → P k v) (k' : κ) (v : α)
    (hv : m'.lookup k' = some v) : P k' v := by
  rw [h] at hv
  split at hv
  · next hk => exact hk ▸ hnew v hv
  · exact hold k' v hv

theorem erase_of_lookup_none (h : m.lookup k = none) : m.erase k = m := by
  refine Finmap.ext_lookup fun k' => ?_
  rw [lookup_erase]
  split
  · next hk => rw [hk, h]
  · rfl

theorem insert_of_lookup {v : α} (h : m.lookup k = some v) : m.insert k v = m := by
  refine Finmap.ext_lookup fun k' => ?_
  rw [lookup_insert]
  split
  · next hk => rw [hk, h]
  · rfl

theorem insert_erase (m : Map κ α) (k : κ) (v : α) : (m.erase k).insert k v = m.insert k v := by
  refine Finmap.ext_lookup fun k' => ?_
  rw [lookup_insert, lookup_insert, lookup_erase]
  split <;> rfl

theorem mem_iff_ne_none : k ∈ m ↔ m.lookup k ≠ none := by
  rw [ne_eq, Finmap.lookup_eq_none, not_not]

/-- A test that every entry passes. -/
theorem forall_lookup_of_keys {p : κ → α → Bool} (h : ∀ k ∈ m.keys, (m.lookup k).all (p k) = true)
    (k : κ) (v : α) (hv : m.lookup k = some v) : p k v = true := by
  have hk := h k (Finmap.mem_keys.2 (mem_iff_ne_none.2 (hv ▸ Option.some_ne_none v)))
  rw [hv] at hk
  exact hk

theorem eq_empty_of_keys (h : m.keys = ∅) : m = ∅ := by
  refine Finmap.ext_lookup fun k => ?_
  have hk : k ∉ m := by
    rw [← Finmap.mem_keys, h]
    exact Finset.notMem_empty k
  rw [Finmap.lookup_eq_none.2 hk, Finmap.lookup_empty]

theorem keys_insert (m : Map κ α) (k : κ) (v : α) : (m.insert k v).keys = insert k m.keys := by
  ext k'
  simp [Finmap.mem_keys]

/-- The value at `k`, or `d` when the map has no entry there. -/
def getD (m : Map κ α) (k : κ) (d : α) : α := (m.lookup k).getD d

theorem getD_insert (m : Map κ α) (k k' : κ) (v d : α) :
    getD (m.insert k v) k' d = if k' = k then v else getD m k' d := by
  unfold getD
  rw [lookup_insert]
  split <;> rfl

theorem getD_erase (m : Map κ α) (k k' : κ) (d : α) :
    getD (m.erase k) k' d = if k' = k then d else getD m k' d := by
  unfold getD
  rw [lookup_erase]
  split <;> rfl

@[simp] theorem getD_empty (k : κ) (d : α) : getD (∅ : Map κ α) k d = d := rfl

/-! ## Keys in order -/

instance isTrans_le [LinearOrder κ] : IsTrans κ (· ≤ ·) := inferInstance

instance antisymm_le [LinearOrder κ] : @Std.Antisymm κ (· ≤ ·) := inferInstance

section Sorting

variable [LE κ] [DecidableLE κ] [@Std.Total κ (· ≤ ·)] [IsTrans κ (· ≤ ·)]
  [@Std.Antisymm κ (· ≤ ·)]

omit [DecidableEq κ] in
theorem insertionSort_eq_of_perm {l₁ l₂ : List κ} (h : l₁.Perm l₂) :
    l₁.insertionSort (· ≤ ·) = l₂.insertionSort (· ≤ ·) := by
  apply List.Perm.eq_of_pairwise' (r := (· ≤ ·))
  · exact List.pairwise_insertionSort _ _
  · exact List.pairwise_insertionSort _ _
  · exact (List.perm_insertionSort _ _).trans (h.trans (List.perm_insertionSort _ _).symm)

/-- The elements of a finite set in ascending order. -/
def sort (s : Finset κ) : List κ :=
  Quot.liftOn s.val (List.insertionSort (· ≤ ·)) fun _ _ => insertionSort_eq_of_perm

omit [DecidableEq κ] in
theorem coe_sort (s : Finset κ) : (sort s : Multiset κ) = s.val := by
  unfold sort
  induction h : s.val using Quot.inductionOn with
  | h l => exact Multiset.coe_eq_coe.2 (List.perm_insertionSort _ _)

/-- The keys of a map in ascending order. -/
def sortedKeys (m : Map κ α) : List κ := sort m.keys

omit [DecidableEq κ] in
theorem mem_sortedKeys {m : Map κ α} {k : κ} : k ∈ sortedKeys m ↔ k ∈ m := by
  rw [sortedKeys, ← Multiset.mem_coe, coe_sort, Finset.mem_val, Finmap.mem_keys]

omit [DecidableEq κ] in
theorem nodup_sortedKeys (m : Map κ α) : (sortedKeys m).Nodup := by
  rw [sortedKeys, ← Multiset.coe_nodup, coe_sort]
  exact m.keys.nodup

end Sorting

theorem pairwise_sortedKeys (m : Map Nat α) : (sortedKeys m).Pairwise (· < ·) := by
  have hle : (sortedKeys m).Pairwise (· ≤ ·) := by
    unfold sortedKeys sort
    induction m.keys.val using Quot.inductionOn with
    | h l => exact List.pairwise_insertionSort _ _
  exact (hle.and (nodup_sortedKeys m)).imp fun h => lt_of_le_of_ne h.1 h.2

/-- The order in which one loop over a map visits its keys. The language leaves
    it open, so a run carries it and every result holds for all of them. -/
structure RangeOrder where
  order : List Nat → List Nat
  perm : ∀ l, (order l).Perm l

/-- The ascending order. -/
def RangeOrder.ascending : RangeOrder := ⟨id, fun l => List.Perm.refl l⟩

/-- The keys of `m` as a loop with order `o` visits them. -/
def range (o : RangeOrder) (m : Map Nat α) : List Nat := o.order (sortedKeys m)

theorem mem_range {o : RangeOrder} {m : Map Nat α} {k : Nat} : k ∈ range o m ↔ k ∈ m :=
  (o.perm _).mem_iff.trans mem_sortedKeys

theorem nodup_range (o : RangeOrder) (m : Map Nat α) : (range o m).Nodup :=
  (o.perm _).nodup_iff.2 (nodup_sortedKeys m)

/-- The order in which one loop over a map with keys in `κ` visits them. -/
structure Walk (κ : Type) where
  order : List κ → List κ
  perm : ∀ l, (order l).Perm l

/-- The loop that visits the keys as they are listed. -/
def Walk.listed : Walk κ := ⟨id, fun l => List.Perm.refl l⟩

/-- The loop that visits `k` first. -/
def Walk.first (k : κ) : Walk κ where
  order l := if k ∈ l then k :: l.erase k else l
  perm l := by
    split
    · next hk => exact (List.perm_cons_erase hk).symm
    · rfl

section Walks

variable [LE κ] [DecidableLE κ] [@Std.Total κ (· ≤ ·)] [IsTrans κ (· ≤ ·)]
  [@Std.Antisymm κ (· ≤ ·)]

/-- The keys of `m` as the loop `o` visits them. -/
def walk (o : Walk κ) (m : Map κ α) : List κ := o.order (sortedKeys m)

omit [DecidableEq κ] in
theorem mem_walk {o : Walk κ} {m : Map κ α} {k : κ} : k ∈ walk o m ↔ k ∈ m :=
  (o.perm _).mem_iff.trans mem_sortedKeys

omit [DecidableEq κ] in
theorem nodup_walk (o : Walk κ) (m : Map κ α) : (walk o m).Nodup :=
  (o.perm _).nodup_iff.2 (nodup_sortedKeys m)

theorem walk_first {m : Map κ α} {k : κ} (h : k ∈ m) : ∃ rest, walk (.first k) m = k :: rest :=
  ⟨_, if_pos (mem_sortedKeys.2 h)⟩

end Walks

variable {ks : List κ} {m : Map κ α}

/-- A loop that collects at most one element for each visited key, and marks it with
    the key, collects for one key just that element. -/
theorem filter_filterMap_of_key {f : κ → Option α} {key : α → κ}
    (hkey : ∀ k a, f k = some a → key a = k) (hks : ks.Nodup) (k : κ) :
    ((ks.filterMap f).filter fun a => key a = k) = if k ∈ ks then (f k).toList else [] := by
  induction ks with
  | nil => rfl
  | cons k' ks ih =>
    obtain ⟨hnotin, hrest⟩ := List.nodup_cons.1 hks
    cases hf : f k' with
    | none =>
      rw [List.filterMap_cons_none hf, ih hrest]
      by_cases hk : k = k'
      · subst hk
        simp [hf]
      · simp [hk]
    | some a =>
      have ha : key a = k' := hkey k' a hf
      rw [List.filterMap_cons_some hf]
      by_cases hk : k = k'
      · subst hk
        rw [List.filter_cons_of_pos (by simpa using ha), ih hrest]
        simp [hnotin, hf]
      · rw [List.filter_cons_of_neg (by simpa [ha] using Ne.symm hk), ih hrest]
        simp [hk]

/-! ## Loops that build a map -/

/-- Visit `ks` in order and insert, for each key of `m` among them, the entry that
    `f` gives. A later entry replaces an earlier one at the same key. -/
def rebuild (ks : List κ) (m : Map κ α) (f : κ → α → Option (κ' × β)) : Map κ' β :=
  ks.foldl (fun acc k => match (m.lookup k).bind (f k) with
    | none => acc
    | some p => acc.insert p.1 p.2) ∅

/-- When distinct keys never collide, a loop inserts exactly the entries its keys give. -/
theorem lookup_rebuild {f : κ → α → Option (κ' × β)}
    (hinj : ∀ k₁ k₂ v₁ v₂ k' b₁ b₂, m.lookup k₁ = some v₁ → m.lookup k₂ = some v₂ →
      f k₁ v₁ = some (k', b₁) → f k₂ v₂ = some (k', b₂) → k₁ = k₂) (k' : κ') (b : β) :
    (rebuild ks m f).lookup k' = some b ↔
      ∃ k ∈ ks, ∃ v, m.lookup k = some v ∧ f k v = some (k', b) := by
  induction ks using List.reverseRecOn with
  | nil => simp [rebuild]
  | append_singleton ks k ih =>
    unfold rebuild at ih ⊢
    rw [List.foldl_append, List.foldl_cons, List.foldl_nil]
    simp only [List.mem_append, List.mem_singleton, or_and_right, exists_or, exists_eq_left]
    -- The last visited key either inserts nothing, or overrides whatever is at its target.
    cases hk : (m.lookup k).bind (f k) with
    | none =>
      have hnot : ¬∃ v, m.lookup k = some v ∧ f k v = some (k', b) := by
        rintro ⟨v, hv, hf⟩
        simp [hv, hf] at hk
      rw [or_iff_left hnot]
      exact ih
    | some p =>
      obtain ⟨v, hv, hfv⟩ := Option.bind_eq_some_iff.1 hk
      have hlast : (∃ v, m.lookup k = some v ∧ f k v = some (k', b)) ↔ p = (k', b) := by
        simp [hv, hfv]
      rw [lookup_insert, hlast]
      split
      · next hp =>
        subst hp
        constructor
        · intro hb
          exact Or.inr (Prod.ext rfl (Option.some.inj hb))
        · rintro (⟨k₀, -, v₀, hv₀, hf₀⟩ | hp)
          · obtain rfl := hinj _ _ _ _ _ _ _ hv hv₀ hfv hf₀
            exact congrArg some (Prod.mk.inj (hlast.1 ⟨v₀, hv₀, hf₀⟩)).2
          · rw [hp]
      · next hp =>
        rw [or_iff_left fun heq => hp (by rw [heq])]
        exact ih

/-- Visit `ks` and replace, or drop, the value at each of them as `g` says. -/
def revise (ks : List κ) (m : Map κ α) (g : κ → α → Option β) : Map κ β :=
  rebuild ks m fun k v => (g k v).map fun b => (k, b)

theorem lookup_revise {g : κ → α → Option β} (hks : ∀ k, k ∈ m → k ∈ ks) (k : κ) :
    (revise ks m g).lookup k = (m.lookup k).bind (g k) := by
  have htarget : ∀ k₀ v₀ k' b, ((g k₀ v₀).map fun b => (k₀, b)) = some (k', b) →
      k₀ = k' ∧ g k₀ v₀ = some b := by
    intro k₀ v₀ k' b h
    obtain ⟨b', hb', heq⟩ := Option.map_eq_some_iff.1 h
    cases heq
    exact ⟨rfl, hb'⟩
  refine Option.ext fun b => ?_
  rw [revise, lookup_rebuild, Option.bind_eq_some_iff]
  · constructor
    · rintro ⟨k₀, -, v, hv, hg⟩
      obtain ⟨rfl, hb⟩ := htarget _ _ _ _ hg
      exact ⟨v, hv, hb⟩
    · rintro ⟨v, hv, hb⟩
      refine ⟨k, hks k (mem_iff_ne_none.2 (by rw [hv]; exact Option.some_ne_none v)), v, hv, ?_⟩
      rw [hb]
      rfl
  · intro k₁ k₂ v₁ v₂ k' b₁ b₂ _ _ h₁ h₂
    exact (htarget _ _ _ _ h₁).1.trans (htarget _ _ _ _ h₂).1.symm

/-- Apply `f` to every value. -/
def mapVals (f : α → β) (m : Map κ α) : Map κ β where
  entries := m.entries.map fun e => ⟨e.1, f e.2⟩
  nodupKeys := by
    have hkeys : (m.entries.map fun e => (⟨e.1, f e.2⟩ : Sigma fun _ : κ => β)).keys =
        m.entries.keys := by
      simp [Multiset.keys]
    exact Multiset.nodup_keys.1 (hkeys ▸ Multiset.nodup_keys.2 m.nodupKeys)

theorem lookup_mapVals (f : α → β) (m : Map κ α) (k : κ) :
    (mapVals f m).lookup k = (m.lookup k).map f := by
  induction m using Finmap.induction_on with
  | H a =>
    obtain ⟨l, hl⟩ := a
    change (l.map fun e => (⟨e.1, f e.2⟩ : Sigma fun _ : κ => β)).dlookup k = (l.dlookup k).map f
    clear hl
    induction l with
    | nil => rfl
    | cons e l ih =>
      obtain ⟨k₀, v⟩ := e
      by_cases h : k = k₀
      · subst h
        rw [List.map_cons, List.dlookup_cons_eq, List.dlookup_cons_eq, Option.map_some]
      · rw [List.map_cons, List.dlookup_cons_ne _ _ h, List.dlookup_cons_ne _ _ h, ih]

theorem getD_mapVals (f : α → β) (m : Map κ α) (k : κ) (d : α) :
    getD (mapVals f m) k (f d) = f (getD m k d) := by
  rw [getD, lookup_mapVals, getD]
  cases m.lookup k <;> rfl

/-- Keep the entries that satisfy `p`. -/
def filter (p : κ → α → Bool) (m : Map κ α) : Map κ α where
  entries := m.entries.filter fun e => p e.1 e.2
  nodupKeys := by
    have hle : (m.entries.filter fun e => p e.1 e.2).keys ≤ m.entries.keys :=
      Multiset.map_le_map (Multiset.filter_le _ _)
    exact Multiset.nodup_keys.1 (Multiset.nodup_of_le hle (Multiset.nodup_keys.2 m.nodupKeys))

theorem lookup_filter (p : κ → α → Bool) (m : Map κ α) (k : κ) :
    (filter p m).lookup k = (m.lookup k).filter (p k) := by
  induction m using Finmap.induction_on with
  | H a =>
    obtain ⟨l, hl⟩ := a
    change (l.filter fun e => decide (p e.1 e.2 = true)).dlookup k = (l.dlookup k).filter (p k)
    simp only [Bool.decide_eq_true]
    induction l with
    | nil => rfl
    | cons e l ih =>
      obtain ⟨k₀, v⟩ := e
      obtain ⟨hnotin, hrest⟩ := List.nodupKeys_cons.1 hl
      by_cases h : k₀ = k
      · -- The head is the only entry with its key, so a dropped head leaves nothing.
        subst h
        have hnone : (l.filter fun e => p e.1 e.2).dlookup k₀ = none := by
          rw [ih hrest, List.dlookup_eq_none.2 hnotin]
          rfl
        cases hp : p k₀ v <;> simp [hp, hnone, Option.filter]
      · rw [List.dlookup_cons_ne _ _ (Ne.symm h), ← ih hrest]
        cases hp : p k₀ v <;> simp [hp, Ne.symm h]

/-! ## Selected values -/

section

variable {m : Map κ α} {v : α} (p : α → Prop) [DecidablePred p] (g : α → β)

/-- What `g` makes of the values with `p`. -/
def gather (m : Map κ α) : Multiset β := (m.entries.filter fun e => p e.2).map fun e => g e.2

theorem gather_insert (h : m.lookup k = none) :
    gather p g (m.insert k v) = if p v then g v ::ₘ gather p g m else gather p g m := by
  have hentries : (m.insert k v).entries = ⟨k, v⟩ ::ₘ m.entries :=
    Finmap.entries_insert_of_notMem (Finmap.lookup_eq_none.1 h)
  unfold gather
  rw [hentries, Multiset.filter_cons]
  split
  next => rw [Multiset.singleton_add, Multiset.map_cons]
  next => rw [zero_add]

theorem gather_erase (h : m.lookup k = some v) :
    gather p g m = if p v then g v ::ₘ gather p g (m.erase k) else gather p g (m.erase k) := by
  rw [← gather_insert p g (Finmap.lookup_erase k m), insert_erase, insert_of_lookup h]

end

/-! ## Totals -/

/-- The number of elements in all the lists of a map. -/
def total (m : Map κ (List α)) : Nat := ∑ k ∈ m.keys, (getD m k []).length

@[simp] theorem total_empty : total (∅ : Map κ (List α)) = 0 := rfl

/-- A new entry adds what it counts for. -/
theorem sum_insert_new (f : α → Nat) (d v : α) (h : m.lookup k = none) :
    ∑ k' ∈ (m.insert k v).keys, f (getD (m.insert k v) k' d) =
      ∑ k' ∈ m.keys, f (getD m k' d) + f v := by
  have hk : k ∉ m.keys := Finmap.lookup_eq_none.1 h
  have hrest : ∀ k' ∈ m.keys, f (getD (m.insert k v) k' d) = f (getD m k' d) := by
    intro k' hk'
    rw [getD_insert, if_neg (ne_of_mem_of_not_mem hk' hk)]
  rw [keys_insert, Finset.sum_insert hk, Finset.sum_congr rfl hrest, getD_insert, if_pos rfl,
    Nat.add_comm]

/-- Dropping the list at `k` lowers the total by its length. -/
theorem total_erase (m : Map κ (List α)) (k : κ) :
    total (m.erase k) + (getD m k []).length = total m := by
  cases hk : m.lookup k with
  | none =>
    rw [erase_of_lookup_none hk, getD, hk]
    rfl
  | some l =>
    have htotal := sum_insert_new List.length [] l (Finmap.lookup_erase k m)
    rw [insert_erase, insert_of_lookup hk] at htotal
    rw [getD, hk]
    exact htotal.symm

/-- Replacing the list at `k` moves the total by the difference of the lengths. -/
theorem total_insert (m : Map κ (List α)) (k : κ) (l : List α) :
    total (m.insert k l) + (getD m k []).length = total m + l.length := by
  rw [← insert_erase, total, sum_insert_new List.length [] l (Finmap.lookup_erase k m), ← total,
    ← total_erase m k]
  omega

/-- Renaming the keys keeps the total, if the lists keep their lengths. -/
theorem total_rename {m : Map κ (List α)} {m' : Map κ' (List β)}
    {r : κ → κ'} (hinj : ∀ a ∈ m.keys, ∀ b ∈ m.keys, r a = r b → a = b)
    (hkeys : m'.keys = m.keys.image r)
    (hlen : ∀ k ∈ m.keys, (getD m' (r k) []).length = (getD m k []).length) :
    total m' = total m := by
  unfold total
  rw [hkeys, Finset.sum_image fun a ha b hb => hinj a ha b hb]
  exact Finset.sum_congr rfl hlen

end Map
