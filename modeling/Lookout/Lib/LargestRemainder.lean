-- SUMMARY: Rounding a list of quotas to whole shares by the largest remainder method.
import Mathlib.Algebra.Order.BigOperators.Group.List
import Mathlib.Algebra.Order.Floor.Ring
import Mathlib.Data.List.GetD
import Mathlib.Data.List.Sort
import Mathlib.Tactic.FieldSimp
import Mathlib.Tactic.Linarith

/-!
# The largest remainder method

Every party first gets the whole part of its quota. The units that are left go out
one by one, in the order of the remainders, ties by position. When the quotas add up
to the number of units, so do the shares, and no share is a whole unit away from its
quota.
-/

namespace LargestRemainder

/-! ## Handing out units -/

/-- One more unit for every position of `idxs`, as often as it occurs there. -/
def give (idxs : List Nat) (out : List Int) : List Int :=
  idxs.foldl (fun out i => out.modify i (· + 1)) out

theorem give_length (idxs : List Nat) (out : List Int) :
    (give idxs out).length = out.length := by
  induction idxs generalizing out with
  | nil => rfl
  | cons i idxs ih =>
    exact (ih _).trans (List.length_modify _ _ _)

theorem give_getElem? (idxs : List Nat) (out : List Int) (j : Nat) :
    (give idxs out)[j]? = out[j]?.map (· + (idxs.count j : Int)) := by
  induction idxs generalizing out with
  | nil => simp [give]
  | cons i idxs ih =>
    refine (ih _).trans ?_
    rw [List.getElem?_modify, List.count_cons]
    cases out[j]? with
    | none => rfl
    | some v =>
      by_cases hij : i = j
      · simp
        omega
      · simp [hij]

variable {out : List Int} {i : Nat}

theorem sum_modify_succ (hi : i < out.length) : (out.modify i (· + 1)).sum = out.sum + 1 := by
  induction out generalizing i with
  | nil => cases hi
  | cons v out ih =>
    cases i with
    | zero =>
      simp
      omega
    | succ i =>
      simp only [List.modify_succ_cons, List.sum_cons]
      rw [ih (Nat.lt_of_succ_lt_succ hi)]
      omega

/-- Every unit given is found in the total. -/
theorem sum_give {idxs : List Nat} (h : ∀ i ∈ idxs, i < out.length) :
    (give idxs out).sum = out.sum + idxs.length := by
  induction idxs generalizing out with
  | nil => simp [give]
  | cons i idxs ih =>
    have hrest : ∀ j ∈ idxs, j < (out.modify i (· + 1)).length := by
      intro j hj
      rw [List.length_modify]
      exact h j (List.mem_cons_of_mem i hj)
    refine (ih hrest).trans ?_
    rw [sum_modify_succ (h i List.mem_cons_self), List.length_cons]
    push_cast
    omega

/-! ## The order of serving -/

variable {α : Type} [LinearOrder α]

/-- `a` is served no later than `b`: a larger remainder, or the same one at an
    earlier position. -/
def Before (a b : α × Nat) : Prop := b.1 < a.1 ∨ a.1 = b.1 ∧ a.2 ≤ b.2

instance : DecidableRel (Before (α := α)) :=
  fun a b => inferInstanceAs (Decidable (b.1 < a.1 ∨ a.1 = b.1 ∧ a.2 ≤ b.2))

instance : Std.Total (Before (α := α)) where
  total a b := by
    rcases lt_trichotomy a.1 b.1 with h | h | h
    · exact Or.inr (Or.inl h)
    · rcases Nat.le_total a.2 b.2 with hi | hi
      · exact Or.inl (Or.inr ⟨h, hi⟩)
      · exact Or.inr (Or.inr ⟨h.symm, hi⟩)
    · exact Or.inl (Or.inl h)

instance : IsTrans (α × Nat) (Before (α := α)) where
  trans a b c hab hbc := by
    rcases hab with hab | ⟨hab, hi⟩
    · rcases hbc with hbc | ⟨hbc, -⟩
      · exact Or.inl (hbc.trans hab)
      · exact Or.inl (hbc ▸ hab)
    · rcases hbc with hbc | ⟨hbc, hj⟩
      · exact Or.inl (hab ▸ hbc)
      · exact Or.inr ⟨hab.trans hbc, hi.trans hj⟩

/-- The remainders with their positions, in the order of serving. -/
def queue (rems : List α) : List (α × Nat) := rems.zipIdx.insertionSort Before

/-- The positions that get the first `k` units: down the queue, round after round. -/
def served (rems : List α) (k : Nat) : List Nat :=
  let order := (queue rems).map Prod.snd
  (List.range k).map fun j => order.getD (j % rems.length) 0

theorem queue_perm (rems : List α) : (queue rems).Perm rems.zipIdx :=
  List.perm_insertionSort _ _

theorem queue_length (rems : List α) : (queue rems).length = rems.length := by
  rw [(queue_perm rems).length_eq, List.length_zipIdx]

theorem queue_sorted (rems : List α) : (queue rems).Pairwise Before :=
  List.pairwise_insertionSort _ _

/-- The queue holds every position once. -/
theorem order_perm (rems : List α) :
    ((queue rems).map Prod.snd).Perm (List.range rems.length) := by
  refine ((queue_perm rems).map Prod.snd).trans ?_
  rw [List.zipIdx_map_snd, ← List.range_eq_range']

variable {k : Nat} {n : Int} {rems quotas : List α} {q : α}

/-- With no more units than positions, nobody is served twice. -/
theorem served_eq_take (hk : k ≤ rems.length) :
    served rems k = ((queue rems).map Prod.snd).take k := by
  have hlen : ((queue rems).map Prod.snd).length = rems.length := by
    rw [List.length_map, queue_length]
  refine List.ext_getElem ?_ fun j hj hj' => ?_
  · rw [served, List.length_map, List.length_range, List.length_take, hlen]
    omega
  · rw [served, List.length_map, List.length_range] at hj
    have hmod : j % rems.length = j := Nat.mod_eq_of_lt (by omega)
    simp only [served, List.getElem_map, List.getElem_range, hmod, List.getElem_take]
    rw [List.getD_eq_getElem _ _ (by omega), List.getElem_map]

theorem lt_of_mem_served (hne : rems ≠ []) (hi : i ∈ served rems k) : i < rems.length := by
  obtain ⟨j, -, rfl⟩ := List.mem_map.mp hi
  have hpos : 0 < rems.length := List.length_pos_of_ne_nil hne
  have hlt : j % rems.length < ((queue rems).map Prod.snd).length := by
    rw [List.length_map, queue_length]
    exact Nat.mod_lt j hpos
  rw [List.getD_eq_getElem _ _ hlt]
  exact List.mem_range.mp ((order_perm rems).mem_iff.mp (List.getElem_mem hlt))

/-- Equal remainders are served from the front. -/
theorem served_replicate (m : Nat) (r : α) (hk : k ≤ m) :
    served (List.replicate m r) k = List.range k := by
  have hsorted : (List.replicate m r).zipIdx.Pairwise Before := by
    rw [List.pairwise_iff_getElem]
    intro i j hi hj hij
    simp only [List.getElem_zipIdx, List.getElem_replicate]
    exact Or.inr ⟨rfl, by omega⟩
  rw [served_eq_take (by simpa using hk), queue, hsorted.insertionSort_eq, List.zipIdx_map_snd,
    ← List.range_eq_range', List.length_replicate, List.take_range, Nat.min_eq_left hk]

/-! ## Shares -/

variable [Field α] [FloorRing α]

/-- The whole shares of `n` units under the quotas. -/
def shares (n : Int) (quotas : List α) : List Int :=
  let out := quotas.map Int.floor
  let deficit := n - out.sum
  if deficit ≤ 0 then out
  else give (served (quotas.map Int.fract) deficit.toNat) out

theorem shares_length (n : Int) (quotas : List α) :
    (shares n quotas).length = quotas.length := by
  rw [shares]
  split
  · exact List.length_map _
  · rw [give_length, List.length_map]

variable [IsStrictOrderedRing α]

theorem sum_floor_add_fract (quotas : List α) :
    (((quotas.map Int.floor).sum : Int) : α) + (quotas.map Int.fract).sum = quotas.sum := by
  induction quotas with
  | nil => simp
  | cons q quotas ih =>
    simp only [List.map_cons, List.sum_cons, Int.cast_add]
    have hq := Int.floor_add_fract q
    linarith

theorem sum_fract_nonneg (quotas : List α) : 0 ≤ (quotas.map Int.fract).sum :=
  List.sum_nonneg fun r hr => by
    obtain ⟨q, -, rfl⟩ := List.mem_map.mp hr
    exact Int.fract_nonneg q

/-- The units the whole parts leave over are the remainders' total. -/
theorem deficit_eq (hsum : quotas.sum = n) :
    ((n - (quotas.map Int.floor).sum : Int) : α) = (quotas.map Int.fract).sum := by
  have h := sum_floor_add_fract quotas
  rw [Int.cast_sub, ← hsum]
  linarith

theorem deficit_nonneg (hsum : quotas.sum = n) : 0 ≤ n - (quotas.map Int.floor).sum := by
  have h : (0 : α) ≤ ((n - (quotas.map Int.floor).sum : Int) : α) := by
    rw [deficit_eq hsum]
    exact sum_fract_nonneg quotas
  exact_mod_cast h

/-- The shares add up to the units. -/
theorem shares_sum (hne : quotas ≠ []) (hsum : quotas.sum = n) : (shares n quotas).sum = n := by
  have hdef := deficit_nonneg hsum
  rw [shares]
  split
  next hle => omega
  next hlt =>
    have hserved : ∀ i ∈ served (quotas.map Int.fract) (n - (quotas.map Int.floor).sum).toNat,
        i < (quotas.map Int.floor).length := by
      intro i hi
      have := lt_of_mem_served (by simpa using hne) hi
      simpa using this
    rw [sum_give hserved, served, List.length_map, List.length_range]
    omega

theorem fract_le_one {r : α} (hr : r ∈ quotas.map Int.fract) : r ≤ 1 := by
  obtain ⟨q, -, rfl⟩ := List.mem_map.mp hr
  exact (Int.fract_lt_one q).le

omit [FloorRing α] in
/-- A list of at most ones sums to at most its length. -/
theorem sum_le_length {l : List α} (h : ∀ x ∈ l, x ≤ 1) : l.sum ≤ l.length := by
  have hle := List.sum_le_card_nsmul l 1 h
  simpa using hle

/-- As many remainders as their total are not zero, and these are served first. -/
theorem fract_pos_of_mem_take (hk : (k : α) = (quotas.map Int.fract).sum) {a : α × Nat}
    (ha : a ∈ (queue (quotas.map Int.fract)).take k) : 0 < a.1 := by
  obtain ⟨p, hp, rfl⟩ := List.mem_iff_getElem.mp ha
  rw [List.length_take] at hp
  rw [List.getElem_take]
  set L := queue (quotas.map Int.fract)
  have hpL : p < L.length := by omega
  by_contra hle
  have hsorted : L.Pairwise Before := queue_sorted _
  have hfst : (L.map Prod.fst).Perm (quotas.map Int.fract) := by
    refine ((queue_perm _).map Prod.fst).trans ?_
    rw [List.zipIdx_map_fst]
  -- From position `p` on nothing is left, so the total fits into the first `p` places.
  have hdrop : ((L.drop p).map Prod.fst).sum ≤ 0 := by
    have hnonpos : ∀ x ∈ (L.drop p).map Prod.fst, x ≤ 0 := by
      intro x hx
      obtain ⟨b, hb, rfl⟩ := List.mem_map.mp hx
      obtain ⟨j, hj, rfl⟩ := List.mem_iff_getElem.mp hb
      rw [List.length_drop] at hj
      rw [List.getElem_drop]
      rcases Nat.eq_zero_or_pos j with rfl | hpos
      · exact not_lt.mp hle
      · have hbefore := List.pairwise_iff_getElem.mp hsorted p (p + j) hpL (by omega) (by omega)
        rcases hbefore with hlt | ⟨heq, -⟩
        · exact hlt.le.trans (not_lt.mp hle)
        · exact heq ▸ not_lt.mp hle
    simpa using List.sum_le_card_nsmul _ 0 hnonpos
  have htake : ((L.take p).map Prod.fst).sum ≤ (p : α) := by
    have hle' := sum_le_length (l := (L.take p).map Prod.fst) fun x hx =>
      fract_le_one (hfst.mem_iff.mp (List.map_subset _ (List.take_subset p L) hx))
    rw [List.length_map, List.length_take, Nat.min_eq_left hpL.le] at hle'
    exact hle'
  have hsum : (k : α) ≤ (p : α) := by
    calc (k : α) = (L.map Prod.fst).sum := by rw [hk, hfst.sum_eq]
      _ = ((L.take p).map Prod.fst).sum + ((L.drop p).map Prod.fst).sum := by
        rw [← List.sum_append, ← List.map_append, List.take_append_drop]
      _ ≤ (p : α) := by linarith
  have hkp : k ≤ p := by exact_mod_cast hsum
  omega

/-- No share is a whole unit away from its quota. -/
theorem shares_near (hsum : quotas.sum = n) {s : Int} (hq : quotas[i]? = some q)
    (hs : (shares n quotas)[i]? = some s) : |(s : α) - q| < 1 := by
  have hfloor := Int.floor_add_fract q
  have hlt := Int.fract_lt_one q
  have hnn := Int.fract_nonneg q
  rw [shares] at hs
  split at hs
  next hle =>
    rw [List.getElem?_map, hq] at hs
    cases hs
    rw [abs_lt]
    constructor <;> linarith
  next hpos =>
    set k := (n - (quotas.map Int.floor).sum).toNat
    have hcast : (k : α) = (quotas.map Int.fract).sum := by
      rw [← deficit_eq hsum]
      have : ((k : Int) : α) = ((n - (quotas.map Int.floor).sum : Int) : α) := by
        congr 1
        omega
      exact_mod_cast this
    have hkm : k ≤ (quotas.map Int.fract).length := by
      have hle : (k : α) ≤ ((quotas.map Int.fract).length : α) := by
        rw [hcast]
        exact sum_le_length fun x hx => fract_le_one hx
      exact_mod_cast hle
    rw [give_getElem?, List.getElem?_map, hq, served_eq_take hkm] at hs
    cases hs
    have hnodup : (((queue (quotas.map Int.fract)).map Prod.snd).take k).Nodup :=
      (List.take_sublist _ _).nodup ((order_perm _).nodup_iff.mpr List.nodup_range)
    by_cases hmem : i ∈ ((queue (quotas.map Int.fract)).map Prod.snd).take k
    · -- A served position has a positive remainder.
      have hfract : 0 < Int.fract q := by
        rw [← List.map_take] at hmem
        obtain ⟨a, ha, rfl⟩ := List.mem_map.mp hmem
        have hposa := fract_pos_of_mem_take hcast ha
        have hza := (queue_perm _).mem_iff.mp (List.take_subset _ _ ha)
        rw [List.mem_zipIdx_iff_getElem?, List.getElem?_map, hq] at hza
        exact (Option.some.inj hza) ▸ hposa
      rw [List.count_eq_one_of_mem hnodup hmem, abs_lt]
      push_cast
      constructor <;> linarith
    · rw [List.count_eq_zero.mpr hmem, abs_lt]
      push_cast
      constructor <;> linarith

/-- Under equal quotas the left-over units go to the front. -/
theorem shares_replicate {m : Nat} (hsum : m * q = n) :
    shares n (List.replicate m q) =
      (List.range m).map fun (i : Nat) => if i < n - m * ⌊q⌋ then ⌊q⌋ + 1 else ⌊q⌋ := by
  have hsum' : (List.replicate m q).sum = n := by simpa using hsum
  have hfloors : ((List.replicate m q).map Int.floor).sum = m * ⌊q⌋ := by simp
  have hdef := deficit_nonneg hsum'
  have hcast := deficit_eq hsum'
  rw [hfloors] at hdef hcast
  rw [shares, hfloors]
  split
  next hle =>
    refine List.ext_getElem (by simp) fun i hi hi' => ?_
    simp only [List.getElem_replicate, List.getElem_map]
    rw [if_neg (by omega)]
  next hpos =>
    have hkm : (n - m * ⌊q⌋).toNat ≤ m := by
      have hle := sum_le_length (l := (List.replicate m q).map Int.fract)
        fun x hx => fract_le_one hx
      rw [← hcast, List.length_map, List.length_replicate] at hle
      have : (n - m * ⌊q⌋ : Int) ≤ (m : Int) := by exact_mod_cast hle
      omega
    rw [List.map_replicate, List.map_replicate, served_replicate _ _ hkm]
    refine List.ext_getElem? fun i => ?_
    rw [give_getElem?, List.getElem?_replicate, List.getElem?_map]
    by_cases him : i < m
    · rw [if_pos him, List.getElem?_range him]
      simp only [Option.map_some]
      congr 1
      split
      next hlt => rw [List.count_eq_one_of_mem List.nodup_range (List.mem_range.mpr (by omega))]; rfl
      next hge => rw [List.count_eq_zero.mpr fun h => hge (by have := List.mem_range.mp h; omega)]; simp
    · rw [if_neg him, List.getElem?_eq_none (by simpa using him)]
      rfl

end LargestRemainder
