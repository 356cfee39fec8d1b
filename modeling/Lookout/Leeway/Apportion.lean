-- SUMMARY: Distributing objects over weighted, capped domains: in whole numbers, within the caps, and in proportion.
import Lookout.Lib.LargestRemainder
import Mathlib.Algebra.Order.Field.Rat
import Mathlib.Data.Int.ConditionallyCompleteOrder
import Mathlib.Data.Rat.Floor

/-!
# Apportionment

`hamilton` rounds the proportional quotas by the largest remainder method.
`apportion` runs it over the domains that still absorb objects. A domain whose share
exceeds its cap is frozen at the cap, and the rest of the budget is poured again over
the others. A frozen domain takes less than its share, so the budget never runs out before
the domains do. `Pouring` is the loop's invariant and `Filled` is what holds when it ends.

The source computes quotas in float64. Here a finite weight is the rational number it
denotes and the arithmetic is exact.
-/

namespace Lookout.Leeway

open LargestRemainder (shares)

/-! ## Weights -/

/-- A weight as a float64 can hold it. -/
inductive Weight where
  | finite (q : ℚ)
  | nan
  | inf (negative : Bool)
  deriving DecidableEq, Repr

/-- Negative, NaN and infinite weights count as zero. -/
def Weight.sanitise : Weight → ℚ
  | .finite q => if q < 0 then 0 else q
  | .nan => 0
  | .inf _ => 0

def sanitiseWeights (weights : List Weight) : List ℚ := weights.map Weight.sanitise

/-- The default for workload subjects. -/
def equalWeights (m : Nat) : List Weight := List.replicate m (.finite 1)

theorem Weight.sanitise_nonneg (w : Weight) : 0 ≤ w.sanitise := by
  cases w with
  | finite q =>
    rw [sanitise]
    split
    · exact le_refl 0
    next h => exact not_lt.mp h
  | nan => exact le_refl 0
  | inf negative => exact le_refl 0

/-! ## One round of the largest remainder method -/

/-- The exact share of every domain. Weights that add up to nothing say nothing about
    the domains, so each then counts the same. -/
def quotas (n : Int) (weights : List ℚ) : List ℚ :=
  let (weights, sum) :=
    if weights.sum ≤ 0 then (List.replicate weights.length 1, (weights.length : ℚ))
    else (weights, weights.sum)
  weights.map fun w => n * w / sum

/-- Apportion `n` over the weights by largest remainder. -/
def hamilton (n : Int) (weights : List ℚ) : List Int :=
  if n ≤ 0 then List.replicate weights.length 0 else shares n (quotas n weights)

theorem quotas_length (n : Int) (weights : List ℚ) :
    (quotas n weights).length = weights.length := by
  rw [quotas]
  split
  next h =>
    split at h <;> (cases h; simp)

theorem sum_map_mul_div (n sum : ℚ) (weights : List ℚ) :
    (weights.map fun w => n * w / sum).sum = n * weights.sum / sum := by
  induction weights with
  | nil => simp
  | cons w weights ih =>
    simp only [List.map_cons, List.sum_cons, ih]
    ring

variable {weights : List ℚ}

theorem quotas_sum (n : Int) (hne : weights ≠ []) : (quotas n weights).sum = n := by
  rw [quotas]
  split
  next ws sum h =>
    rw [sum_map_mul_div]
    split at h
    · cases h
      have hpos : (weights.length : ℚ) ≠ 0 := by
        exact_mod_cast (List.length_pos_of_ne_nil hne).ne'
      simp [hpos]
    next hsum =>
      cases h
      exact mul_div_cancel_right₀ _ (not_le.mp hsum).ne'

variable {n s : Int} {slots : List Slot} {q : ℚ} {share : List Int}

theorem quotas_nonneg (hn : 0 ≤ n) (hw : ∀ w ∈ weights, 0 ≤ w) (hq : q ∈ quotas n weights) :
    0 ≤ q := by
  have hn' : (0 : ℚ) ≤ n := by exact_mod_cast hn
  rw [quotas] at hq
  split at hq
  next ws sum h =>
    obtain ⟨w, hmem, rfl⟩ := List.mem_map.mp hq
    split at h
    · cases h
      rw [List.eq_of_mem_replicate hmem]
      positivity
    next hsum =>
      cases h
      exact div_nonneg (mul_nonneg hn' (hw w hmem)) (not_le.mp hsum).le

theorem hamilton_length (n : Int) (weights : List ℚ) :
    (hamilton n weights).length = weights.length := by
  rw [hamilton]
  split
  · exact List.length_replicate
  · rw [LargestRemainder.shares_length, quotas_length]

/-- The shares add up to the budget. -/
theorem hamilton_sum (hn : 0 ≤ n) (hne : weights ≠ []) : (hamilton n weights).sum = n := by
  rw [hamilton]
  split
  next h =>
    obtain rfl : n = 0 := by omega
    simp
  next h =>
    have hq : quotas n weights ≠ [] := by
      rw [← List.length_pos_iff, quotas_length]
      exact List.length_pos_of_ne_nil hne
    exact LargestRemainder.shares_sum hq (quotas_sum n hne)

/-- Each share is within one object of the exact one. -/
theorem hamilton_near (hn : 0 ≤ n) (hne : weights ≠ []) {i : Nat}
    (hq : (quotas n weights)[i]? = some q) (hs : (hamilton n weights)[i]? = some s) :
    |(s : ℚ) - q| < 1 := by
  rw [hamilton] at hs
  split at hs
  next hle =>
    obtain rfl : n = 0 := by omega
    have hs0 : s = 0 := List.eq_of_mem_replicate (List.mem_of_getElem? hs)
    have hq0 : q = 0 := by
      have hmem := List.mem_of_getElem? hq
      rw [quotas] at hmem
      split at hmem
      obtain ⟨w, -, rfl⟩ := List.mem_map.mp hmem
      simp
    rw [hs0, hq0]
    simp
  next hlt => exact LargestRemainder.shares_near (quotas_sum n hne) hq hs

theorem hamilton_nonneg (hn : 0 ≤ n) (hw : ∀ w ∈ weights, 0 ≤ w) (hs : s ∈ hamilton n weights) :
    0 ≤ s := by
  obtain ⟨i, hi, rfl⟩ := List.mem_iff_getElem.mp hs
  have hiw : i < weights.length := by rwa [hamilton_length] at hi
  have hiq : i < (quotas n weights).length := by rwa [quotas_length]
  have hnear := hamilton_near hn (List.ne_nil_of_length_pos (Nat.zero_lt_of_lt hiw))
    (List.getElem?_eq_getElem hiq) (List.getElem?_eq_getElem hi)
  have hq := quotas_nonneg hn hw (List.getElem_mem hiq)
  -- A negative whole number is at least one away from a quota that is not negative.
  have hlt : (-1 : ℚ) < ((hamilton n weights)[i] : ℚ) := by
    have := (abs_lt.mp hnear).1
    linarith
  have : (-1 : Int) < (hamilton n weights)[i] := by exact_mod_cast hlt
  omega

/-! ## Pouring -/

/-- The cap of a domain without a ceiling. Any negative number says the same. -/
def uncapped : Int := -1

/-- A domain while objects are poured: what it asks for, what it may hold, what it got,
    and whether it still absorbs. -/
structure Slot where
  weight : ℚ
  cap : Int
  expected : Int := 0
  saturated : Bool := false
  active : Bool := true
  deriving DecidableEq, Repr

namespace Slot

/-- The share is more than the domain may hold. -/
def clamps (s : Slot) (want : Int) : Bool := 0 ≤ s.cap && s.cap < want

def freeze (s : Slot) : Slot := { s with expected := s.cap, saturated := true, active := false }

/-- What a round does to a domain when some domain is clamped in it. -/
def settle (s : Slot) (want : Int) : Slot := if s.clamps want then s.freeze else s

/-- What the last round does. -/
def accept (s : Slot) (want : Int) : Slot := { s with expected := want }

/-- What a round takes out of the budget for a domain. -/
def taken (p : Slot × Int) : Int := if p.1.clamps p.2 then p.1.cap else 0

theorem clamps_iff {s : Slot} {want : Int} : s.clamps want = true ↔ 0 ≤ s.cap ∧ s.cap < want := by
  rw [clamps, Bool.and_eq_true, decide_eq_true_eq, decide_eq_true_eq]

end Slot

/-- Visit the domains that still absorb, each with its share. -/
def visit (f : Slot → Int → Slot) : List Slot → List Int → List Slot
  | [], _ => []
  | s :: slots, share =>
    if s.active then
      match share with
      | [] => s :: visit f slots []
      | want :: share => f s want :: visit f slots share
    else s :: visit f slots share

/-- The domains that still absorb. -/
def absorbing (slots : List Slot) : List Slot := slots.filter (·.active)

/-- Their shares of the budget. -/
def wants (slots : List Slot) (budget : Int) : List Int :=
  hamilton budget ((absorbing slots).map (·.weight))

def pairs (slots : List Slot) (budget : Int) : List (Slot × Int) :=
  (absorbing slots).zip (wants slots budget)

section

variable (slots : List Slot) (budget : Int)

theorem wants_length : (wants slots budget).length = (absorbing slots).length := by
  rw [wants, hamilton_length, List.length_map]

theorem pairs_map_fst : (pairs slots budget).map Prod.fst = absorbing slots :=
  List.map_fst_zip (wants_length slots budget).ge

theorem pairs_map_snd : (pairs slots budget).map Prod.snd = wants slots budget :=
  List.map_snd_zip (wants_length slots budget).le

end

variable {f : Slot → Int → Slot}

/-- The domains after a round are those left alone and those visited. -/
theorem visit_perm (hlen : share.length = (absorbing slots).length) :
    (visit f slots share).Perm (slots.filter (! ·.active) ++
      ((absorbing slots).zip share).map fun p => f p.1 p.2) := by
  induction slots generalizing share with
  | nil => exact .refl _
  | cons s slots ih =>
    cases hs : s.active with
    | false =>
      simp only [absorbing, hs, List.filter_cons] at hlen ih
      simpa [visit, absorbing, hs] using ih hlen
    | true =>
      cases share with
      | nil => simp [absorbing, hs] at hlen
      | cons want share =>
        simp only [absorbing, hs, List.filter_cons] at hlen ih
        simpa [visit, absorbing, hs] using
          ((ih (Nat.succ.inj hlen)).cons (f s want)).trans List.perm_middle.symm

theorem sum_visit (f : Slot → Int → Slot) (g : Slot → Int)
    (hlen : share.length = (absorbing slots).length) :
    ((visit f slots share).map g).sum =
      ((slots.filter (! ·.active)).map g).sum +
        (((absorbing slots).zip share).map fun p => g (f p.1 p.2)).sum := by
  rw [((visit_perm hlen).map g).sum_eq, List.map_append, List.sum_append, List.map_map]
  rfl

theorem mem_visit {t : Slot} (hlen : share.length = (absorbing slots).length) :
    t ∈ visit f slots share ↔
      (t ∈ slots ∧ t.active = false) ∨ ∃ p ∈ (absorbing slots).zip share, f p.1 p.2 = t := by
  simp [(visit_perm hlen).mem_iff]

/-- What holds after a round of every domain left alone and of every domain visited
    holds of all. -/
theorem forall_visit {P : Slot → Prop} (hlen : share.length = (absorbing slots).length)
    (hrest : ∀ s ∈ slots, s.active = false → P s)
    (hvisit : ∀ p ∈ (absorbing slots).zip share, P (f p.1 p.2)) :
    ∀ s ∈ visit f slots share, P s := by
  intro t ht
  rcases (mem_visit hlen).mp ht with ⟨ht, hi⟩ | ⟨p, hp, rfl⟩
  · exact hrest t ht hi
  · exact hvisit p hp

/-- A round keeps what visiting a domain keeps. -/
theorem visit_map {β : Type} {g : Slot → β} (h : ∀ s want, g (f s want) = g s) (slots : List Slot)
    (share : List Int) : (visit f slots share).map g = slots.map g := by
  induction slots generalizing share with
  | nil => rfl
  | cons s slots ih =>
    cases hs : s.active with
    | false => simp [visit, hs, ih]
    | true =>
      cases share with
      | nil => simp [visit, ih]
      | cons want share => simp [visit, hs, ih, h]

/-- The domains that absorb after a round are those it did not clamp. -/
theorem length_absorbing_settle (hlen : share.length = (absorbing slots).length) :
    (absorbing (visit Slot.settle slots share)).length =
      (((absorbing slots).zip share).filter fun p => ! p.1.clamps p.2).length := by
  have hrest : (slots.filter (! ·.active)).filter (·.active) = [] := by
    simp
  rw [absorbing, ((visit_perm hlen).filter _).length_eq, List.filter_append, hrest, List.nil_append,
    List.filter_map, List.length_map]
  congr 1
  refine List.filter_congr fun p hp => ?_
  have hactive : p.1.active = true := (List.mem_filter.1 (List.of_mem_zip hp).1).2
  cases hc : p.1.clamps p.2 <;> simp [Slot.settle, Slot.freeze, hc, hactive]

theorem absorbing_settle_lt {budget : Int} (h : (pairs slots budget).any fun p => p.1.clamps p.2) :
    (absorbing (visit Slot.settle slots (wants slots budget))).length <
      (absorbing slots).length := by
  obtain ⟨p, hp, hc⟩ := List.any_eq_true.mp h
  have hlen : (pairs slots budget).length = (absorbing slots).length := by
    rw [← pairs_map_fst slots budget, List.length_map]
  rw [length_absorbing_settle (wants_length slots budget), ← hlen]
  exact List.length_filter_lt_length_iff_exists.mpr ⟨p, hp, by simp [hc]⟩

/-- Pour the budget over the domains. The second component is what none of them could
    take. -/
def pour (slots : List Slot) (budget : Int) : List Slot × Int :=
  if (absorbing slots).isEmpty then (slots, budget)
  else
    let share := wants slots budget
    if (pairs slots budget).any fun p => p.1.clamps p.2 then
      pour (visit Slot.settle slots share) (budget - ((pairs slots budget).map Slot.taken).sum)
    else (visit Slot.accept slots share, 0)
termination_by (absorbing slots).length
decreasing_by exact absorbing_settle_lt ‹_›

/-- How `n` objects should be distributed. -/
structure Apportionment where
  expected : List Int
  placed : Int
  unplaceable : Int
  saturated : List Bool
  deriving DecidableEq, Repr

/-- The cap of the domain at an index. Callers give no caps, or one for each domain. -/
def capAt (caps : Option (List Int)) (i : Nat) : Int :=
  match caps with
  | none => uncapped
  | some cs => cs.getD i uncapped

def slotsOf (weights : List Weight) (caps : Option (List Int)) : List Slot :=
  (sanitiseWeights weights).zipIdx.map fun (w, i) => { weight := w, cap := capAt caps i }

/-- Distribute `n` objects over the domains. -/
def apportion (n : Int) (weights : List Weight) (caps : Option (List Int)) : Apportionment :=
  if weights.length = 0 ∨ n ≤ 0 then
    { expected := List.replicate weights.length 0
      placed := 0
      unplaceable := if 0 < n then n else 0
      saturated := List.replicate weights.length false }
  else
    let (slots, left) := pour (slotsOf weights caps) n
    let expected := slots.map (·.expected)
    { expected, placed := expected.sum, unplaceable := left, saturated := slots.map (·.saturated) }

variable {caps : Option (List Int)} {budget n : Int} {slots : List Slot} {p : Slot × Int}

/-! ## What pouring keeps -/

theorem sum_split (g : Slot → Int) (slots : List Slot) :
    (slots.map g).sum =
      ((slots.filter (! ·.active)).map g).sum + ((absorbing slots).map g).sum := by
  have hperm := (List.filter_append_perm (·.active) slots).map g
  rw [← hperm.sum_eq, List.map_append, List.sum_append, add_comm]
  rfl

variable {share : List Int} {s : Slot} {weights : List Weight}

theorem mem_pairs (hp : p ∈ pairs slots budget) :
    p.1 ∈ slots ∧ p.1.active = true ∧ p.2 ∈ wants slots budget := by
  have hfst : p.1 ∈ absorbing slots := by
    rw [← pairs_map_fst slots budget]
    exact List.mem_map_of_mem hp
  have hsnd : p.2 ∈ wants slots budget := by
    rw [← pairs_map_snd slots budget]
    exact List.mem_map_of_mem hp
  exact ⟨(List.mem_filter.mp hfst).1, (List.mem_filter.mp hfst).2, hsnd⟩

/-- What a frozen domain holds of the objects already poured. -/
def Slot.held (s : Slot) : Int := if s.active then 0 else s.cap

theorem absorbing_held (slots : List Slot) : ((absorbing slots).map Slot.held).sum = 0 := by
  refine List.sum_eq_zero fun x hx => ?_
  obtain ⟨s, hs, rfl⟩ := List.mem_map.mp hx
  rw [Slot.held, if_pos (List.mem_filter.mp hs).2]

/-- A state of the loop that has `n` objects to place. -/
structure Pouring (n : Int) (slots : List Slot) (budget : Int) : Prop where
  weights : ∀ s ∈ slots, 0 ≤ s.weight
  left : 0 < budget
  frozen : ∀ s ∈ slots, s.active = false → s.expected = s.cap ∧ 0 ≤ s.cap
  fresh : ∀ s ∈ slots, s.active = true → s.saturated = false
  spent : budget + (slots.map Slot.held).sum = n

/-- A state the loop may end in. -/
structure Filled (n : Int) (slots : List Slot) (left : Int) : Prop where
  nonneg : ∀ s ∈ slots, 0 ≤ s.expected
  within : ∀ s ∈ slots, 0 ≤ s.cap → s.expected ≤ s.cap
  saturated : ∀ s ∈ slots, s.saturated = true → 0 ≤ s.cap ∧ s.expected = s.cap
  total : (slots.map (·.expected)).sum + left = n
  short : left = 0 ∨ 0 < left ∧ ∀ s ∈ slots, 0 ≤ s.cap ∧ s.expected = s.cap

namespace Pouring

section

variable (h : Pouring n slots budget)

include h

theorem wants_nonneg {want : Int} (hw : want ∈ wants slots budget) : 0 ≤ want := by
  refine hamilton_nonneg h.left.le (fun w hmem => ?_) hw
  obtain ⟨s, hs, rfl⟩ := List.mem_map.mp hmem
  exact h.weights s (List.mem_filter.mp hs).1

theorem wants_sum (hne : absorbing slots ≠ []) : (wants slots budget).sum = budget :=
  hamilton_sum h.left.le (by simpa using hne)

theorem taken_le (hp : p ∈ pairs slots budget) : Slot.taken p ≤ p.2 := by
  have hnonneg := h.wants_nonneg (mem_pairs hp).2.2
  rw [Slot.taken]
  split
  next hc => exact (Slot.clamps_iff.mp hc).2.le
  · exact hnonneg

/-- Frozen domains take less than their shares, so something is left for the others. -/
theorem taken_lt (hany : (pairs slots budget).any fun p => p.1.clamps p.2) :
    ((pairs slots budget).map Slot.taken).sum < budget := by
  obtain ⟨p, hp, hc⟩ := List.any_eq_true.mp hany
  have hne : absorbing slots ≠ [] :=
    List.ne_nil_of_mem (List.mem_filter.mpr ⟨(mem_pairs hp).1, (mem_pairs hp).2.1⟩)
  have hlt : Slot.taken p < p.2 := by
    rw [Slot.taken, if_pos hc]
    exact (Slot.clamps_iff.mp hc).2
  calc ((pairs slots budget).map Slot.taken).sum
      < ((pairs slots budget).map Prod.snd).sum :=
        List.sum_lt_sum _ _ (fun q hq => h.taken_le hq) ⟨p, hp, hlt⟩
    _ = budget := by rw [pairs_map_snd, h.wants_sum hne]

theorem settle (hany : (pairs slots budget).any fun p => p.1.clamps p.2) :
    Pouring n (visit Slot.settle slots (wants slots budget))
      (budget - ((pairs slots budget).map Slot.taken).sum) := by
  have hlen := wants_length slots budget
  refine ⟨?_, ?_, ?_, ?_, ?_⟩
  · refine forall_visit hlen (fun s hs _ => h.weights s hs) fun p hp => ?_
    have hw := h.weights p.1 (mem_pairs hp).1
    rw [Slot.settle]
    split <;> exact hw
  · have := h.taken_lt hany
    omega
  · refine forall_visit hlen (fun s hs _ => h.frozen s hs) fun p hp hinactive => ?_
    rw [Slot.settle] at hinactive ⊢
    split at hinactive
    next hc =>
      rw [if_pos hc]
      exact ⟨rfl, (Slot.clamps_iff.mp hc).1⟩
    next => rw [(mem_pairs hp).2.1] at hinactive; cases hinactive
  · refine forall_visit hlen (fun s hs _ => h.fresh s hs) fun p hp hactive => ?_
    rw [Slot.settle] at hactive ⊢
    split at hactive
    next => cases hactive
    next hc =>
      rw [if_neg hc]
      exact h.fresh p.1 (mem_pairs hp).1 hactive
  · -- What the round takes out of the budget is what the newly frozen domains hold.
    have hzero := absorbing_held slots
    have htaken : ((pairs slots budget).map fun p => (p.1.settle p.2).held) =
        (pairs slots budget).map Slot.taken := by
      refine List.map_congr_left fun p hp => ?_
      rw [Slot.settle, Slot.taken]
      split
      · rfl
      · rw [Slot.held, if_pos (mem_pairs hp).2.1]
    have hspent := h.spent
    rw [sum_split, hzero] at hspent
    rw [sum_visit _ _ hlen, ← pairs, htaken]
    omega

theorem accept (hne : absorbing slots ≠ [])
    (hnone : ¬(pairs slots budget).any fun p => p.1.clamps p.2) :
    Filled n (visit Slot.accept slots (wants slots budget)) 0 := by
  have hlen := wants_length slots budget
  have hfree : ∀ p ∈ pairs slots budget, 0 ≤ p.1.cap → p.2 ≤ p.1.cap := by
    intro p hp hcap
    by_contra hlt
    exact hnone (List.any_eq_true.mpr ⟨p, hp, Slot.clamps_iff.mpr ⟨hcap, by omega⟩⟩)
  refine ⟨?_, ?_, ?_, ?_, Or.inl rfl⟩
  · refine forall_visit hlen (fun s hs hi => ?_) fun p hp => h.wants_nonneg (mem_pairs hp).2.2
    rw [(h.frozen s hs hi).1]
    exact (h.frozen s hs hi).2
  · exact forall_visit hlen (fun s hs hi _ => (h.frozen s hs hi).1.le) fun p hp => hfree p hp
  · refine forall_visit hlen (fun s hs hi _ => (h.frozen s hs hi).symm) fun p hp hsat => ?_
    have hfresh := h.fresh p.1 (mem_pairs hp).1 (mem_pairs hp).2.1
    rw [Slot.accept, hfresh] at hsat
    cases hsat
  · have hwants : (((absorbing slots).zip (wants slots budget)).map
        fun p => (p.1.accept p.2).expected) = wants slots budget := pairs_map_snd slots budget
    have hzero := absorbing_held slots
    have hheld : (slots.filter (! ·.active)).map (·.expected) =
        (slots.filter (! ·.active)).map Slot.held := by
      refine List.map_congr_left fun s hs => ?_
      have hi : s.active = false := by simpa using (List.mem_filter.mp hs).2
      rw [(h.frozen s (List.mem_filter.mp hs).1 hi).1, Slot.held, hi]
      rfl
    have hspent := h.spent
    rw [sum_split, hzero] at hspent
    rw [sum_visit _ _ hlen, hwants, h.wants_sum hne, hheld]
    omega

theorem full (hnone : absorbing slots = []) : Filled n slots budget := by
  have hinactive : ∀ s ∈ slots, s.active = false := by
    intro s hs
    by_contra hactive
    have hmem : s ∈ absorbing slots := List.mem_filter.mpr ⟨hs, by simpa using hactive⟩
    rw [hnone] at hmem
    cases hmem
  have hcap : ∀ s ∈ slots, 0 ≤ s.cap ∧ s.expected = s.cap :=
    fun s hs => (h.frozen s hs (hinactive s hs)).symm
  refine ⟨fun s hs => ?_, fun s hs _ => (hcap s hs).2.le, fun s hs _ => hcap s hs, ?_,
    Or.inr ⟨h.left, hcap⟩⟩
  · rw [(hcap s hs).2]
    exact (hcap s hs).1
  · have hheld : slots.map (·.expected) = slots.map Slot.held := by
      refine List.map_congr_left fun s hs => ?_
      rw [(hcap s hs).2, Slot.held, hinactive s hs]
      rfl
    have hspent := h.spent
    rw [hheld]
    omega

/-- Whatever the loop starts from, it ends with everything placed or nothing left to
    place it in. -/
theorem pour_filled : Filled n (pour slots budget).1 (pour slots budget).2 := by
  fun_induction pour slots budget with
  | case1 slots budget hempty => exact h.full (List.isEmpty_iff.mp hempty)
  | case2 slots budget hempty share hany ih => exact ih (h.settle hany)
  | case3 slots budget hempty share hany =>
    exact h.accept (fun hnil => hempty (List.isEmpty_iff.mpr hnil)) hany

end

end Pouring

/-- Pouring keeps what settling and accepting keep of a domain. -/
theorem pour_map {β : Type} {g : Slot → β} (hsettle : ∀ s want, g (s.settle want) = g s)
    (haccept : ∀ s want, g (s.accept want) = g s) (slots : List Slot) (budget : Int) :
    (pour slots budget).1.map g = slots.map g := by
  fun_induction pour slots budget with
  | case1 slots budget hempty => rfl
  | case2 slots budget hempty share hany ih => rw [ih, visit_map hsettle]
  | case3 slots budget hempty share hany => exact visit_map haccept _ _

theorem pour_map_cap (slots : List Slot) (budget : Int) :
    (pour slots budget).1.map (·.cap) = slots.map (·.cap) := by
  refine pour_map (fun s want => ?_) (fun _ _ => rfl) slots budget
  rw [Slot.settle]
  split <;> rfl

/-- A domain once frozen stays frozen. -/
theorem mem_pour_of_inactive (hs : s ∈ slots) (hi : s.active = false) :
    s ∈ (pour slots budget).1 := by
  fun_induction pour slots budget with
  | case1 slots budget hempty => exact hs
  | case2 slots budget hempty share hany ih =>
    exact ih ((mem_visit (wants_length _ _)).mpr (Or.inl ⟨hs, hi⟩))
  | case3 slots budget hempty share hany =>
    exact (mem_visit (wants_length _ _)).mpr (Or.inl ⟨hs, hi⟩)

theorem visit_accept_expected (hall : ∀ s ∈ slots, s.active = true)
    (hlen : share.length = slots.length) :
    (visit Slot.accept slots share).map (·.expected) = share := by
  induction slots generalizing share with
  | nil =>
    cases share with
    | nil => rfl
    | cons want share => cases hlen
  | cons s slots ih =>
    cases share with
    | nil => cases hlen
    | cons want share =>
      have hs := hall s List.mem_cons_self
      have hrest := ih (fun t ht => hall t (List.mem_cons_of_mem s ht)) (Nat.succ.inj hlen)
      simp [visit, hs, Slot.accept, hrest]

/-- Where no cap binds, the first round is the last. -/
theorem pour_free (hne : slots ≠ []) (hall : ∀ s ∈ slots, s.active = true)
    (hfree : ∀ s ∈ (pour slots budget).1, s.saturated = false) :
    (pour slots budget).1.map (·.expected) = hamilton budget (slots.map (·.weight)) := by
  have habs : absorbing slots = slots := List.filter_eq_self.mpr hall
  have hempty : ¬(absorbing slots).isEmpty := by
    rw [habs]
    exact fun h => hne (List.isEmpty_iff.mp h)
  rw [pour, if_neg hempty] at hfree ⊢
  split at hfree
  next hany =>
    obtain ⟨p, hp, hc⟩ := List.any_eq_true.mp hany
    have hfrozen : p.1.freeze ∈ visit Slot.settle slots (wants slots budget) :=
      (mem_visit (wants_length _ _)).mpr (Or.inr ⟨p, hp, if_pos hc⟩)
    have := hfree _ (mem_pour_of_inactive hfrozen rfl)
    cases this
  next hnone =>
    rw [if_neg hnone]
    refine (visit_accept_expected hall ?_).trans ?_
    · rw [wants_length, habs]
    · rw [wants, habs]

/-! ## Apportionment is exact, capped and proportional -/

/-- What a cap lets a domain hold. -/
def ceiling (cap : Int) : WithTop Int := if cap < 0 then ⊤ else (cap : WithTop Int)

/-- What the domains can hold together, `⊤` as soon as one has no ceiling. -/
def capacity (m : Nat) (caps : Option (List Int)) : WithTop Int :=
  ((List.range m).map fun i => ceiling (capAt caps i)).sum

theorem slotsOf_map_weight (weights : List Weight) (caps : Option (List Int)) :
    (slotsOf weights caps).map (·.weight) = sanitiseWeights weights := by
  rw [slotsOf, List.map_map]
  exact List.zipIdx_map_fst 0 _

theorem slotsOf_map_cap (weights : List Weight) (caps : Option (List Int)) :
    (slotsOf weights caps).map (·.cap) = (List.range weights.length).map (capAt caps) := by
  have hsnd : (sanitiseWeights weights).zipIdx.map Prod.snd = List.range weights.length := by
    rw [List.zipIdx_map_snd, ← List.range_eq_range', sanitiseWeights, List.length_map]
  rw [slotsOf, List.map_map, ← hsnd, List.map_map]
  rfl

theorem slotsOf_fresh (hs : s ∈ slotsOf weights caps) :
    s.active = true ∧ s.saturated = false ∧ s.expected = 0 := by
  obtain ⟨⟨w, i⟩, -, rfl⟩ := List.mem_map.mp hs
  exact ⟨rfl, rfl, rfl⟩

theorem slotsOf_pouring (hn : 0 < n) (weights : List Weight) (caps : Option (List Int)) :
    Pouring n (slotsOf weights caps) n where
  weights := by
    intro s hs
    have hmem : s.weight ∈ sanitiseWeights weights := by
      rw [← slotsOf_map_weight weights caps]
      exact List.mem_map_of_mem hs
    obtain ⟨w, -, hw⟩ := List.mem_map.mp hmem
    rw [← hw]
    exact w.sanitise_nonneg
  left := hn
  frozen := fun s hs hi => by
    rw [(slotsOf_fresh hs).1] at hi
    cases hi
  fresh := fun s hs _ => (slotsOf_fresh hs).2.1
  spent := by
    have hzero : ((slotsOf weights caps).map Slot.held).sum = 0 := by
      refine List.sum_eq_zero fun x hx => ?_
      obtain ⟨s, hs, rfl⟩ := List.mem_map.mp hx
      rw [Slot.held, (slotsOf_fresh hs).1, if_pos rfl]
    omega

theorem sum_le_ceilings (hwithin : ∀ s ∈ slots, 0 ≤ s.cap → s.expected ≤ s.cap) :
    (((slots.map (·.expected)).sum : Int) : WithTop Int) ≤
      (slots.map fun s => ceiling s.cap).sum := by
  induction slots with
  | nil => exact le_refl _
  | cons s slots ih =>
    simp only [List.map_cons, List.sum_cons, WithTop.coe_add]
    refine add_le_add ?_ (ih fun t ht => hwithin t (List.mem_cons_of_mem s ht))
    rw [ceiling]
    split
    · exact le_top
    · exact WithTop.coe_le_coe.mpr (hwithin s List.mem_cons_self (by omega))

theorem sum_eq_ceilings (hfull : ∀ s ∈ slots, 0 ≤ s.cap ∧ s.expected = s.cap) :
    (((slots.map (·.expected)).sum : Int) : WithTop Int) =
      (slots.map fun s => ceiling s.cap).sum := by
  induction slots with
  | nil => rfl
  | cons s slots ih =>
    obtain ⟨hcap, hexp⟩ := hfull s List.mem_cons_self
    simp only [List.map_cons, List.sum_cons, WithTop.coe_add]
    rw [ih fun t ht => hfull t (List.mem_cons_of_mem s ht), ceiling, if_neg (by omega), hexp]

/-- The domains take what there is, or all they can hold. -/
theorem Filled.placed_eq {left : Int} (h : Filled n slots left) :
    (((slots.map (·.expected)).sum : Int) : WithTop Int) =
      min (n : WithTop Int) (slots.map fun s => ceiling s.cap).sum := by
  have htotal := h.total
  rcases h.short with hleft | ⟨hleft, hfull⟩
  · have hn : (slots.map (·.expected)).sum = n := by omega
    have hle := sum_le_ceilings h.within
    rw [hn] at hle ⊢
    exact (min_eq_left hle).symm
  · rw [← sum_eq_ceilings hfull]
    refine (min_eq_right ?_).symm
    exact WithTop.coe_le_coe.mpr (by omega)

/-- The weights' exact share, when they say something. -/
theorem quotas_of_pos (n : Int) {weights : List ℚ} (hpos : 0 < weights.sum) :
    quotas n weights = weights.map fun w => n * w / weights.sum := by
  rw [quotas, if_neg (not_le.mpr hpos)]

theorem quotas_of_zero (n : Int) {weights : List ℚ} (hzero : weights.sum ≤ 0) :
    quotas n weights = List.replicate weights.length (n / weights.length : ℚ) := by
  rw [quotas, if_pos hzero]
  simp

/-- The row of domains that an apportionment is read off. -/
def filledSlots (n : Int) (weights : List Weight) (caps : Option (List Int)) : List Slot :=
  if weights.length = 0 ∨ n ≤ 0 then slotsOf weights caps else (pour (slotsOf weights caps) n).1

theorem apportion_slots (n : Int) (weights : List Weight) (caps : Option (List Int)) :
    (filledSlots n weights caps).map (·.cap) = (List.range weights.length).map (capAt caps) ∧
      (apportion n weights caps).expected = (filledSlots n weights caps).map (·.expected) ∧
      (apportion n weights caps).saturated = (filledSlots n weights caps).map (·.saturated) ∧
      (apportion n weights caps).placed = ((filledSlots n weights caps).map (·.expected)).sum := by
  rw [apportion, filledSlots]
  split
  · have hzero : (slotsOf weights caps).map (·.expected) = List.replicate weights.length 0 :=
      List.ext_getElem (by simp [slotsOf, sanitiseWeights]) fun i hi hi' => by simp [slotsOf]
    refine ⟨slotsOf_map_cap weights caps, hzero.symm, ?_, by simp [hzero]⟩
    exact List.ext_getElem (by simp [slotsOf, sanitiseWeights]) fun i hi hi' => by simp [slotsOf]
  · exact ⟨by rw [pour_map_cap, slotsOf_map_cap], rfl, rfl, rfl⟩

/-- The row is filled. -/
theorem apportion_filled (hn : 0 ≤ n) (weights : List Weight) (caps : Option (List Int)) :
    Filled n (filledSlots n weights caps) (apportion n weights caps).unplaceable := by
  rw [apportion, filledSlots]
  split
  next htriv =>
    have hsum : ((slotsOf weights caps).map (·.expected)).sum = 0 := by
      refine List.sum_eq_zero fun x hx => ?_
      obtain ⟨s, hs, rfl⟩ := List.mem_map.mp hx
      exact (slotsOf_fresh hs).2.2
    refine ⟨fun s hs => (slotsOf_fresh hs).2.2.ge,
      fun s hs hcap => (slotsOf_fresh hs).2.2.trans_le hcap, fun s hs hsat => ?_, ?_, ?_⟩
    · rw [(slotsOf_fresh hs).2.1] at hsat
      cases hsat
    · dsimp only
      split <;> omega
    · dsimp only
      split
      next hpos =>
        have hnil : weights = [] := List.length_eq_zero_iff.mp (htriv.resolve_right (by omega))
        exact Or.inr ⟨hpos, by simp [hnil, slotsOf, sanitiseWeights]⟩
      · exact Or.inl rfl
  next hrun => exact (slotsOf_pouring (by omega) weights caps).pour_filled

/-- Where no cap binds, the domains get their largest remainder shares. -/
theorem apportion_free (hfree : ∀ b ∈ (apportion n weights caps).saturated, b = false) :
    (apportion n weights caps).expected = hamilton n (sanitiseWeights weights) := by
  rw [apportion] at hfree ⊢
  split
  next htriv =>
    rcases htriv with hnil | hle
    · rw [List.length_eq_zero_iff.mp hnil]
      refine (List.eq_nil_of_length_eq_zero ?_).symm
      rw [hamilton_length]
      rfl
    · rw [hamilton, if_pos hle, sanitiseWeights, List.length_map]
  next hrun =>
    obtain ⟨hne, -⟩ := not_or.mp hrun
    rw [if_neg hrun] at hfree
    rw [← slotsOf_map_weight weights caps]
    refine pour_free ?_ (fun s hs => (slotsOf_fresh hs).1) fun s hs => ?_
    · refine List.ne_nil_of_length_pos ?_
      simp only [slotsOf, sanitiseWeights, List.length_map, List.length_zipIdx]
      omega
    · exact hfree _ (List.mem_map_of_mem hs)

/-- Without caps every domain gets its largest remainder share. -/
theorem apportion_uncapped (hn : 0 ≤ n) (weights : List Weight) :
    (apportion n weights none).expected = hamilton n (sanitiseWeights weights) := by
  have hfilled := apportion_filled hn weights none
  obtain ⟨hcaps, -, hsat, -⟩ := apportion_slots n weights none
  refine apportion_free fun b hb => ?_
  rw [hsat] at hb
  obtain ⟨s, hs, rfl⟩ := List.mem_map.mp hb
  rw [← Bool.not_eq_true]
  intro htrue
  have hcap : s.cap ∈ (List.range weights.length).map (capAt none) := by
    rw [← hcaps]
    exact List.mem_map_of_mem hs
  obtain ⟨i, -, hi⟩ := List.mem_map.mp hcap
  have hle := (hfilled.saturated s hs htrue).1
  rw [← hi, capAt, uncapped] at hle
  omega

/-- Whole objects, no domain over its cap, everything placed that the caps allow, and
    within one object of the exact share of every domain where no cap binds. -/
theorem apportion_exact (n : Int) (hn : 0 ≤ n) (weights : List Weight)
    (caps : Option (List Int)) :
    let r := apportion n weights caps
    let w := sanitiseWeights weights
    r.expected.length = weights.length ∧ r.saturated.length = weights.length ∧
      (∀ (i : Nat) (e : Int), r.expected[i]? = some e →
        0 ≤ e ∧ (0 ≤ capAt caps i → e ≤ capAt caps i) ∧
          (r.saturated[i]? = some true → e = capAt caps i)) ∧
      r.expected.sum = r.placed ∧
      (r.placed : WithTop Int) = min (n : WithTop Int) (capacity weights.length caps) ∧
      r.placed + r.unplaceable = n ∧
      ((∀ b ∈ r.saturated, b = false) → ∀ (i : Nat) (e : Int), r.expected[i]? = some e →
        (∀ wi, w[i]? = some wi → 0 < w.sum → |(e : ℚ) - n * wi / w.sum| < 1) ∧
          (w.sum = 0 → |(e : ℚ) - n / weights.length| < 1)) := by
  intro r w
  have hfilled := apportion_filled hn weights caps
  obtain ⟨hcaps, hexp, hsat, hplaced⟩ := apportion_slots n weights caps
  generalize filledSlots n weights caps = slots at hfilled hcaps hexp hsat hplaced
  have hlen : slots.length = weights.length := by
    have := congrArg List.length hcaps
    simpa using this
  have htotal := hfilled.total
  have hceil : (slots.map fun s => ceiling s.cap) =
      (List.range weights.length).map fun i => ceiling (capAt caps i) := by
    have := congrArg (List.map ceiling) hcaps
    simpa [Function.comp_def] using this
  refine ⟨?_, ?_, fun i e he => ?_, ?_, ?_, ?_, fun hfree i e he => ?_⟩
  · rw [hexp, List.length_map, hlen]
  · rw [hsat, List.length_map, hlen]
  · rw [hexp, List.getElem?_map] at he
    obtain ⟨s, hs, rfl⟩ := Option.map_eq_some_iff.mp he
    have hmem := List.mem_of_getElem? hs
    have hcap : s.cap = capAt caps i := by
      have hi : i < weights.length := by
        rw [← hlen]
        exact (List.getElem?_eq_some_iff.mp hs).1
      have := congrArg (·[i]?) hcaps
      simpa [hs, hi] using this
    refine ⟨hfilled.nonneg s hmem, ?_, fun htrue => ?_⟩
    · rw [← hcap]
      exact hfilled.within s hmem
    · rw [hsat, List.getElem?_map, hs] at htrue
      rw [← hcap]
      exact (hfilled.saturated s hmem (Option.some.inj htrue)).2
  · rw [hexp]
    exact hplaced.symm
  · rw [hplaced, hfilled.placed_eq, hceil]
    rfl
  · rw [hplaced]
    exact htotal
  · have hham : r.expected = hamilton n w := apportion_free hfree
    rw [hham] at he
    have hne : w ≠ [] := by
      rintro hnil
      have hl := hamilton_length n w
      rw [hnil] at hl he
      rw [List.eq_nil_of_length_eq_zero hl] at he
      cases he
    refine ⟨fun wi hwi hpos => ?_, fun hzero => ?_⟩
    · refine hamilton_near hn hne ?_ he
      rw [quotas_of_pos n hpos, List.getElem?_map, hwi]
      rfl
    · refine hamilton_near hn hne ?_ he
      have hi : i < w.length := by
        rw [← hamilton_length]
        exact (List.getElem?_eq_some_iff.mp he).1
      have hw : w.length = weights.length := List.length_map _
      rw [quotas_of_zero n hzero.le, List.getElem?_replicate, if_pos hi, hw]

/-- Ten objects over four domains of which two are capped and one reports no capacity. -/
theorem ten_over_capped_zones :
    let r := apportion 10 [.finite 1, .finite 1, .finite 2, .nan] (some [-1, 1, 3, -1])
    r.expected = [6, 1, 3, 0] ∧ r.placed = 10 ∧ r.placed + r.unplaceable = 10 :=
  ⟨by decide +kernel, by decide +kernel,
    (apportion_exact 10 (by decide) [.finite 1, .finite 1, .finite 2, .nan]
      (some [-1, 1, 3, -1])).2.2.2.2.2.1⟩

end Lookout.Leeway
