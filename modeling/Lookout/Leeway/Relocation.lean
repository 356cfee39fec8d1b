-- SUMMARY: The relocation score is the least number of moves from a placement to its expectation.
import Lookout.Leeway.Score
import Lookout.Lib.Run

/-!
# Relocation as a distance

A move takes one object out of a domain and into another one, or out of all of them. It
lowers the surplus by one at most. While there is a surplus some move lowers it, and fills
a domain that is short as long as there is one.
-/

namespace Lookout.Leeway

structure ObjectMove where
  source : Nat
  target : Option Nat

def relocate (a : List Int) (m : ObjectMove) : List Int :=
  let a := a.modify m.source (· - 1)
  match m.target with
  | none => a
  | some j => a.modify j (· + 1)

/-- The object is there, and so is the domain that takes it. -/
def Possible (a : List Int) (m : ObjectMove) : Prop :=
  0 < a.getD m.source 0 ∧ ∀ j ∈ m.target, j < a.length

/-- No domain holds more than expected. -/
def Dominated (a e : List Int) : Prop := ∀ i, a.getD i 0 ≤ e.getD i 0

variable {a e : List Int} {m : ObjectMove}

theorem surplus_modify (f : Int → Int) {i : Nat} (hlen : a.length = e.length) (hi : i < a.length) :
    surplus (a.modify i f) e + max 0 (a.getD i 0 - e.getD i 0) =
        surplus a e + max 0 (f (a.getD i 0) - e.getD i 0) ∧
      surplus e (a.modify i f) + max 0 (e.getD i 0 - a.getD i 0) =
        surplus e a + max 0 (e.getD i 0 - f (a.getD i 0)) := by
  induction a generalizing e i with
  | nil => cases hi
  | cons x a ih =>
    cases e with
    | nil => cases hlen
    | cons y e =>
      cases i with
      | zero =>
        simp only [surplus, List.modify_zero_cons, List.zipWith_cons_cons, List.sum_cons,
          List.getD_cons_zero]
        omega
      | succ i =>
        have hrest := ih (Nat.succ.inj hlen) (Nat.lt_of_succ_lt_succ hi)
        simp only [surplus, List.modify_succ_cons, List.zipWith_cons_cons, List.sum_cons,
          List.getD_cons_succ] at hrest ⊢
        omega

theorem surplus_swap (hlen : a.length = e.length) :
    surplus a e + e.sum = surplus e a + a.sum := by
  induction a generalizing e with
  | nil => simp [List.eq_nil_of_length_eq_zero hlen.symm]
  | cons x a ih =>
    cases e with
    | nil => cases hlen
    | cons y e =>
      have hrest := ih (Nat.succ.inj hlen)
      simp only [surplus, List.zipWith_cons_cons, List.sum_cons] at hrest ⊢
      omega

theorem surplus_nonneg (a e : List Int) : 0 ≤ surplus a e := by
  refine List.sum_nonneg fun x hx => ?_
  obtain ⟨i, hi, rfl⟩ := List.mem_iff_getElem.mp hx
  simp

theorem surplus_le_sum (ha : ∀ x ∈ a, 0 ≤ x) (he : ∀ y ∈ e, 0 ≤ y) : surplus a e ≤ a.sum := by
  induction a generalizing e with
  | nil => exact le_rfl
  | cons x a ih =>
    obtain ⟨hx, ha⟩ := List.forall_mem_cons.mp ha
    cases e with
    | nil => exact add_nonneg hx (List.sum_nonneg ha)
    | cons y e =>
      obtain ⟨hy, he⟩ := List.forall_mem_cons.mp he
      have hrest := ih ha he
      simp only [surplus, List.zipWith_cons_cons, List.sum_cons] at hrest ⊢
      omega

theorem surplus_eq_zero_iff (hlen : a.length = e.length) : surplus a e = 0 ↔ Dominated a e := by
  induction a generalizing e with
  | nil => simp [List.eq_nil_of_length_eq_zero hlen.symm, surplus, Dominated]
  | cons x a ih =>
    cases e with
    | nil => cases hlen
    | cons y e =>
      have hrest := ih (Nat.succ.inj hlen)
      have hpos := surplus_nonneg a e
      have hsum : surplus (x :: a) (y :: e) = max 0 (x - y) + surplus a e := rfl
      constructor
      · intro h i
        cases i with
        | zero => simp only [List.getD_cons_zero]; omega
        | succ i => exact hrest.mp (by omega) i
      · intro h
        have hhead : x ≤ y := h 0
        have htail := hrest.mpr fun i => h (i + 1)
        omega

theorem eq_of_surplus (hlen : a.length = e.length) (h : surplus a e = 0) (h' : surplus e a = 0) :
    a = e := by
  refine List.ext_getElem hlen fun i hi hi' => ?_
  have hle := (surplus_eq_zero_iff hlen).mp h i
  have hge := (surplus_eq_zero_iff hlen.symm).mp h' i
  rw [List.getD_eq_getElem _ _ hi, List.getD_eq_getElem _ _ hi'] at hle hge
  exact le_antisymm hle hge

/-! ## Moves -/

@[simp] theorem length_relocate (a : List Int) (m : ObjectMove) :
    (relocate a m).length = a.length := by
  unfold relocate
  cases m.target <;> simp

theorem Possible.source_lt (h : Possible a m) : m.source < a.length := by
  by_contra hout
  have hpos := h.1
  rw [List.getD_eq_default _ _ (not_lt.mp hout)] at hpos
  cases hpos

/-- A move lowers the surplus by one at most. -/
theorem Possible.surplus_le (h : Possible a m) (hlen : a.length = e.length) :
    surplus a e ≤ surplus (relocate a m) e + 1 := by
  have hout := (surplus_modify (· - 1) hlen h.source_lt).1
  have hlen' : (a.modify m.source (· - 1)).length = e.length := by rwa [List.length_modify]
  unfold relocate
  cases htarget : m.target with
  | none =>
    dsimp only at hout ⊢
    omega
  | some j =>
    have hin := (surplus_modify (· + 1) hlen' (hlen'.trans hlen.symm ▸ h.2 j htarget)).1
    dsimp only at hout hin ⊢
    omega

theorem surplus_le_length {ms : List ObjectMove} (hlen : a.length = e.length)
    (hms : Run.Steps relocate Possible a ms) (hend : Dominated (ms.foldl relocate a) e) :
    surplus a e ≤ ms.length := by
  induction ms generalizing a with
  | nil => exact ((surplus_eq_zero_iff hlen).mpr hend).le
  | cons m ms ih =>
    have hfirst := hms.1.surplus_le hlen
    have hrest := ih ((length_relocate a m).trans hlen) hms.2 hend
    rw [List.length_cons]
    omega

theorem exists_over (hlen : a.length = e.length) (h : surplus a e ≠ 0) :
    ∃ i, i < a.length ∧ e.getD i 0 < a.getD i 0 := by
  rw [Ne, surplus_eq_zero_iff hlen, Dominated, not_forall] at h
  obtain ⟨i, hi⟩ := h
  refine ⟨i, ?_, not_le.mp hi⟩
  by_contra hout
  rw [List.getD_eq_default _ _ (not_lt.mp hout), List.getD_eq_default _ _ (by omega)] at hi
  exact hi le_rfl

/-- As many moves as there is surplus lead to the expectation. -/
theorem exists_moves (hexp : ∀ y ∈ e, 0 ≤ y) {k : Nat} (hlen : a.length = e.length)
    (hk : surplus a e = k) (hshort : surplus e a ≤ k) :
    ∃ ms, Run.Steps relocate Possible a ms ∧ ms.length = k ∧ ms.foldl relocate a = e := by
  induction k generalizing a with
  | zero =>
    exact ⟨[], trivial, rfl, eq_of_surplus hlen hk (hshort.antisymm (surplus_nonneg e a))⟩
  | succ k ih =>
    obtain ⟨i, hi, hover⟩ := exists_over hlen (by omega)
    have hthere : 0 < a.getD i 0 := by
      refine (hexp _ ?_).trans_lt hover
      rw [List.getD_eq_getElem _ _ (hlen ▸ hi)]
      exact List.getElem_mem _
    obtain ⟨hout, hout'⟩ := surplus_modify (· - 1) hlen hi
    have hlen' : (a.modify i (· - 1)).length = e.length := by rwa [List.length_modify]
    -- The object goes to a domain that is short, if there is one.
    obtain ⟨m, hm, hless, hless'⟩ : ∃ m, Possible a m ∧ surplus (relocate a m) e = k ∧
        surplus e (relocate a m) ≤ k := by
      by_cases hfull : surplus e (a.modify i (· - 1)) ≤ k
      · exact ⟨⟨i, none⟩, ⟨hthere, nofun⟩, by dsimp only [relocate]; omega, hfull⟩
      · obtain ⟨j, hj, hlow⟩ := exists_over hlen'.symm (by omega)
        rw [← hlen'] at hj
        obtain ⟨hin, hin'⟩ := surplus_modify (· + 1) hlen' hj
        refine ⟨⟨i, some j⟩, ⟨hthere, ?_⟩, ?_, ?_⟩
        · rintro _ ⟨rfl⟩
          rwa [List.length_modify] at hj
        · dsimp only [relocate]
          omega
        · dsimp only [relocate]
          omega
    obtain ⟨ms, hms, hcount, hend⟩ := ih ((length_relocate a m).trans hlen) hless hless'
    exact ⟨m :: ms, ⟨hm, hms⟩, by rw [List.length_cons, hcount], hend⟩

/-- What the scores of a placement of all objects say about its relocation. -/
structure Distance (actual : List Int) (ap : Apportionment) (s : Scores) : Prop where
  balance : s.relocation = surplus ap.expected actual + ap.unplaceable
  reaches : ∃ ms, Run.Steps relocate Possible actual ms ∧ ms.length = s.relocation ∧
    ms.foldl relocate actual = ap.expected
  least : ∀ ms, Run.Steps relocate Possible actual ms →
    Dominated (ms.foldl relocate actual) ap.expected → s.relocation ≤ ms.length
  excess : 0 < s.excessSkew → 0 < s.relocation
  drift : 0 ≤ s.drift ∧ s.drift ≤ 1

/-- The relocation score is the least number of moves to the expectation. -/
theorem relocation_distance {domains : List Domain} {actual : List Int} {weights : List Weight}
    (hactual : actual.length = domains.length) (hweights : weights.length = domains.length)
    (hnonneg : ∀ x ∈ actual, 0 ≤ x) (hpos : 0 < actual.sum) (caps : Option (List Int))
    (maxSkew : Option Int) (t : Thresholds) :
    Distance actual (apportion actual.sum weights caps)
      (score domains actual (apportion actual.sum weights caps) maxSkew t) := by
  have hfilled := apportion_filled hpos.le weights caps
  obtain ⟨hcaps, hexp, -, -⟩ := apportion_slots actual.sum weights caps
  generalize apportion actual.sum weights caps = ap at hfilled hexp ⊢
  have hslots := congrArg List.length hcaps
  have hlen : actual.length = ap.expected.length := by
    rw [hexp, List.length_map, hactual, ← hweights]
    simpa using hslots.symm
  have hne : domains ≠ [] := by
    rintro rfl
    rw [List.eq_nil_of_length_eq_zero hactual] at hpos
    exact hpos.false
  have hscored : Scored actual ap maxSkew t (score domains actual ap maxSkew t) :=
    score_scored hne hpos.ne' (hlen.symm.trans hactual)
  have htotal := hfilled.total
  rw [← hexp] at htotal
  have hleft : 0 ≤ ap.unplaceable := hfilled.short.elim Eq.ge fun h => h.1.le
  have hswap := surplus_swap hlen
  have hshort := surplus_nonneg ap.expected actual
  have hsurplus := surplus_nonneg actual ap.expected
  have hnonneg' : ∀ y ∈ ap.expected, 0 ≤ y := hexp ▸ List.forall_mem_map.mpr hfilled.nonneg
  refine ⟨?_, ?_, ?_, ?_, ?_⟩
  · rw [hscored.relocation]
    omega
  · obtain ⟨k, hk⟩ := Int.eq_ofNat_of_zero_le hsurplus
    obtain ⟨ms, hms, hcount, hend⟩ := exists_moves hnonneg' hlen hk (by omega)
    exact ⟨ms, hms, by rw [hcount, hscored.relocation, hk], hend⟩
  · intro ms hms hend
    rw [hscored.relocation]
    exact surplus_le_length hlen hms hend
  · intro hexcess
    rw [hscored.excessSkew] at hexcess
    rw [hscored.relocation]
    refine hsurplus.lt_of_ne fun hzero => ?_
    rw [eq_of_surplus hlen hzero.symm (by omega)] at hexcess
    exact absurd hexcess (not_lt.mpr (le_skewFloor _ maxSkew))
  · rw [hscored.drift]
    have hle := surplus_le_sum hnonneg hnonneg'
    have hq : (0 : ℚ) < actual.sum := by exact_mod_cast hpos
    exact ⟨div_nonneg (by exact_mod_cast hsurplus) hq.le, (div_le_one hq).mpr (by exact_mod_cast hle)⟩

/-- Ten objects over three domains that hold three each: four move, and one of them has
    nowhere to go. -/
theorem seven_of_ten_relocated :
    (score [bytes "a", bytes "b", bytes "c"] [7, 1, 2]
      (apportion 10 (List.replicate 3 (.finite 1)) (some [3, 3, 3])) none
        defaultThresholds).relocation = 4 ∧
    Distance [7, 1, 2] (apportion 10 (List.replicate 3 (.finite 1)) (some [3, 3, 3]))
      (score [bytes "a", bytes "b", bytes "c"] [7, 1, 2]
        (apportion 10 (List.replicate 3 (.finite 1)) (some [3, 3, 3])) none defaultThresholds) :=
  ⟨by decide +kernel, relocation_distance rfl rfl (by decide) (by decide) (some [3, 3, 3]) none
    defaultThresholds⟩

end Lookout.Leeway
