-- SUMMARY: Which evenly spread placements are reported as drifting, and why none is more even than the expectation.
import Lookout.Leeway.Score

/-!
# Evenly spread placements

With equal weights the expectation hands the objects that do not divide evenly to the
first domains. A placement that gives them to other domains is just as even. Against the
expectation it has one object to move for every late domain that holds one more.

In a levelled row no domain is more than one object above the level, and every domain
below it is full. Such a row has the least skew among the placements with its total that
respect the caps. A round of the pouring freezes domains at or below the level of the
others and can only raise that level, so the expectation is levelled.
-/

namespace Lookout.Leeway

/-! ## The expectation under equal weights -/

/-- The placement that gives one object more to the first `n % m` of `m` domains. -/
def frontLoaded (n : Int) (m : Nat) : List Int :=
  List.replicate (n % m).toNat (n / m + 1) ++ List.replicate (m - (n % m).toNat) (n / m)

variable {m : Nat} {n : Int}

theorem map_range_ite {r : Nat} (hr : r ≤ m) (x y : Int) :
    ((List.range m).map fun (i : Nat) => if (i : Int) < r then x else y) =
      List.replicate r x ++ List.replicate (m - r) y := by
  refine List.ext_getElem (by simp; omega) fun i hi hi' => ?_
  simp only [List.getElem_map, List.getElem_range, List.getElem_append, List.length_replicate,
    List.getElem_replicate, Nat.cast_lt]
  split <;> rfl

theorem quotas_replicate {w : ℚ} (hw : 0 ≤ w) (hm : 0 < m) :
    quotas n (List.replicate m w) = List.replicate m ((n : ℚ) / m) := by
  rcases hw.eq_or_lt with rfl | hpos
  · rw [quotas_of_zero n (by simp), List.length_replicate]
  · have hsum : 0 < (List.replicate m w).sum := by
      rw [List.sum_replicate, nsmul_eq_mul]
      positivity
    rw [quotas_of_pos n hsum, List.map_replicate, List.sum_replicate, nsmul_eq_mul,
      mul_div_mul_right _ _ hpos.ne']

theorem hamilton_replicate {w : ℚ} (hw : 0 ≤ w) (hn : 0 ≤ n) (hm : 0 < m) :
    hamilton n (List.replicate m w) = frontLoaded n m := by
  rw [hamilton, List.length_replicate]
  split
  next hle =>
    obtain rfl : n = 0 := by omega
    simp [frontLoaded]
  next hlt =>
    have hm' : (m : ℚ) ≠ 0 := by exact_mod_cast hm.ne'
    have hfloor : ⌊(n : ℚ) / m⌋ = n / m := Rat.floor_intCast_div_natCast n m
    have hmod : n - m * (n / m) = ((n % m).toNat : Int) := by
      have h₁ := Int.emod_def n m
      have h₂ := Int.emod_nonneg n (by omega : (m : Int) ≠ 0)
      omega
    have hr : (n % m).toNat ≤ m := by
      have h₁ := Int.emod_lt_of_pos n (by omega : (0 : Int) < m)
      omega
    rw [quotas_replicate hw hm, LargestRemainder.shares_replicate (mul_div_cancel₀ (n : ℚ) hm'),
      hfloor, hmod]
    exact map_range_ite hr _ _

theorem expected_equalWeights (hn : 0 ≤ n) (hm : 0 < m) :
    (apportion n (equalWeights m) none).expected = frontLoaded n m := by
  rw [apportion_uncapped hn, sanitiseWeights, equalWeights, List.map_replicate]
  exact hamilton_replicate zero_le_one hn hm

theorem frontLoaded_length (hm : 0 < m) : (frontLoaded n m).length = m := by
  have h := Int.emod_lt_of_pos n (by omega : (0 : Int) < m)
  rw [frontLoaded, List.length_append, List.length_replicate, List.length_replicate]
  omega

theorem frontLoaded_sum (hm : 0 < m) : (frontLoaded n m).sum = n := by
  have h₁ := Int.emod_nonneg n (by omega : (m : Int) ≠ 0)
  have h₂ := Int.emod_lt_of_pos n (by omega : (0 : Int) < m)
  have h₃ := Int.emod_add_mul_ediv n m
  have hr : ((n % m).toNat : Int) = n % m := by omega
  have hm' : ((m - (n % m).toNat : Nat) : Int) = m - n % m := by omega
  have hsplit : n % m * (n / m + 1) + (m - n % m) * (n / m) = n % m + m * (n / m) := by ring
  rw [frontLoaded, List.sum_append, List.sum_replicate, List.sum_replicate, nsmul_eq_mul,
    nsmul_eq_mul, hr, hm', hsplit]
  exact h₃

theorem mem_frontLoaded {x : Int} (hx : x ∈ frontLoaded n m) :
    x = n / m ∨ x = n / m + 1 ∧ ¬(m : Int) ∣ n := by
  rcases List.mem_append.mp hx with hx | hx
  · obtain ⟨hpos, rfl⟩ := List.mem_replicate.mp hx
    refine Or.inr ⟨rfl, fun hdvd => hpos ?_⟩
    rw [Int.emod_eq_zero_of_dvd hdvd]
    rfl
  · exact Or.inl (List.eq_of_mem_replicate hx)

/-- The expectation is as even as it can be. -/
theorem frontLoaded_skew (hm : 0 < m) :
    skew (frontLoaded n m) = if (m : Int) ∣ n then 0 else 1 := by
  have hne : frontLoaded n m ≠ [] := List.ne_nil_of_length_pos (by rw [frontLoaded_length hm]; exact hm)
  have hfloor := arithmetic_floor hne
  rw [frontLoaded_length hm, frontLoaded_sum hm] at hfloor
  refine le_antisymm ?_ hfloor
  have hmax := mem_frontLoaded (maxOf_mem hne)
  have hmin := mem_frontLoaded (minOf_mem hne)
  rw [skew]
  split
  next hdvd =>
    rcases hmax with h | ⟨-, h⟩
    · rcases hmin with h' | ⟨-, h'⟩
      · omega
      · exact absurd hdvd h'
    · exact absurd hdvd h
  next hdvd => omega

/-! ## Even placements against the expectation -/

/-- The late domains, past the first `n % m`, that hold one object more. -/
def lateExtras (actual : List Int) : Int :=
  let m := actual.length
  let n := actual.sum
  ((actual.drop (n % m).toNat).countP fun a => n / m < a : Nat)

/-- As even as the number of domains allows. -/
def EvenSpread (actual : List Int) : Prop :=
  skew actual ≤ if (actual.length : Int) ∣ actual.sum then 0 else 1

instance (actual : List Int) : Decidable (EvenSpread actual) :=
  inferInstanceAs (Decidable (skew actual ≤ if (actual.length : Int) ∣ actual.sum then 0 else 1))

variable {actual l : List Int}

/-- An even placement holds the whole quotient, or one object more, in every domain. -/
theorem EvenSpread.entries (h : EvenSpread actual) {a : Int} (ha : a ∈ actual) :
    a = actual.sum / actual.length ∨ a = actual.sum / actual.length + 1 := by
  have hne : actual ≠ [] := List.ne_nil_of_mem ha
  have hm : (0 : Int) < actual.length := by
    have := List.length_pos_of_ne_nil hne
    omega
  have hle : skew actual ≤ 1 := h.trans (by split <;> omega)
  rw [skew] at hle
  have hmin := minOf_le ha
  have hmax := le_maxOf ha
  -- The emptiest domain holds the quotient: the total lies below one more in each.
  have hlow := mul_minOf_le_sum actual
  have hhigh : actual.sum < actual.length * (minOf actual + 1) := by
    have hcount : (actual.map fun _ => minOf actual + 1).sum = actual.length * (minOf actual + 1) := by
      simp
    rw [← hcount]
    conv_lhs => rw [← List.map_id actual]
    refine List.sum_lt_sum _ _ (fun x hx => ?_) ⟨minOf actual, minOf_mem hne, by simp⟩
    have := le_maxOf hx
    simp only [id]
    omega
  have hq : actual.sum / actual.length = minOf actual := by
    refine le_antisymm (Int.lt_add_one_iff.mp (Int.ediv_lt_of_lt_mul hm ?_))
      (Int.le_ediv_of_mul_le hm ?_)
    · rwa [mul_comm]
    · rwa [mul_comm]
  omega

theorem surplus_replicate (x : Int) {k : Nat} (hk : l.length = k) :
    surplus l (List.replicate k x) = (l.map fun a => max 0 (a - x)).sum := by
  subst hk
  rw [surplus]
  congr 1
  induction l with
  | nil => rfl
  | cons a l ih => rw [List.length_cons, List.replicate_succ, List.zipWith_cons_cons, ih, List.map_cons]

theorem surplus_append {a b c d : List Int} (h : a.length = c.length) :
    surplus (a ++ b) (c ++ d) = surplus a c + surplus b d := by
  rw [surplus, List.zipWith_append h, List.sum_append]
  rfl

theorem sum_excess {q : Int} (h : ∀ a ∈ l, a = q ∨ a = q + 1) :
    (l.map fun a => max 0 (a - q)).sum = l.countP fun a => q < a := by
  induction l with
  | nil => rfl
  | cons a l ih =>
    obtain ⟨ha, hl⟩ := List.forall_mem_cons.mp h
    rw [List.map_cons, List.sum_cons, ih hl, List.countP_cons]
    rcases ha with rfl | rfl
    · simp
    · simp
      omega

/-- Only the late domains that hold one more count as misplaced. -/
theorem EvenSpread.surplus_eq (h : EvenSpread actual) (hne : actual ≠ []) :
    surplus actual (frontLoaded actual.sum actual.length) = lateExtras actual := by
  set n := actual.sum
  set m := actual.length
  have hpos : 0 < m := List.length_pos_of_ne_nil hne
  have hlt := Int.emod_lt_of_pos n (by omega : (0 : Int) < m)
  set r := (n % m).toNat
  have hrm : r ≤ m := by omega
  have htake : (actual.take r).length = r := by
    rw [List.length_take]
    omega
  have hdrop : (actual.drop r).length = m - r := List.length_drop
  have hentries : ∀ a ∈ actual, a = n / m ∨ a = n / m + 1 := fun a ha => h.entries ha
  have hearly : surplus (actual.take r) (List.replicate r (n / m + 1)) = 0 := by
    rw [surplus_replicate _ htake]
    refine List.sum_eq_zero fun x hx => ?_
    obtain ⟨a, ha, rfl⟩ := List.mem_map.mp hx
    have := hentries a (List.mem_of_mem_take ha)
    omega
  have hlate : surplus (actual.drop r) (List.replicate (m - r) (n / m)) =
      (actual.drop r).countP fun a => n / m < a := by
    rw [surplus_replicate _ hdrop]
    exact sum_excess fun a ha => hentries a (List.mem_of_mem_drop ha)
  calc surplus actual (frontLoaded n m)
      = surplus (actual.take r ++ actual.drop r)
          (List.replicate r (n / m + 1) ++ List.replicate (m - r) (n / m)) := by
        rw [List.take_append_drop]
        rfl
    _ = 0 + (actual.drop r).countP fun a => n / m < a := by
        rw [surplus_append (by rw [htake, List.length_replicate]), hearly, hlate]
    _ = lateExtras actual := by
        rw [zero_add]
        rfl

/-! ## The verdict on an even placement -/

/-- The scores of a placement against equal shares of its own total. -/
def evenScore (domains : List Domain) (actual : List Int) (intent : Option Intent) : Scores :=
  score domains actual (apportion actual.sum (equalWeights domains.length) none)
    (intent.bind (·.maxSkew)) defaultThresholds

/-- The intent is absent, or a spread intent without a learned band and without a ceiling. -/
def PlainSpread (intent : Option Intent) : Prop :=
  ∀ i ∈ intent, i.mode = .spread ∧ i.bands = ∅ ∧ i.maxPerDomain = none

section

variable {domains : List Domain} {actual : List Int} {intent : Option Intent}

/-- An even placement is within every skew bound, and the objects to move are those in
    late domains. -/
theorem evenScore_spec (intent : Option Intent) (hm : domains ≠ []) (hlen : actual.length = domains.length)
    (hnn : ∀ a ∈ actual, 0 ≤ a) (heven : EvenSpread actual) (hsum : actual.sum ≠ 0) :
    let s := evenScore domains actual intent
    s.total = actual.sum ∧ s.relocation = lateExtras actual ∧
      s.drift = (lateExtras actual : ℚ) / actual.sum ∧ ¬0 < s.excessSkew ∧
      (s.evaluable = true ↔ 3 ≤ actual.sum) := by
  have hpos : 0 < domains.length := List.length_pos_of_ne_nil hm
  have hne : actual ≠ [] := List.ne_nil_of_length_pos (hlen ▸ hpos)
  have hexp := expected_equalWeights (List.sum_nonneg hnn) hpos
  unfold evenScore
  generalize apportion actual.sum (equalWeights domains.length) none = ap at hexp ⊢
  have hscored : Scored actual ap (intent.bind (·.maxSkew)) defaultThresholds
      (score domains actual ap (intent.bind (·.maxSkew)) defaultThresholds) :=
    score_scored hm hsum (by rw [hexp, frontLoaded_length hpos])
  have hrel : surplus actual (frontLoaded actual.sum domains.length) = lateExtras actual := by
    rw [← hlen]
    exact heven.surplus_eq hne
  have hskew : skew actual ≤ skew (frontLoaded actual.sum domains.length) := by
    rw [frontLoaded_skew hpos, ← hlen]
    exact heven
  refine ⟨hscored.total, ?_, ?_, ?_, hscored.evaluable⟩
  · rw [hscored.relocation, hexp, hrel]
  · rw [hscored.drift, hexp, hrel]
  · rw [hscored.excessSkew, hexp, not_lt]
    exact hskew.trans (le_skewFloor _ _)

/-- An even placement is silent exactly when a hard bound covers it, there are too few
    objects to score, or few enough of them sit in late domains. -/
theorem even_placement_silent_iff (hm : domains ≠ []) (hlen : actual.length = domains.length)
    (hnn : ∀ a ∈ actual, 0 ≤ a) (heven : EvenSpread actual) (hintent : PlainSpread intent) :
    ((evenScore domains actual intent).judge intent defaultThresholds).breached = false ↔
      intent.any (·.hardSkewContract) = true ∨ actual.sum < 3 ∨
        (lateExtras actual : ℚ) / actual.sum ≤ defaultThresholds.drift ∨
        actual.sum < 10 ∧ lateExtras actual < 2 := by
  set s := evenScore domains actual intent with hs
  rw [Scores.judge_breached, decide_eq_false_iff_not, not_not]
  have hmode : intent.any (·.mode = .ignore) = false := by
    cases intent with
    | none => rfl
    | some i => simp [(hintent i rfl).1]
  rw [Scores.breach.eq_def, if_neg (by simp [hmode])]
  by_cases heval : s.evaluable = true
  · have hsum : actual.sum ≠ 0 := by
      intro hzero
      rw [hs, evenScore, score_empty hzero] at heval
      cases heval
    obtain ⟨htotal, hrel, hdrift, hexcess, hthree⟩ :=
      evenScore_spec intent hm hlen hnn heven hsum
    have hthree' : ¬actual.sum < 3 := not_lt.mpr (hthree.mp heval)
    rw [if_neg (by simp [heval])]
    -- Both intents that are left end in the drift rule.
    have hrule : (s.breachDrift defaultThresholds).1 = .none ↔
        (lateExtras actual : ℚ) / actual.sum ≤ defaultThresholds.drift ∨
          actual.sum < 10 ∧ lateExtras actual < 2 := by
      rw [Scores.breachDrift, hdrift, htotal, hrel]
      have hsmall : (decide (actual.sum < defaultThresholds.smallNThreshold) &&
          decide (lateExtras actual < defaultThresholds.minRelocationSmallN)) = true ↔
          actual.sum < 10 ∧ lateExtras actual < 2 := by simp [defaultThresholds]
      split
      next h => exact iff_of_true rfl (Or.inl h)
      next h =>
        split
        next h' => exact iff_of_true rfl (Or.inr (hsmall.mp h'))
        next h' =>
          refine iff_of_false (by simp) ?_
          rintro (hle | hfew)
          · exact h hle
          · exact h' (hsmall.mpr hfew)
    cases intent with
    | none => simpa [hthree'] using hrule
    | some i =>
      obtain ⟨hspread, hbands, hceil⟩ := hintent i rfl
      have hper : i.hardPerDomainContract = false := by
        rw [Intent.hardPerDomainContract, hceil]
        simp
      simp only [hper, Bool.false_and, Bool.false_eq_true, if_false, hthree']
      by_cases hhard : i.hardSkewContract = true
      · rw [if_pos hhard, if_neg hexcess]
        simp [hhard]
      · rw [if_neg hhard, if_neg (by simp [hspread]), if_neg (by simp [hbands]), hrule]
        simp [hhard]
  · have hthree : actual.sum < 3 := by
      by_contra hge
      have hsum : actual.sum ≠ 0 := by omega
      obtain ⟨-, -, -, -, hthree⟩ := evenScore_spec intent hm hlen hnn heven hsum
      exact heval (hthree.mpr (by omega))
    rw [if_pos (by simpa using heval)]
    simp [hthree]

end

namespace EvenSample

def zones : List Domain := [bytes "a", bytes "b", bytes "c", bytes "d"]

end EvenSample

open EvenSample in
/-- Seven objects over four zones, the emptier zone first: one object sits late. -/
theorem seven_over_four_silent :
    EvenSpread [1, 2, 2, 2] ∧
      ((evenScore zones [1, 2, 2, 2] none).judge none defaultThresholds).breached = false :=
  ⟨by decide, (even_placement_silent_iff (by decide) rfl (by decide) (by decide)
    (fun _ h => by cases h)).mpr (by decide +kernel)⟩

open EvenSample in
/-- Six objects over four zones, two in each of the last two: as even as can be, and
    reported as drifting. -/
theorem six_over_four_drifts :
    EvenSpread [1, 1, 2, 2] ∧
      ((evenScore zones [1, 1, 2, 2] none).judge none defaultThresholds).kind = .drift :=
  ⟨by decide, by decide +kernel⟩

/-! ## Levelled rows -/

structure Levelled (level : Int) (slots : List Slot) : Prop where
  above : ∀ s ∈ slots, s.expected ≤ level + 1
  full : ∀ s ∈ slots, s.expected < level → 0 ≤ s.cap ∧ s.expected = s.cap
  low : slots ≠ [] → ∃ s ∈ slots, s.expected ≤ level

variable {slots : List Slot} {n budget level : Int} {w : ℚ}

/-- No placement of the same objects within the caps is more even than a levelled one. -/
theorem Levelled.skew_le (h : Levelled level slots) {x : List Int}
    (hx : List.Forall₂ (fun s a => 0 ≤ s.cap → a ≤ s.cap) slots x)
    (hsum : x.sum = (slots.map (·.expected)).sum) : skew (slots.map (·.expected)) ≤ skew x := by
  obtain ⟨hlen, hcap⟩ := List.forall₂_iff_zip.mp hx
  have hx' : (slots.zip x).map Prod.snd = x := List.map_snd_zip hlen.ge
  have hslots : (slots.zip x).map Prod.fst = slots := List.map_fst_zip hlen.le
  have hexp : slots.map (·.expected) = (slots.zip x).map (·.1.expected) := by
    conv_lhs => rw [← hslots, List.map_map]
    rfl
  have hat : ∀ e ∈ slots.map (·.expected), ∃ p ∈ slots.zip x, p.1.expected = e := by
    intro e he
    rw [hexp] at he
    exact List.mem_map.mp he
  have hmem : ∀ p ∈ slots.zip x, p.1 ∈ slots ∧ p.2 ∈ x := fun p hp => List.of_mem_zip hp
  rcases eq_or_ne slots [] with rfl | hne
  · obtain rfl := List.length_eq_zero_iff.mp hlen.symm
    exact le_rfl
  have hne' : slots.map (·.expected) ≠ [] := by simpa using hne
  -- A placement with a lower maximum has nowhere more than the row, and somewhere less.
  have hmax : maxOf (slots.map (·.expected)) ≤ maxOf x := by
    by_contra hlt
    obtain ⟨p, hp, hpmax⟩ := hat _ (maxOf_mem hne')
    have hless : ((slots.zip x).map Prod.snd).sum < ((slots.zip x).map (·.1.expected)).sum := by
      refine List.sum_lt_sum _ _ (fun q hq => ?_) ⟨p, hp, ?_⟩
      · have h₁ := le_maxOf (hmem q hq).2
        have h₂ := h.above p.1 (hmem p hp).1
        have h₃ := h.full q.1 (hmem q hq).1
        have h₄ := hcap hq
        by_cases hq' : q.1.expected < level <;> omega
      · have h₁ := le_maxOf (hmem p hp).2
        omega
    rw [hx', ← hexp] at hless
    omega
  -- One with a higher minimum has more where the row has least.
  have hmin : minOf x ≤ minOf (slots.map (·.expected)) := by
    by_contra hlt
    obtain ⟨p, hp, hpmin⟩ := hat _ (minOf_mem hne')
    have hp' := minOf_le (hmem p hp).2
    obtain ⟨s, hs, hslow⟩ := h.low hne
    have hlow := minOf_le (List.mem_map_of_mem (f := (·.expected)) hs)
    have h₃ := h.full p.1 (hmem p hp).1
    have h₄ := hcap hp
    have hmore : ((slots.zip x).map (·.1.expected)).sum < ((slots.zip x).map Prod.snd).sum := by
      refine List.sum_lt_sum _ _ (fun q hq => ?_) ⟨p, hp, by omega⟩
      have h₁ := minOf_le (hmem q hq).2
      have h₂ := h.above q.1 (hmem q hq).1
      omega
    rw [hx', ← hexp] at hmore
    omega
  rw [skew, skew]
  omega

/-! ## The level of a row while it is poured -/

/-- All domains weigh the same, and the frozen ones hold no more than an equal share of the
    budget. -/
structure EvenPour (w : ℚ) (slots : List Slot) (budget : Int) : Prop where
  equal : ∀ s ∈ slots, s.weight = w
  below : ∀ s ∈ slots, s.active = false → s.cap * (absorbing slots).length ≤ budget

theorem EvenPour.wants_eq (h : EvenPour w slots budget) (hp : Pouring n slots budget)
    (hne : absorbing slots ≠ []) :
    wants slots budget = frontLoaded budget (absorbing slots).length := by
  have hweights : (absorbing slots).map (·.weight) = List.replicate (absorbing slots).length w :=
    List.map_eq_replicate_iff.mpr fun s hs => h.equal s (List.mem_of_mem_filter hs)
  obtain ⟨s, hs⟩ := List.exists_mem_of_ne_nil _ hne
  have hw : 0 ≤ w := h.equal s (List.mem_of_mem_filter hs) ▸ hp.weights s (List.mem_of_mem_filter hs)
  rw [wants, hweights, hamilton_replicate hw hp.left.le (List.length_pos_of_ne_nil hne)]

theorem taken_add_le {ps : List (Slot × Int)}
    (h : ∀ p ∈ ps, p.1.clamps p.2 = true → p.1.cap ≤ level) :
    (ps.map Slot.taken).sum + level * (ps.filter fun p => ! p.1.clamps p.2).length ≤
      level * ps.length := by
  induction ps with
  | nil => simp
  | cons p ps ih =>
    obtain ⟨hp, hps⟩ := List.forall_mem_cons.mp h
    have ih := ih hps
    cases hc : p.1.clamps p.2 with
    | false =>
      simp [Slot.taken, hc, mul_add]
      omega
    | true =>
      have := hp hc
      simp [Slot.taken, hc, mul_add]
      omega

section

variable (h : EvenPour w slots budget) (hp : Pouring n slots budget)

include h hp

/-- Freezing domains below the level leaves at least the level for each of the others. -/
theorem EvenPour.settle (hne : absorbing slots ≠ []) :
    EvenPour w (visit Slot.settle slots (wants slots budget))
      (budget - ((pairs slots budget).map Slot.taken).sum) := by
  have hlen := wants_length slots budget
  have hpos : (0 : Int) < (absorbing slots).length := by
    exact_mod_cast List.length_pos_of_ne_nil hne
  have hclamped : ∀ p ∈ pairs slots budget, p.1.clamps p.2 = true →
      p.1.cap ≤ budget / (absorbing slots).length := by
    intro p hp' hc
    have hw := (mem_pairs hp').2.2
    rw [h.wants_eq hp hne] at hw
    have := mem_frontLoaded hw
    have := (Slot.clamps_iff.mp hc).2
    omega
  have hleft : budget / (absorbing slots).length *
      (absorbing (visit Slot.settle slots (wants slots budget))).length ≤
        budget - ((pairs slots budget).map Slot.taken).sum := by
    have hcount : (pairs slots budget).length = (absorbing slots).length := by
      rw [← pairs_map_fst slots budget, List.length_map]
    have htaken := taken_add_le hclamped
    have hshare := Int.ediv_mul_le budget hpos.ne'
    rw [hcount] at htaken
    rw [length_absorbing_settle hlen]
    exact Int.le_sub_left_of_add_le (htaken.trans hshare)
  have hlevel : ∀ s : Slot, s.cap ≤ budget / (absorbing slots).length →
      s.cap * (absorbing (visit Slot.settle slots (wants slots budget))).length ≤
        budget - ((pairs slots budget).map Slot.taken).sum :=
    fun s hs => (mul_le_mul_of_nonneg_right hs (Int.natCast_nonneg _)).trans hleft
  refine ⟨forall_visit hlen (fun s hs _ => h.equal s hs) fun p hp' => ?_,
    forall_visit hlen (fun s hs hi _ => ?_) fun p hp' hi => ?_⟩
  · rw [Slot.settle]
    split <;> exact h.equal p.1 (mem_pairs hp').1
  · exact hlevel s (Int.le_ediv_of_mul_le hpos (h.below s hs hi))
  · rw [Slot.settle] at hi ⊢
    split at hi
    next hc =>
      rw [if_pos hc]
      exact hlevel _ (hclamped p hp' hc)
    next => rw [(mem_pairs hp').2.1] at hi; cases hi

theorem EvenPour.accept (hne : absorbing slots ≠ []) :
    Levelled (budget / (absorbing slots).length) (visit Slot.accept slots (wants slots budget)) := by
  have hlen := wants_length slots budget
  have hpos : 0 < (absorbing slots).length := List.length_pos_of_ne_nil hne
  have hwants := h.wants_eq hp hne
  have hshare : ∀ p ∈ pairs slots budget, p.2 = budget / (absorbing slots).length ∨
      p.2 = budget / (absorbing slots).length + 1 ∧ ¬((absorbing slots).length : Int) ∣ budget :=
    fun p hp' => mem_frontLoaded (hwants ▸ (mem_pairs hp').2.2)
  refine ⟨forall_visit hlen (fun s hs hi => ?_) fun p hp' => ?_,
    forall_visit hlen (fun s hs hi _ => (hp.frozen s hs hi).symm) fun p hp' hlow => ?_, fun _ => ?_⟩
  · have := Int.le_ediv_of_mul_le (by exact_mod_cast hpos) (h.below s hs hi)
    rw [(hp.frozen s hs hi).1]
    omega
  · have := hshare p hp'
    simp only [Slot.accept]
    omega
  · have := hshare p hp'
    simp only [Slot.accept] at hlow
    omega
  · -- The last domain visited gets no object on top of the level.
    have hlast : budget / (absorbing slots).length ∈ wants slots budget := by
      have := Int.emod_lt_of_pos budget (by exact_mod_cast hpos : (0 : Int) < (absorbing slots).length)
      rw [hwants, frontLoaded, List.mem_append, List.mem_replicate, List.mem_replicate]
      exact Or.inr ⟨by omega, rfl⟩
    rw [← pairs_map_snd slots budget] at hlast
    obtain ⟨p, hp', heq⟩ := List.mem_map.mp hlast
    exact ⟨_, (mem_visit hlen).mpr (Or.inr ⟨p, hp', rfl⟩), heq.le⟩

theorem EvenPour.pour_levelled : ∃ level, Levelled level (pour slots budget).1 := by
  fun_induction pour slots budget with
  | case1 slots budget hempty =>
    have hinactive : ∀ s ∈ slots, s.active = false := fun s hs => by
      simpa using List.filter_eq_nil_iff.mp (List.isEmpty_iff.mp hempty) s hs
    have hle : ∀ s ∈ slots, s.expected ≤ maxOf (slots.map (·.expected)) :=
      fun s hs => le_maxOf (List.mem_map_of_mem hs)
    refine ⟨maxOf (slots.map (·.expected)), fun s hs => (hle s hs).trans (Int.le_add_one le_rfl),
      fun s hs _ => (hp.frozen s hs (hinactive s hs)).symm, fun hne => ?_⟩
    obtain ⟨s, hs⟩ := List.exists_mem_of_ne_nil _ hne
    exact ⟨s, hs, hle s hs⟩
  | case2 slots budget hempty share hany ih =>
    exact ih (h.settle hp fun hnil => hempty (List.isEmpty_iff.mpr hnil)) (hp.settle hany)
  | case3 slots budget hempty share hany =>
    exact ⟨_, h.accept hp fun hnil => hempty (List.isEmpty_iff.mpr hnil)⟩

end

/-- The row behind an apportionment with equal weights is levelled. -/
theorem filledSlots_levelled (n : Int) (m : Nat) (w : Weight) (caps : Option (List Int)) :
    ∃ level, Levelled level (filledSlots n (List.replicate m w) caps) := by
  rw [filledSlots]
  split
  · refine ⟨0, fun s hs => ?_, fun s hs hlow => ?_, fun hne => ?_⟩
    · rw [(slotsOf_fresh hs).2.2]
      decide
    · rw [(slotsOf_fresh hs).2.2] at hlow
      cases hlow
    · obtain ⟨s, hs⟩ := List.exists_mem_of_ne_nil _ hne
      exact ⟨s, hs, (slotsOf_fresh hs).2.2.le⟩
  next hrun =>
    have hpour := slotsOf_pouring (by omega : 0 < n) (List.replicate m w) caps
    refine EvenPour.pour_levelled (w := w.sanitise) ⟨fun s hs => ?_, fun s hs hi => ?_⟩ hpour
    · have hmem : s.weight ∈ sanitiseWeights (List.replicate m w) := by
        rw [← slotsOf_map_weight _ caps]
        exact List.mem_map_of_mem hs
      rw [sanitiseWeights, List.map_replicate] at hmem
      exact List.eq_of_mem_replicate hmem
    · rw [(slotsOf_fresh hs).1] at hi
      cases hi

/-- With equal weights the expectation is optimal: among the placements of the same total
    that respect the caps none has less skew, so the least achievable skew that a score
    reports is a lower bound for all of them. -/
theorem capped_expectation_optimal (n : Int) (m : Nat) (w : Weight) (caps : Option (List Int))
    (x : List Int) (hlen : x.length = m)
    (hcap : ∀ (i : Nat) (a : Int), x[i]? = some a → 0 ≤ capAt caps i → a ≤ capAt caps i)
    (hsum : x.sum = (apportion n (List.replicate m w) caps).placed) :
    skew (apportion n (List.replicate m w) caps).expected ≤ skew x ∧
      ∀ (domains : List Domain) (actual : List Int) (maxSkew : Option Int) (t : Thresholds),
        (score domains actual (apportion n (List.replicate m w) caps) maxSkew t).minAchievableSkew
          ≤ skew x := by
  obtain ⟨hcaps, hexp, -, hplaced⟩ := apportion_slots n (List.replicate m w) caps
  obtain ⟨level, hlevel⟩ := filledSlots_levelled n m w caps
  have hcount : (filledSlots n (List.replicate m w) caps).length = m := by
    simpa using congrArg List.length hcaps
  have hwithin : List.Forall₂ (fun s a => 0 ≤ s.cap → a ≤ s.cap)
      (filledSlots n (List.replicate m w) caps) x := by
    refine List.forall₂_iff_get.mpr ⟨hcount.trans hlen.symm, fun i hi hi' => ?_⟩
    have hat : (filledSlots n (List.replicate m w) caps)[i].cap = capAt caps i := by
      have := congrArg (·[i]?) hcaps
      simpa [hi, hcount ▸ hi] using this
    rw [List.get_eq_getElem, hat]
    exact hcap i _ (List.getElem?_eq_getElem hi')
  have hskew := hlevel.skew_le hwithin (hsum.trans hplaced)
  rw [← hexp] at hskew
  have hnonneg : 0 ≤ skew x := by
    rcases eq_or_ne x [] with rfl | hne
    · exact le_rfl
    · exact skew_nonneg hne
  refine ⟨hskew, fun domains actual maxSkew t => ?_⟩
  rw [score]
  split
  · exact hnonneg
  · dsimp only
    split
    · exact hnonneg
    · dsimp only
      split
      · exact hskew
      · exact hnonneg

/-- Ten objects over three domains of which the first holds at most two. -/
theorem ten_over_capped_zone_optimal :
    (apportion 10 (List.replicate 3 (.finite 1)) (some [2, -1, -1])).expected = [2, 4, 4] ∧
      skew (apportion 10 (List.replicate 3 (.finite 1)) (some [2, -1, -1])).expected ≤
        skew [2, 3, 5] :=
  ⟨by decide +kernel, (capped_expectation_optimal 10 3 (.finite 1) (some [2, -1, -1]) [2, 3, 5] rfl
    (by
      intro i a ha hcap
      match i with
      | 0 => cases ha; decide
      | 1 | 2 => exact absurd hcap (by decide)
      | i + 3 => cases ha) (by decide +kernel)).1⟩

end Lookout.Leeway
