-- SUMMARY: Scoring one subject on one topology key, and when a declared skew bound is enforced.
import Lookout.Leeway.BestSpread
import Mathlib.Data.Fintype.EquivFin

/-!
# One subject on one key

`scoreAxis` counts a subject's running objects, apportions as many over the eligible
domains by the intent's weights, and judges the difference. A placement is held against a
declared skew bound only beyond the skew of that apportionment. Weights that are uneven
by declaration therefore raise the bound: on some cluster no placement of the objects is
reported.
-/

namespace Lookout.TopologyDrift

open Leeway

structure Evaluation where
  key : TopologyKey
  intent : Option Intent
  eligible : Eligibility
  apportionment : Apportionment
  scores : Scores
  suppression : Suppression
  verdict : Verdict

/-- The per-domain caps an intent declares, none when it declares no ceiling at all. -/
def capsFor (intent : Option Intent) (eligible : Eligibility) : Option (List Int) :=
  match intent with
  | none => none
  | some i =>
    if i.maxPerDomain.isNone ∧ i.domainCaps = ∅ then none
    else some (eligible.domains.map fun d => (i.domainCaps.lookup d).getD (i.maxPerDomain.getD uncapped))

/-- The running objects over the eligible domains, without an empty unknown bucket. -/
def counted (eligible : Eligibility) (dist : Option Distribution) : Eligibility × List Int :=
  let actual := match dist with
    | some d => d.counts eligible.domains .running
    | none => List.replicate eligible.domains.length 0
  eligible.dropEmptyUnknown actual

def scoreAxis (key : TopologyKey) (intent : Option Intent) (eligible : Eligibility)
    (dist : Option Distribution) (t : Thresholds) (sup : Suppression) : Evaluation :=
  let (eligible, actual) := counted eligible dist
  let n := actual.sum
  let apportionment := apportion n (eligible.weightsFor intent) (capsFor intent eligible)
  let scores := score eligible.domains actual apportionment (intent.bind (·.maxSkew)) t
  { key, intent, eligible, suppression := sup, apportionment, scores
    verdict := scores.judgeTransient intent t sup }

theorem counted_aligned (eligible : Eligibility) (dist : Option Distribution) :
    (counted eligible dist).2.length = (counted eligible dist).1.domains.length := by
  refine eligible.dropEmptyUnknown_aligned ?_
  split
  · exact List.length_map _
  · exact List.length_replicate

/-! ## The declared skew bound -/

/-- The skew no placement of this many objects can avoid. -/
def arithmeticFloor (actual : List Int) : Int :=
  if (actual.length : Int) ∣ actual.sum then 0 else 1

/-- The skew of the distribution that the intent's weights ask for. -/
def intendedSkew (intent : Intent) (eligible : Eligibility) (dist : Option Distribution) : Int :=
  let (eligible, actual) := counted eligible dist
  skew (apportion actual.sum (eligible.weightsFor (some intent)) none).expected

/-- The placement's skew exceeds the declared bound and what arithmetic imposes. -/
def OverBound (intent : Intent) (actual : List Int) : Prop :=
  max (intent.maxSkew.getD 0) (arithmeticFloor actual) < skew actual

instance (intent : Intent) (actual : List Int) : Decidable (OverBound intent actual) :=
  inferInstanceAs (Decidable (_ < _))

section

variable {key : TopologyKey} {i : Intent} {eligible : Eligibility} {dist : Option Distribution}
  {t : Thresholds} {sup : Suppression}

theorem judgeTransient_kind (s : Scores) (intent : Option Intent)
    (hsup : sup.suppress = false) :
    (s.judgeTransient intent t sup).kind =
      (s.breach intent (if sup.relax then t.relaxed sup.multiplier else t)).1 := by
  rw [Scores.judgeTransient, if_neg (by simp [hsup]), ← Scores.judge_kind]

/-- Of an evaluated subject with a hard skew bound and no ceiling, only the excess skew is
    judged. -/
theorem breach_of_hardSkew {s : Scores} (hhard : i.hardSkewContract = true)
    (hceil : i.maxPerDomain = none) (hmode : i.mode ≠ .ignore) (heval : s.evaluable = true) :
    (s.breach (some i) t).1 = .maxSkew ↔ 0 < s.excessSkew := by
  have hper : i.hardPerDomainContract = false := by
    rw [Intent.hardPerDomainContract, hceil]
    simp
  simp only [Scores.breach, Option.any_some, hmode, decide_false, Bool.false_eq_true, if_false,
    heval, Bool.not_true, hper, Bool.false_and, hhard, if_true]
  split <;> simp_all

/-- An evaluated subject has domains and objects. -/
theorem inhabited_of_evaluable
    (heval : (scoreAxis key (some i) eligible dist t sup).scores.evaluable = true) :
    (counted eligible dist).1.domains ≠ [] ∧ (counted eligible dist).2.sum ≠ 0 := by
  constructor
  · intro hnil
    have hgate : (scoreAxis key (some i) eligible dist t sup).scores.evaluable = false := by
      simp only [scoreAxis, score, hnil, List.length_nil, if_true]
    rw [hgate] at heval
    cases heval
  · intro hzero
    rw [scoreAxis, score_empty hzero] at heval
    cases heval

section

variable (hceil : i.maxPerDomain = none) (hcaps : i.domainCaps = ∅)
  (hcounts : ∀ a ∈ (counted eligible dist).2, 0 ≤ a)
  (hm : (counted eligible dist).1.domains ≠ []) (hsum : (counted eligible dist).2.sum ≠ 0)

include hceil hcaps hcounts hm hsum

/-- Without caps, the scores compare with the apportionment by the intent's weights. -/
theorem scoreAxis_scored : Scored (counted eligible dist).2
    (apportion (counted eligible dist).2.sum ((counted eligible dist).1.weightsFor (some i)) none)
    i.maxSkew t (scoreAxis key (some i) eligible dist t sup).scores := by
  have hnocaps : capsFor (some i) (counted eligible dist).1 = none := by
    simp only [capsFor, hceil, hcaps]
    rfl
  have hscores : (scoreAxis key (some i) eligible dist t sup).scores =
      score (counted eligible dist).1.domains (counted eligible dist).2
        (apportion (counted eligible dist).2.sum ((counted eligible dist).1.weightsFor (some i)) none)
        i.maxSkew t := by
    simp only [scoreAxis, hnocaps]
    rfl
  rw [hscores]
  refine score_scored hm hsum ?_
  rw [apportion_uncapped (List.sum_nonneg hcounts), hamilton_length, sanitiseWeights,
    List.length_map, Eligibility.weightsFor_length]

/-- The floor of the bound is the skew that the weights ask for. -/
theorem kind_maxSkew_iff (hhard : i.hardSkewContract = true) (hmode : i.mode ≠ .ignore)
    (hsup : sup.suppress = false)
    (heval : (scoreAxis key (some i) eligible dist t sup).scores.evaluable = true) :
    (scoreAxis key (some i) eligible dist t sup).verdict.kind = .maxSkew ↔
      skewFloor (intendedSkew i eligible dist) i.maxSkew < skew (counted eligible dist).2 := by
  have hverdict : (scoreAxis key (some i) eligible dist t sup).verdict =
      (scoreAxis key (some i) eligible dist t sup).scores.judgeTransient (some i) t sup := rfl
  rw [hverdict, judgeTransient_kind _ _ hsup, breach_of_hardSkew hhard hceil hmode heval,
    (scoreAxis_scored hceil hcaps hcounts hm hsum).excessSkew]
  rfl

end

/-! ## Even weights -/

/-- The intent asks for no uneven distribution. It declares no shares, and its weighting is
    undeclared or equal, or it declares shares none of which is positive. -/
def EvenWeights (i : Intent) : Prop :=
  (i.explicitShares = ∅ → i.weighting = .auto ∨ i.weighting = .equal) ∧
    ∀ d q, i.explicitShares.lookup d = some (.finite q) → q ≤ 0

theorem sanitise_eq_zero {w : Weight} (h : ∀ q, w = .finite q → q ≤ 0) : w.sanitise = 0 := by
  cases w with
  | finite q =>
    rw [Weight.sanitise]
    split
    · rfl
    next hq => exact le_antisymm (h q rfl) (not_lt.mp hq)
  | nan | inf => rfl

/-- Even weights are one weight for all domains. -/
theorem EvenWeights.weightsFor (h : EvenWeights i) (hskew : i.maxSkew.isSome) (e : Eligibility) :
    ∃ q, 0 ≤ q ∧ sanitiseWeights (e.weightsFor (some i)) = List.replicate e.domains.length q := by
  by_cases hshares : i.explicitShares = ∅
  · refine ⟨1, zero_le_one, ?_⟩
    rw [e.weightsFor_undeclared hskew hshares (h.1 hshares), sanitiseWeights, equalWeights,
      List.map_replicate]
    rfl
  · refine ⟨0, le_refl 0, ?_⟩
    rw [Eligibility.weightsFor, if_pos hshares, sanitiseWeights, List.map_map, ← List.map_const']
    refine List.map_congr_left fun d _ => sanitise_eq_zero fun q hq => ?_
    cases hd : i.explicitShares.lookup d with
    | none =>
      simp only [Map.getD, hd, Option.getD_none, Weight.finite.injEq] at hq
      exact hq.ge
    | some w =>
      simp only [Map.getD, hd, Option.getD_some] at hq
      exact h.2 d q (hq ▸ hd)

/-- Even weights ask for a distribution as even as arithmetic allows. -/
theorem EvenWeights.intendedSkew (h : EvenWeights i) (hskew : i.maxSkew.isSome)
    (hm : (counted eligible dist).1.domains ≠ [])
    (hcounts : ∀ a ∈ (counted eligible dist).2, 0 ≤ a) :
    intendedSkew i eligible dist = arithmeticFloor (counted eligible dist).2 := by
  have hpos := List.length_pos_of_ne_nil hm
  have hn := List.sum_nonneg hcounts
  obtain ⟨q, hq, hweights⟩ := h.weightsFor hskew (counted eligible dist).1
  simp only [TopologyDrift.intendedSkew]
  rw [apportion_uncapped hn, hweights, hamilton_replicate hq hn hpos, frontLoaded_skew hpos,
    arithmeticFloor, counted_aligned]

/-- All the weight in one of two domains takes all the objects. -/
theorem hamilton_one_sided {n : Int} {q : ℚ} (hn : 0 ≤ n) (hq : 0 < q) :
    hamilton n [q, 0] = [n, 0] := by
  obtain ⟨a, b, hab⟩ := List.length_eq_two.1 (hamilton_length n [q, 0])
  have hsum := hamilton_sum hn (List.cons_ne_nil q [0])
  have hquota : (quotas n [q, 0])[1]? = some 0 := by simp [quotas, hq.not_ge]
  have hnear := hamilton_near (s := b) hn (by simp) hquota (by rw [hab]; rfl)
  have hb : b = 0 := Int.abs_lt_one_iff.1 (by exact_mod_cast (sub_zero (b : ℚ)) ▸ hnear)
  rw [hab, List.sum_pair] at hsum
  rw [hab, hb, ← hsum, hb, add_zero]

/-- Two domains, and all nodes in the first. -/
def oneSided (d f : Domain) : Eligibility where
  domains := [d, f]
  capacityCPU := [.finite 1, .finite 0]
  capacityMemory := [.finite 1, .finite 0]
  nodeCount := [1, 0]
  cpu_aligned := rfl
  memory_aligned := rfl
  nodes_aligned := rfl

/-- Uneven weights put everything in one of two domains, for some choice of the two. -/
theorem exists_oneSided (h : ¬ EvenWeights i) :
    ∃ d f q, f ≠ d ∧ f ≠ domainUnknown ∧ 0 < q ∧
      sanitiseWeights ((oneSided d f).weightsFor (some i)) = [q, 0] := by
  by_cases hshares : i.explicitShares = ∅
  · refine ⟨[0], [1], 1, by decide, by decide +kernel, one_pos, ?_⟩
    have hweight : i.weighting ≠ .auto ∧ i.weighting ≠ .equal := by
      refine not_or.1 fun hor => h ⟨fun _ => hor, ?_⟩
      simp [hshares]
    rw [Eligibility.weightsFor, if_neg (not_not.2 hshares), Eligibility.effectiveWeighting,
      if_pos hweight.1]
    cases hw : i.weighting with
    | auto => exact absurd hw hweight.1
    | equal => exact absurd hw hweight.2
    | nodeCount | allocatableCPU | allocatableMemory =>
      simp [Eligibility.weights, oneSided, sanitiseWeights, Weight.sanitise]
  · obtain ⟨d, q, hd, hq⟩ : ∃ d q, i.explicitShares.lookup d = some (.finite q) ∧ 0 < q := by
      by_contra hno
      push Not at hno
      exact h ⟨fun hnil => absurd hnil hshares, hno⟩
    obtain ⟨f, hf⟩ := Infinite.exists_notMem_finset (insert domainUnknown i.explicitShares.keys)
    rw [Finset.mem_insert, not_or, Finmap.mem_keys] at hf
    refine ⟨d, f, q, ?_, hf.1, hq, ?_⟩
    · rintro rfl
      exact hf.2 (Finmap.mem_of_lookup_eq_some hd)
    · rw [Eligibility.weightsFor, if_pos hshares]
      simp [oneSided, Map.getD, hd, Finmap.lookup_eq_none.2 hf.2, sanitiseWeights, Weight.sanitise,
        hq.le]

/-- `n` objects in one domain. -/
def allIn (d : Domain) (n : Int) : Distribution :=
  { byDomain := (∅ : Map Domain DomainCount).insert d { running := n }, total := n }

theorem counted_oneSided {d f : Domain} {n : Int} (hf : f ≠ d) (hunknown : f ≠ domainUnknown)
    (hn : n ≠ 0) : counted (oneSided d f) (some (allIn d n)) = (oneSided d f, [n, 0]) := by
  have hcounts : (allIn d n).counts (oneSided d f).domains .running = [n, 0] := by
    simp [Distribution.counts, oneSided, allIn, Map.getD, hf, DomainCount.ofState]
  rw [counted]
  simp only [hcounts]
  rw [Eligibility.dropEmptyUnknown]
  by_cases hd : d = domainUnknown
  · simp [oneSided, List.idxOf?_cons, hd, hn]
  · simp [oneSided, List.idxOf?_cons, hd, hunknown]

/-- Uneven weights hide a breach on some cluster: all the objects in the domain with all the
    weight. -/
theorem exists_silent_breach (key : TopologyKey) (t : Thresholds)
    (hhard : i.hardSkewContract = true) (hceil : i.maxPerDomain = none) (hcaps : i.domainCaps = ∅)
    (hmode : i.mode ≠ .ignore) (hsup : sup.suppress = false) (h : ¬ EvenWeights i) :
    ∃ eligible dist, (∀ a ∈ (counted eligible dist).2, 0 ≤ a) ∧
      (scoreAxis key (some i) eligible dist t sup).scores.evaluable = true ∧
      OverBound i (counted eligible dist).2 ∧
      (scoreAxis key (some i) eligible dist t sup).verdict.kind ≠ .maxSkew := by
  obtain ⟨d, f, q, hf, hunknown, hq, hweights⟩ := exists_oneSided h
  -- Enough objects to be evaluated and to break the bound.
  obtain ⟨n, hpos, hbound, hmin⟩ :
      ∃ n : Int, 1 < n ∧ i.maxSkew.getD 0 < n ∧ t.minReplicasForScoring ≤ n :=
    ⟨max (max 1 (i.maxSkew.getD 0)) t.minReplicasForScoring + 1, by omega, by omega, by omega⟩
  have hcounted := counted_oneSided hf hunknown (n := n) (by omega)
  have hcounts : ∀ a ∈ (counted (oneSided d f) (some (allIn d n))).2, 0 ≤ a := by
    simp [hcounted, (by omega : 0 ≤ n)]
  have hm : (counted (oneSided d f) (some (allIn d n))).1.domains ≠ [] := by
    rw [hcounted]
    exact List.cons_ne_nil _ _
  have hsum : (counted (oneSided d f) (some (allIn d n))).2.sum = n := by
    simp [hcounted]
  have heval : (scoreAxis key (some i) (oneSided d f) (some (allIn d n)) t sup).scores.evaluable =
      true :=
    (scoreAxis_scored hceil hcaps hcounts hm (by omega)).evaluable.2 (by omega)
  have hintended : intendedSkew i (oneSided d f) (some (allIn d n)) = skew [n, 0] := by
    simp only [intendedSkew]
    rw [hsum, apportion_uncapped (by omega), hcounted, hweights,
      hamilton_one_sided (by omega) hq]
  refine ⟨oneSided d f, some (allIn d n), hcounts, heval, ?_, ?_⟩
  · rw [OverBound, hcounted]
    simp only [arithmeticFloor, skew, maxOf, minOf, List.foldl_cons, List.foldl_nil]
    split <;> omega
  · rw [Ne, kind_maxSkew_iff hceil hcaps hcounts hm (by omega) hhard hmode hsup heval, hintended,
      hcounted]
    exact not_lt.2 (le_skewFloor _ _)

/-- A subject with a hard skew bound and no caps is reported over the bound exactly when it
    is, on every cluster, if the intent's weights are even. If they are not, some cluster
    has a placement over the bound that is silent, whatever the thresholds. -/
theorem skew_contract_iff (hhard : i.hardSkewContract = true)
    (hceil : i.maxPerDomain = none) (hcaps : i.domainCaps = ∅) (hmode : i.mode ≠ .ignore)
    (hsup : sup.suppress = false) :
    (∀ eligible dist, (∀ a ∈ (counted eligible dist).2, 0 ≤ a) →
      (scoreAxis key (some i) eligible dist t sup).scores.evaluable = true →
      ((scoreAxis key (some i) eligible dist t sup).verdict.kind = .maxSkew ↔
        OverBound i (counted eligible dist).2)) ↔
    EvenWeights i := by
  constructor
  · intro hall
    by_contra hnot
    obtain ⟨e, dist, hcounts, heval, hover, hsilent⟩ :=
      exists_silent_breach key t hhard hceil hcaps hmode hsup hnot
    exact hsilent ((hall e dist hcounts heval).2 hover)
  · intro heven eligible dist hcounts heval
    obtain ⟨-, hsome, -⟩ := Intent.hardSkewContract_iff.mp hhard
    obtain ⟨k, hk⟩ := Option.isSome_iff_exists.mp hsome
    obtain ⟨hm, hsum⟩ := inhabited_of_evaluable heval
    rw [kind_maxSkew_iff hceil hcaps hcounts hm hsum hhard hmode hsup heval,
      heven.intendedSkew hsome hm hcounts, OverBound, hk, skewFloor, Option.getD_some]
    split <;> omega

end

namespace AxisSample

/-- The pods' own constraint: at most one object apart, enforced. -/
def constraint : Intent :=
  { topologyKey := zone, source := .topologySpreadConstraint, maxSkew := some 1,
    whenUnsatisfiable := .doNotSchedule }

/-- A policy that asks for four objects in zone a to one in zone b. -/
def policy : Intent :=
  { topologyKey := zone, source := .policyCRD,
    explicitShares := (∅ : Map Domain Weight).insert (bytes "a") (.finite 4) |>.insert (bytes "b")
      (.finite 1) }

def twoZones : Eligibility where
  domains := [bytes "a", bytes "b"]
  capacityCPU := [.finite 8, .finite 8]
  capacityMemory := [.finite 32, .finite 32]
  nodeCount := [4, 4]
  cpu_aligned := rfl
  memory_aligned := rfl
  nodes_aligned := rfl

/-- `a` objects running in zone a and `b` in zone b. -/
def placed (a b : Int) : Distribution :=
  { byDomain := (∅ : Map Domain DomainCount).insert (bytes "a") { running := a } |>.insert
      (bytes "b") { running := b }
    total := a + b }

end AxisSample

open AxisSample in
/-- Under the constraint alone, eight and two objects break the bound and are reported. -/
theorem constraint_breach_reported :
    OverBound constraint (counted twoZones (placed 8 2)).2 ∧
      (scoreAxis zone (some constraint) twoZones (placed 8 2) defaultThresholds {}).verdict.kind =
        .maxSkew := by
  have hover : OverBound constraint (counted twoZones (placed 8 2)).2 := by decide +kernel
  have heven : EvenWeights constraint := ⟨fun _ => .inl rfl, by simp [constraint]⟩
  exact ⟨hover, ((skew_contract_iff (by decide) rfl rfl (by decide) rfl).mpr heven twoZones
    (placed 8 2) (by decide +kernel) (by decide +kernel)).mpr hover⟩

open AxisSample in
/-- With the constraint's bound carried onto the policy, the same placement breaks the
    bound by five and is silent. -/
theorem policy_shares_hide_breach :
    ∃ i, (resolveIntents [constraint, policy]).lookup zone = some i ∧ i.hardSkewContract = true ∧
      OverBound i (counted twoZones (placed 8 2)).2 ∧
      (scoreAxis zone (some i) twoZones (placed 8 2) defaultThresholds {}).scores.evaluable = true ∧
      (scoreAxis zone (some i) twoZones (placed 8 2) defaultThresholds {}).verdict.kind = .none := by
  refine ⟨((resolveIntents [constraint, policy]).lookup zone).get (by decide +kernel), ?_⟩
  decide +kernel

end Lookout.TopologyDrift
