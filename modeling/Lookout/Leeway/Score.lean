-- SUMMARY: Scoring a distribution against its expectation, the verdict drawn from the scores, and what relaxed thresholds forgive.
import Lookout.Leeway.Intent

/-!
# Scores and verdicts

`score` measures where a subject's objects are against where they should be. `judge`
applies the breach rules to the scores: a declared ceiling or skew bound first, then the
rule for colocation, the learned bands, and last the share of objects that would have to
move. `judgeTransient` holds a verdict back, or relaxes the thresholds, while the cluster
is known to be moving.

Thresholds are ordered by how much they forgive: a rule that reads them only as tolerances
and fires under the looser ones says the same under the tighter ones. The declared bounds
read no threshold at all. Only the escalation of a finding reads the share of the fullest
domain.

Shares are exact rationals. The default drift threshold is the float64 nearest to 0.2.
-/

namespace Lookout.Leeway

/-! ## Thresholds and gates -/

structure Thresholds where
  minReplicasForScoring : Int
  smallNThreshold : Int
  minRelocationSmallN : Int
  drift : ℚ
  maxDomainShare : ℚ
  deriving DecidableEq, Repr

def defaultThresholds : Thresholds where
  minReplicasForScoring := 3
  smallNThreshold := 10
  minRelocationSmallN := 2
  drift := 3602879701896397 / 18014398509481984
  maxDomainShare := 1 / 2

/-- Why a subject was not evaluated for drift. -/
inductive GateReason where
  | none
  | noDomains
  | noObjects
  | belowMinReplicas
  | modeIgnore
  deriving DecidableEq, Repr

def GateReason.text : GateReason → GoString
  | .none => []
  | .noDomains => bytes "no eligible domains"
  | .noObjects => bytes "no objects counted"
  | .belowMinReplicas => bytes "below minReplicasForScoring"
  | .modeIgnore => bytes "intent mode is Ignore"

/-! ## Scores -/

structure Scores where
  domains : List Domain
  actual : List Int
  expected : List Int
  total : Int := 0
  maxDomainObjects : Int := 0
  observedSkew : Int := 0
  minAchievableSkew : Int := 0
  excessSkew : Int := 0
  relocation : Int := 0
  drift : ℚ := 0
  concentration : ℚ := 0
  maxDomainShare : ℚ := 0
  chiSquare : ℚ := 0
  chiSquareValid : Bool := false
  degreesOfFreedom : Int := 0
  unplaceable : Int
  evaluable : Bool := false
  gate : GateReason := .none
  deriving DecidableEq, Repr

/-- The largest entry, starting from the first. -/
def maxOf : List Int → Int
  | [] => 0
  | a :: l => l.foldl max a

def minOf : List Int → Int
  | [] => 0
  | a :: l => l.foldl min a

/-- The distance between the fullest and the emptiest domain. -/
def skew (l : List Int) : Int := maxOf l - minOf l

/-- The skew that is not held against a placement: what arithmetic and caps impose, or the
    declared bound where it is looser. -/
def skewFloor (achievable : Int) (maxSkew : Option Int) : Int :=
  match maxSkew with
  | some k => if k > achievable then k else achievable
  | none => achievable

theorem le_skewFloor (achievable : Int) (maxSkew : Option Int) :
    achievable ≤ skewFloor achievable maxSkew := by
  cases maxSkew with
  | none => exact le_refl _
  | some k =>
    simp only [skewFloor]
    split <;> omega

/-- How many objects must move: the surplus side only. -/
def surplus (actual expected : List Int) : Int :=
  (List.zipWith (fun a e => max 0 (a - e)) actual expected).sum

/-- The chi-squared statistic, and whether its cells are large enough to use it. -/
def chiSquare (actual expected : List Int) : ℚ × Bool :=
  if actual.length ≠ expected.length ∨ actual.length = 0 then (0, false)
  else
    ((List.zipWith (fun a e => if e ≤ 0 then 0 else ((a - e : Int) : ℚ) * (a - e : Int) / e)
        actual expected).sum,
      expected.all fun e => 5 ≤ e)

/-- The metrics of one subject on one key. The domains, the counts and the apportionment
    are aligned. -/
def score (domains : List Domain) (actual : List Int) (ap : Apportionment)
    (maxSkew : Option Int) (t : Thresholds) : Scores :=
  let s : Scores :=
    { domains, actual, expected := ap.expected, unplaceable := ap.unplaceable }
  if domains.length = 0 then { s with gate := .noDomains }
  else if actual.sum = 0 then { s with gate := .noObjects }
  else
    let total := actual.sum
    let aligned := ap.expected.length = domains.length
    let observedSkew := skew actual
    let minAchievableSkew := if aligned then skew ap.expected else 0
    let floor := skewFloor minAchievableSkew maxSkew
    let relocation := if aligned then surplus actual ap.expected else 0
    let chi := chiSquare actual ap.expected
    { s with
      total, observedSkew, minAchievableSkew, relocation
      maxDomainObjects := maxOf actual
      maxDomainShare := (maxOf actual : ℚ) / total
      excessSkew := if observedSkew - floor > 0 then observedSkew - floor else 0
      drift := (relocation : ℚ) / total
      concentration := (actual.map fun (a : Int) => (a : ℚ) / total * (a / total)).sum
      chiSquare := chi.1
      chiSquareValid := chi.2
      degreesOfFreedom := domains.length - 1
      evaluable := ¬total < t.minReplicasForScoring
      gate := if total < t.minReplicasForScoring then .belowMinReplicas else .none }

section

variable {domains : List Domain} {actual : List Int} {ap : Apportionment} {maxSkew : Option Int}
  {t : Thresholds}

/-- The scores of a subject that has domains and objects. -/
structure Scored (actual : List Int) (ap : Apportionment) (maxSkew : Option Int)
    (t : Thresholds) (s : Scores) : Prop where
  total : s.total = actual.sum
  observedSkew : s.observedSkew = skew actual
  excessSkew : 0 < s.excessSkew ↔ skewFloor (skew ap.expected) maxSkew < skew actual
  relocation : s.relocation = surplus actual ap.expected
  drift : s.drift = (surplus actual ap.expected : ℚ) / actual.sum
  evaluable : s.evaluable = true ↔ t.minReplicasForScoring ≤ actual.sum

theorem score_scored (hm : domains ≠ []) (hsum : actual.sum ≠ 0)
    (hal : ap.expected.length = domains.length) :
    Scored actual ap maxSkew t (score domains actual ap maxSkew t) := by
  have hpos : domains.length ≠ 0 := (List.length_pos_of_ne_nil hm).ne'
  rw [score, if_neg hpos, if_neg hsum]
  refine ⟨rfl, rfl, ?_, ?_, ?_, by simp⟩
  · simp only
    split <;> omega
  · simp only [hal, if_true]
  · simp only [hal, if_true]

theorem score_empty (hsum : actual.sum = 0) :
    (score domains actual ap maxSkew t).evaluable = false := by
  simp only [score]
  split <;> rfl

end

/-! ## Breach rules -/

/-- The rule that fired. -/
inductive BreachKind where
  | none
  | perDomainCeiling
  | maxSkew
  | drift
  | baseline
  deriving DecidableEq, Repr

/-- The rule is a bound that somebody declared. -/
def BreachKind.contract (b : BreachKind) : Bool := b = .perDomainCeiling || b = .maxSkew

/-- A share lies further out than a learned band. Nothing lies outside a band that is not
    a number. -/
def Weight.exceededBy (band : Weight) (dev : ℚ) : Bool :=
  match band with
  | .finite q => q < dev
  | .nan => false
  | .inf negative => negative

namespace Scores

variable (s : Scores) (t : Thresholds)

/-- The expected fraction of each domain. -/
def expectedShares : List ℚ :=
  let total := s.expected.sum
  s.expected.map fun (e : Int) => if total = 0 then 0 else (e : ℚ) / total

/-- The objects outside the fullest domain. -/
def scattered : Int := s.total - s.maxDomainObjects

/-- Their share. -/
def dispersion : ℚ := if s.total = 0 then 0 else 1 - s.maxDomainShare

/-- Concentration warrants a higher severity. -/
def escalate : Bool := s.evaluable && t.maxDomainShare < s.maxDomainShare

/-- The domain furthest outside its learned band, with its deviation. -/
def worstOutlier (intent : Intent) : Option (Domain × ℚ) :=
  s.domains.zipIdx.foldl (fun worst (d, i) =>
    match intent.bands.lookup d with
    | none => worst
    | some band =>
      let share : ℚ := if 0 < s.total then (s.actual.getD i 0 : ℚ) / s.total else 0
      let dev := |share - s.expectedShares.getD i 0|
      if band.exceededBy dev && (worst.map Prod.snd).getD 0 < dev then some (d, dev) else worst)
    none

def breachBaseline (intent : Intent) (t : Thresholds) : BreachKind × GoString :=
  match s.worstOutlier intent with
  | none => (.none, [])
  | some (worst, _) =>
    if s.total < t.smallNThreshold && s.relocation < t.minRelocationSmallN then
      (.none, bytes "small-n: relocation below floor")
    else (.baseline, bytes "domain " ++ worst ++ bytes " is outside its learned band")

def breachColocate : BreachKind × GoString :=
  if s.dispersion ≤ t.drift then (.none, [])
  else if s.total < t.smallNThreshold && s.scattered < t.minRelocationSmallN then
    (.none, bytes "small-n: scattered objects below floor")
  else (.drift, bytes "objects scattered across domains against a colocation intent")

/-- The rule for a subject that nothing more specific speaks about. -/
def breachDrift : BreachKind × GoString :=
  if s.drift ≤ t.drift then (.none, [])
  else if s.total < t.smallNThreshold && s.relocation < t.minRelocationSmallN then
    (.none, bytes "small-n: relocation below floor")
  else (.drift, bytes "normalised drift over threshold")

/-- The breach rules in order of precedence. -/
def breach (intent : Option Intent) (t : Thresholds) : BreachKind × GoString :=
  if intent.any (·.mode = .ignore) then (.none, GateReason.modeIgnore.text)
  else if !s.evaluable then (.none, s.gate.text)
  else
    match intent with
    | none => s.breachDrift t
    | some i =>
      if i.hardPerDomainContract && i.maxPerDomain.any (· < s.maxDomainObjects) then
        (.perDomainCeiling, bytes "a domain holds more objects than the declared per-domain ceiling")
      else if i.hardSkewContract then
        if s.excessSkew > 0 then (.maxSkew, bytes "observed skew exceeds the declared maxSkew")
        else (.none, bytes "observed skew within the declared maxSkew")
      else if i.mode = .colocate then s.breachColocate t
      else if i.bands ≠ ∅ then s.breachBaseline i t
      else s.breachDrift t

end Scores

/-! ## Verdicts -/

/-- How sure a finding is. -/
inductive Tier where
  | none
  | a
  | b
  | c
  deriving DecidableEq, Repr

def severityInfo : GoString := bytes "info"

def severityWarning : GoString := bytes "warning"

def severityCritical : GoString := bytes "critical"

def validSeverity (s : GoString) : Bool :=
  s = severityInfo || s = severityWarning || s = severityCritical

def Tier.severity : Tier → GoString
  | .a => severityCritical
  | .b => severityWarning
  | .c => severityInfo
  | .none => []

/-- No intent, or one that is only a reading of the subject's history, is tier C. A
    declared bound is tier A. -/
def classify (intent : Option Intent) (k : BreachKind) : Tier :=
  match intent with
  | none => .c
  | some i => if i.source = .learnedBaseline then .c else if k.contract then .a else .b

inductive TransientState where
  | none
  | warmup
  | domainOutage
  | rollout
  | drain
  | scale
  deriving DecidableEq, Repr

/-- What to do about a subject's transient state. -/
structure Suppression where
  state : TransientState := .none
  suppress : Bool := false
  relax : Bool := false
  multiplier : ℚ := 0
  reason : GoString := []
  deriving DecidableEq, Repr

structure Verdict where
  breached : Bool := false
  kind : BreachKind := .none
  tier : Tier := .none
  severity : GoString := []
  reason : GoString := []
  escalated : Bool := false
  transient : TransientState := .none
  suppressed : Bool := false
  relaxed : Bool := false
  severityFromPolicy : Bool := false
  deriving DecidableEq, Repr

namespace Scores

def judge (s : Scores) (intent : Option Intent) (t : Thresholds) : Verdict :=
  let (kind, reason) := s.breach intent t
  if kind = .none then { kind, reason }
  else
    let tier := classify intent kind
    let escalated := intent.all (·.mode ≠ .colocate) && s.escalate t
    let severity := if escalated && tier = .c then severityWarning else tier.severity
    let fromPolicy := intent.any fun i => validSeverity i.severity
    { breached := true, kind, reason, tier, escalated
      severity := if fromPolicy then (intent.map (·.severity)).getD [] else severity
      severityFromPolicy := fromPolicy }

end Scores

theorem Scores.judge_breached (s : Scores) (intent : Option Intent) (t : Thresholds) :
    (s.judge intent t).breached = decide ((s.breach intent t).1 ≠ .none) := by
  simp only [judge]
  split <;> simp_all

theorem Scores.judge_kind (s : Scores) (intent : Option Intent) (t : Thresholds) :
    (s.judge intent t).kind = (s.breach intent t).1 := by
  simp only [judge]
  split <;> rfl

/-- A count scaled up, rounded upwards. -/
def scaleCount (n : Int) (mult : ℚ) : Int := if n ≤ 0 then n else ⌈(n : ℚ) * mult⌉

/-- The tolerances multiplied. What makes a subject eligible stays. -/
def Thresholds.relaxed (t : Thresholds) (mult : ℚ) : Thresholds :=
  if mult ≤ 1 then t
  else
    { t with
      drift := t.drift * mult
      maxDomainShare := min 1 (t.maxDomainShare * mult)
      smallNThreshold := scaleCount t.smallNThreshold mult
      minRelocationSmallN := scaleCount t.minRelocationSmallN mult }

/-- `judge` while the cluster is known to be moving. -/
def Scores.judgeTransient (s : Scores) (intent : Option Intent) (t : Thresholds)
    (sup : Suppression) : Verdict :=
  if sup.suppress then { transient := sup.state, suppressed := true, reason := sup.reason }
  else
    let v := s.judge intent (if sup.relax then t.relaxed sup.multiplier else t)
    { v with
      transient := sup.state
      relaxed := sup.relax
      reason :=
        if sup.relax && v.breached then
          v.reason ++ bytes "; " ++ sup.reason ++
            bytes ", and the relaxed threshold was exceeded anyway"
        else v.reason }

/-! ## Skew -/

variable {l : List Int}

theorem maxOf_spec (hne : l ≠ []) : maxOf l ∈ l ∧ ∀ x ∈ l, x ≤ maxOf l := by
  cases l with
  | nil => exact absurd rfl hne
  | cons a l => exact List.max?_eq_some_iff.mp List.max?_cons'

theorem minOf_spec (hne : l ≠ []) : minOf l ∈ l ∧ ∀ x ∈ l, minOf l ≤ x := by
  cases l with
  | nil => exact absurd rfl hne
  | cons a l => exact List.min?_eq_some_iff.mp List.min?_cons'

theorem le_maxOf {x : Int} (hx : x ∈ l) : x ≤ maxOf l :=
  (maxOf_spec (List.ne_nil_of_mem hx)).2 x hx

theorem minOf_le {x : Int} (hx : x ∈ l) : minOf l ≤ x :=
  (minOf_spec (List.ne_nil_of_mem hx)).2 x hx

theorem maxOf_mem (hne : l ≠ []) : maxOf l ∈ l := (maxOf_spec hne).1

theorem minOf_mem (hne : l ≠ []) : minOf l ∈ l := (minOf_spec hne).1

theorem skew_nonneg (hne : l ≠ []) : 0 ≤ skew l := by
  have h₁ := minOf_le (maxOf_mem hne)
  rw [skew]
  omega

theorem mul_minOf_le_sum (l : List Int) : l.length * minOf l ≤ l.sum := by
  have h := List.card_nsmul_le_sum l (minOf l) fun x hx => minOf_le hx
  simpa using h

theorem sum_le_mul_maxOf (l : List Int) : l.sum ≤ l.length * maxOf l := by
  have h := List.sum_le_card_nsmul l (maxOf l) fun x hx => le_maxOf hx
  simpa using h

/-- A total that does not divide evenly cannot be spread without skew. -/
theorem arithmetic_floor (hne : l ≠ []) : (if (l.length : Int) ∣ l.sum then 0 else 1) ≤ skew l := by
  split
  · exact skew_nonneg hne
  next hdvd =>
    by_contra hlt
    have hnn := skew_nonneg hne
    have heq : maxOf l = minOf l := by
      rw [skew] at hlt hnn
      omega
    have h₁ := mul_minOf_le_sum l
    have h₂ := sum_le_mul_maxOf l
    rw [heq] at h₂
    exact hdvd ⟨minOf l, le_antisymm h₂ h₁⟩

/-! ## Relaxed thresholds -/

variable {s : Scores}

/-- The second thresholds forgive what the first forgive. No share exceeds 1, so a
    tolerated share above 1 forgives no more than 1 does. -/
structure Thresholds.Looser (t t' : Thresholds) : Prop where
  drift : t.drift ≤ t'.drift
  maxDomainShare : min 1 t.maxDomainShare ≤ t'.maxDomainShare
  smallNThreshold : t.smallNThreshold ≤ t'.smallNThreshold
  minRelocationSmallN : t.minRelocationSmallN ≤ t'.minRelocationSmallN

/-- No tolerance is negative. -/
structure Thresholds.Nonneg (t : Thresholds) : Prop where
  drift : 0 ≤ t.drift
  maxDomainShare : 0 ≤ t.maxDomainShare

variable {t t' : Thresholds} {m m' : ℚ}

theorem scaleCount_mono (n : Int) (hm : 1 ≤ m) (hle : m ≤ m') :
    n ≤ scaleCount n m ∧ scaleCount n m ≤ scaleCount n m' := by
  unfold scaleCount
  split
  · exact ⟨le_refl n, le_refl n⟩
  · next hn =>
    have hpos : (0 : ℚ) ≤ n := by exact_mod_cast (not_le.1 hn).le
    refine ⟨?_, Int.ceil_le_ceil (mul_le_mul_of_nonneg_left hle hpos)⟩
    have hn' : (n : ℚ) ≤ ⌈(n : ℚ) * m⌉ := (le_mul_of_one_le_right hpos hm).trans (Int.le_ceil _)
    exact_mod_cast hn'

/-- The larger the multiplier, the looser the thresholds. -/
theorem Thresholds.Nonneg.relaxed (ht : t.Nonneg) (hm : 1 ≤ m) (hle : m ≤ m') :
    (t.relaxed m).Looser (t.relaxed m') := by
  have hcount (n : Int) := scaleCount_mono n hm hle
  unfold Thresholds.relaxed
  by_cases hone : m' ≤ 1
  · rw [if_pos hone, if_pos (hle.trans hone)]
    exact ⟨le_rfl, min_le_right _ _, le_rfl, le_rfl⟩
  · rw [if_neg hone]
    split
    · have hm' := hm.trans hle
      exact ⟨le_mul_of_one_le_right ht.drift hm',
        min_le_min_left 1 (le_mul_of_one_le_right ht.maxDomainShare hm'),
        (hcount _).1.trans (hcount _).2, (hcount _).1.trans (hcount _).2⟩
    · refine ⟨mul_le_mul_of_nonneg_left hle ht.drift, ?_, (hcount _).2, (hcount _).2⟩
      exact (min_le_right _ _).trans
        (min_le_min_left 1 (mul_le_mul_of_nonneg_left hle ht.maxDomainShare))

/-! ## Rules -/

/-- A rule that reads the thresholds as tolerances: it is no declared bound, and what it
    finds under the looser thresholds it finds under the others. -/
structure Tolerant (rule : Thresholds → BreachKind × GoString) : Prop where
  undeclared : ∀ t, (rule t).1.contract = false
  mono : ∀ t t', t.Looser t' → (rule t').1 ≠ .none → rule t = rule t'

/-- A finding behind a test that looser thresholds pass more often, and the small-n floor. -/
theorem tolerant_rule (quiet : Thresholds → Prop) [DecidablePred quiet] {k : BreachKind}
    (hk : k.contract = false) (hquiet : ∀ t t', t.Looser t' → quiet t → quiet t')
    (n moved : Int) (calm small found : GoString) :
    Tolerant fun t => if quiet t then (.none, calm)
      else if n < t.smallNThreshold && moved < t.minRelocationSmallN then (.none, small)
      else (k, found) := by
  constructor
  · intro t
    split
    · rfl
    · split
      · rfl
      · exact hk
  · intro t t' h hbreach
    split at hbreach
    · exact absurd rfl hbreach
    · next hloud =>
      split at hbreach
      · exact absurd rfl hbreach
      · next hfloor =>
        have h₁ := h.smallNThreshold
        have h₂ := h.minRelocationSmallN
        have hfloor' : ¬(n < t.smallNThreshold && moved < t.minRelocationSmallN) = true := by
          simp only [Bool.and_eq_true, decide_eq_true_eq] at hfloor ⊢
          omega
        rw [if_neg fun hq => hloud (hquiet t t' h hq), if_neg hfloor', if_neg hloud, if_neg hfloor]

namespace Scores

theorem tolerant_drift : Tolerant s.breachDrift :=
  tolerant_rule _ rfl (fun _ _ h hq => hq.trans h.drift) ..

theorem tolerant_colocate : Tolerant s.breachColocate :=
  tolerant_rule _ rfl (fun _ _ h hq => hq.trans h.drift) ..

theorem tolerant_baseline (i : Intent) : Tolerant (s.breachBaseline i) := by
  unfold breachBaseline
  cases s.worstOutlier i with
  | none => exact ⟨fun _ => rfl, fun _ _ _ _ => rfl⟩
  | some worst =>
    have h := tolerant_rule (fun _ => False) (k := .baseline) rfl (fun _ _ _ hq => hq)
      s.total s.relocation [] (bytes "small-n: relocation below floor")
      (bytes "domain " ++ worst.1 ++ bytes " is outside its learned band")
    simpa only [if_false] using h

/-- The rule for an intent reads no threshold, or only as tolerances. -/
theorem breach_tolerant (s : Scores) (intent : Option Intent) :
    (∀ t t', s.breach intent t = s.breach intent t') ∨ Tolerant (s.breach intent) := by
  unfold breach
  split
  · exact .inl fun _ _ => rfl
  · split
    · exact .inl fun _ _ => rfl
    · cases intent with
      | none => exact .inr tolerant_drift
      | some i =>
        dsimp only
        split
        · exact .inl fun _ _ => rfl
        · split
          · exact .inl fun _ _ => rfl
          · split
            · exact .inr tolerant_colocate
            · split
              · exact .inr (tolerant_baseline i)
              · exact .inr tolerant_drift

end Scores

/-! ## Verdicts -/

/-- The verdicts differ at most in the escalation, which `loose` may withdraw, and in what
    the escalation does to the severity of tier C. -/
structure Forgives (strict loose : Verdict) : Prop where
  same : loose = { strict with escalated := loose.escalated, severity := loose.severity }
  escalated : loose.escalated = true → strict.escalated = true
  severity : loose.severity = strict.severity ∨
    strict.tier = .c ∧ loose.severity = severityInfo ∧ strict.severity = severityWarning

/-- The share of the fullest domain is a share. -/
theorem score_share_le_one {domains : List Domain} {actual : List Int} {ap : Apportionment}
    {maxSkew : Option Int} {t₀ : Thresholds} (h : ∀ a ∈ actual, 0 ≤ a) :
    (score domains actual ap maxSkew t₀).maxDomainShare ≤ 1 := by
  unfold score
  split
  · exact zero_le_one
  · split
    · exact zero_le_one
    · next hsum =>
      have hne : actual ≠ [] := by
        rintro rfl
        exact hsum rfl
      have hle := List.single_le_sum h _ (maxOf_mem hne)
      have hpos : 0 < actual.sum := lt_of_le_of_ne (List.sum_nonneg h) (Ne.symm hsum)
      have hpos' : (0 : ℚ) < (actual.sum : Int) := by exact_mod_cast hpos
      rw [div_le_one hpos']
      exact_mod_cast hle

theorem Scores.escalate_mono (hs : s.maxDomainShare ≤ 1) (h : t.Looser t')
    (he : s.escalate t' = true) : s.escalate t = true := by
  simp only [escalate, Bool.and_eq_true, decide_eq_true_eq] at he ⊢
  exact ⟨he.1, (min_lt_iff.1 (h.maxDomainShare.trans_lt he.2)).resolve_left (not_lt.2 hs)⟩

/-- Where the finding is the same, the verdicts differ as far as the escalation does. -/
theorem Scores.judge_forgives (hs : s.maxDomainShare ≤ 1) (h : t.Looser t') {intent : Option Intent}
    (hsame : s.breach intent t = s.breach intent t') (hne : (s.breach intent t').1 ≠ .none) :
    Forgives (s.judge intent t) (s.judge intent t') := by
  have hesc := s.escalate_mono hs h
  simp only [judge, hsame, if_neg hne]
  refine ⟨rfl, fun he => ?_, ?_⟩
  · rw [Bool.and_eq_true] at he ⊢
    exact he.imp_right hesc
  · generalize classify intent _ = tier
    cases intent.any fun i => validSeverity i.severity with
    | true => exact .inl rfl
    | false =>
      cases he' : s.escalate t' with
      | true => exact .inl (by rw [hesc he'])
      | false =>
        rw [Bool.and_false]
        by_cases hraised : (intent.all (·.mode ≠ .colocate) && s.escalate t && tier = .c) = true
        · have htier : tier = .c := of_decide_eq_true (Bool.and_eq_true_iff.1 hraised).2
          exact .inr ⟨htier, by rw [htier]; rfl, if_pos hraised⟩
        · exact .inl (if_neg hraised).symm

/-- Relaxing the thresholds only forgives. What is found under relaxed thresholds is found
    under the original ones, by the same rule, at the same tier and no lower severity; a
    larger multiplier only removes findings; and the verdict on a declared bound is the
    same, but for the escalation. -/
theorem relaxed_only_forgives {domains : List Domain} {actual : List Int} {ap : Apportionment}
    {maxSkew : Option Int} {t₀ : Thresholds} (hcounts : ∀ a ∈ actual, 0 ≤ a)
    (intent : Option Intent) (ht : t.Nonneg) (hm : 1 ≤ m) :
    let v := (score domains actual ap maxSkew t₀).judge intent
    ((v (t.relaxed m)).breached = true → Forgives (v t) (v (t.relaxed m))) ∧
    ((v t).kind.contract = true ∨ (v (t.relaxed m)).kind.contract = true →
      Forgives (v t) (v (t.relaxed m))) ∧
    ∀ m', m ≤ m' → (v (t.relaxed m')).breached = true →
      Forgives (v (t.relaxed m)) (v (t.relaxed m')) := by
  generalize hscore : score domains actual ap maxSkew t₀ = s
  intro v
  have hs : s.maxDomainShare ≤ 1 := hscore ▸ score_share_le_one hcounts
  have hfound {t t' : Thresholds} (h : t.Looser t') (hb : (v t').breached = true) :
      Forgives (v t) (v t') := by
    rw [s.judge_breached, decide_eq_true_eq] at hb
    refine s.judge_forgives hs h ?_ hb
    rcases s.breach_tolerant intent with hconst | htol
    · exact hconst t t'
    · exact htol.mono t t' h hb
  have hone : t.relaxed 1 = t := if_pos le_rfl
  have hloose := ht.relaxed le_rfl hm
  refine ⟨hfound hloose, fun hcontract => ?_, fun m' hle => hfound (ht.relaxed hm hle)⟩
  rw [s.judge_kind, s.judge_kind] at hcontract
  rcases s.breach_tolerant intent with hconst | htol
  · refine s.judge_forgives hs hloose (hconst _ _) fun hnone => ?_
    rw [hconst t (t.relaxed m), or_self, hnone] at hcontract
    cases hcontract
  · rw [htol.undeclared, htol.undeclared] at hcontract
    simp at hcontract

namespace RelaxSample

/-- A declared skew bound that the scheduler enforces. -/
def bound : Intent :=
  { topologyKey := bytes "zone", source := .topologySpreadConstraint, maxSkew := some 1,
    whenUnsatisfiable := .doNotSchedule }

/-- Six of eight objects in one of two domains. -/
def scores : Scores :=
  score [bytes "a", bytes "b"] [6, 2] ⟨[4, 4], 8, 0, [false, false]⟩ (some 1) defaultThresholds

end RelaxSample

open RelaxSample in
theorem relaxed_only_forgives_bound :
    (scores.judge (some bound) (defaultThresholds.relaxed 2)).breached = true ∧
      Forgives (scores.judge (some bound) defaultThresholds)
        (scores.judge (some bound) (defaultThresholds.relaxed 2)) := by
  have hbreached : (scores.judge (some bound) (defaultThresholds.relaxed 2)).breached = true := by
    decide +kernel
  refine ⟨hbreached, (relaxed_only_forgives (by decide) (some bound) ⟨?_, ?_⟩ ?_).1 hbreached⟩
  all_goals decide +kernel

open RelaxSample in
/-- The finding is a declared bound, and still it is not escalated under relaxed
    thresholds. -/
theorem relaxed_withdraws_escalation :
    (scores.judge (some bound) defaultThresholds).kind.contract = true ∧
      (scores.judge (some bound) defaultThresholds).escalated = true ∧
      (scores.judge (some bound) (defaultThresholds.relaxed 2)).escalated = false := by
  decide +kernel

end Lookout.Leeway
