-- SUMMARY: The audit compares a disruption budget with each matched workload alone, and so calls some blocking that are not.
import Mathlib.Tactic.Linarith
import Lookout.Sources.Objects

/-!
# Disruption budgets

A budget is spent on all the pods it selects together. Both checks of the audit compare it
with the replicas of each matched workload alone. They miss no budget that blocks, but a
small workload makes them call a budget blocking that leaves disruptions to the others.
-/

namespace Lookout.Audit

/-! ## The checks -/

/-- `intstr.IntOrString` -/
inductive IntOrString where
  | int (n : Int)
  | string (s : GoString)

/-- A workload with a pod template. The API server admits no negative count. -/
structure Workload where
  kind : GoString
  ns : GoString
  name : GoString
  replicas : Option Nat
  labels : Map GoString GoString

def Workload.wantReplicas (w : Workload) : Nat := w.replicas.getD 1

/-- A budget. The selector is what `LabelSelectorAsSelector` makes of it, if anything. -/
structure PodDisruptionBudget where
  ns : GoString
  selector : Option (Map GoString GoString → Bool)
  minAvailable : Option IntOrString
  maxUnavailable : Option IntOrString
  currentHealthy : Int
  disruptionsAllowed : Int

def pdbMatchesLabels (pdb : PodDisruptionBudget) (w : Workload) : Bool :=
  w.ns = pdb.ns && pdb.selector.any (· w.labels)

/-- `strings.TrimSpace` of an ASCII text. -/
def trimSpace (s : GoString) : GoString :=
  let space := fun b : UInt8 => b = 0x20 || 0x09 ≤ b && b ≤ 0x0d
  ((s.dropWhile space).reverse.dropWhile space).reverse

def parsePercent (s : GoString) : Option Int :=
  if s.getLast? = some 0x25 then Sources.parseInt64 s.dropLast else none

def matchedWorkloadReplicas (pdb : PodDisruptionBudget) (deployments statefulsets : List Workload) :
    List Nat :=
  ((deployments ++ statefulsets).filter (pdbMatchesLabels pdb)).map (·.wantReplicas)

/-- What in the spec of a budget blocks a drain, with the replicas the finding names. -/
inductive SpecBlock where
  | maxUnavailable
  | minAvailable (replicas : Option Nat)

inductive Block where
  | spec (b : SpecBlock)
  | status

/-- The part of `evaluateBlockingPDB` on `maxUnavailable`. -/
def maxUnavailableBlock : IntOrString → Option SpecBlock
  | .int n => if n ≤ 0 then some .maxUnavailable else none
  | .string s => if (parsePercent (trimSpace s)).any (· ≤ 0) then some .maxUnavailable else none

/-- The part of `evaluateBlockingPDB` on `minAvailable`. -/
def minAvailableBlock (replicas : List Nat) : IntOrString → Option SpecBlock
  | .string s => (parsePercent (trimSpace s)).bind fun pct =>
    if pct ≥ 100 then some (.minAvailable replicas.head?)
    else if pct > 0 then
      (replicas.find? fun rep : Nat => 0 < rep && (pct * rep + 99) / 100 ≥ rep).map
        (.minAvailable ∘ some)
    else none
  | .int n =>
    if n > 0 then (replicas.find? fun rep : Nat => 0 < rep && n ≥ rep).map (.minAvailable ∘ some)
    else none

/-- The part of `evaluateBlockingPDB` on the spec. -/
def specBlock (pdb : PodDisruptionBudget) (replicas : List Nat) : Option SpecBlock :=
  (pdb.maxUnavailable.bind maxUnavailableBlock).or
    (pdb.minAvailable.bind (minAvailableBlock replicas))

def evaluateBlockingPDB (pdb : PodDisruptionBudget) (deployments statefulsets : List Workload) :
    Option Block :=
  match specBlock pdb (matchedWorkloadReplicas pdb deployments statefulsets) with
  | some b => some (.spec b)
  | none => if pdb.currentHealthy > 0 ∧ pdb.disruptionsAllowed = 0 then some .status else none

structure HorizontalPodAutoscaler where
  ns : GoString
  targetKind : GoString
  targetName : GoString
  minReplicas : Option Nat

structure WorkloadIndex where
  hpas : List HorizontalPodAutoscaler
  hpasRefused : Bool

def hpaTargets (h : HorizontalPodAutoscaler) (w : Workload) : Bool :=
  h.ns = w.ns && h.targetKind = w.kind && h.targetName = w.name

def WorkloadIndex.replicaFloor (ix : WorkloadIndex) (w : Workload) : Nat :=
  match ix.hpas.find? (hpaTargets · w) with
  | some h => h.minReplicas.getD 1
  | none => w.wantReplicas

/-- The replicas that `zeroDisruptionsFinding` compares the budget with. -/
def WorkloadIndex.comparedReplicas (ix : WorkloadIndex) (w : Workload) : Nat :=
  if ix.hpasRefused then w.wantReplicas else min (ix.replicaFloor w) w.wantReplicas

/-- The reason of a finding, with the workload it names. -/
inductive ZeroDisruptions where
  | maxUnavailable
  | everyPod
  | minAvailable (w : Workload)

def WorkloadIndex.zeroDisruptionsFinding (ix : WorkloadIndex) (p : PodDisruptionBudget)
    (matched : List Workload) : Option ZeroDisruptions :=
  let none? := fun v : IntOrString => match v with
    | .int n => decide (n ≤ 0)
    | .string s => trimSpace s = bytes "0%"
  if p.maxUnavailable.any none? then some .maxUnavailable
  else p.minAvailable.bind fun v => match v with
    | .string s => if trimSpace s = bytes "100%" then some .everyPod else none
    | .int n =>
      if n > 0 then
        (matched.find? fun w => w.kind ≠ bytes "DaemonSet" && 0 < ix.comparedReplicas w &&
          n ≥ ix.comparedReplicas w).map .minAvailable
      else none

/-! ## The rule -/

/-- The number of pods that a value means among `total`, rounded up. -/
def scaled (total : Nat) : IntOrString → Int
  | .int n => n
  | .string s => ((parsePercent (trimSpace s)).getD 0 * total + 99) / 100

/-- The pods that the disruption controller keeps healthy. -/
def desiredHealthy (pdb : PodDisruptionBudget) (total : Nat) : Int :=
  match pdb.minAvailable, pdb.maxUnavailable with
  | some v, _ => scaled total v
  | none, some v => max 0 (total - scaled total v)
  | none, none => 0

/-- A number or a percentage that is not negative. -/
def IntOrString.Valid : IntOrString → Prop
  | .int n => 0 ≤ n
  | .string s => ∃ pct, parsePercent (trimSpace s) = some pct ∧ 0 ≤ pct

def PodDisruptionBudget.SetsOne (pdb : PodDisruptionBudget) : Prop :=
  ∃ v : IntOrString, v.Valid ∧ (pdb.minAvailable = some v ∧ pdb.maxUnavailable = none ∨
    pdb.minAvailable = none ∧ pdb.maxUnavailable = some v)

/-- The budget keeps all pods, or of no workload all. A percentage keeps all of `n` pods just
    if the rest of it, taken of them, is less than a whole pod. -/
def PodDisruptionBudget.KeepsAll (pdb : PodDisruptionBudget) (replicas : List Nat) : Prop :=
  match pdb.minAvailable with
  | none => True
  | some (.int m) => replicas.sum ≤ m ∨ ∀ r ∈ replicas, ¬(0 < r ∧ r ≤ m)
  | some (.string s) =>
    let rest := 100 - (parsePercent (trimSpace s)).getD 0
    rest * replicas.sum < 100 ∨ ∀ r ∈ replicas, ¬(0 < r ∧ rest * r < 100)

variable {v : IntOrString} {replicas : List Nat} {pdb : PodDisruptionBudget}

theorem keepsAll_iff (hmin : pdb.minAvailable = some v) : pdb.KeepsAll replicas ↔
    replicas.sum ≤ scaled replicas.sum v ∨ ∀ r ∈ replicas, ¬(0 < r ∧ r ≤ scaled r v) := by
  cases v with
  | int m => simp only [PodDisruptionBudget.KeepsAll, hmin, scaled]
  | string s =>
    have hrest (n : Nat) : (100 - (parsePercent (trimSpace s)).getD 0) * n < 100 ↔
        n ≤ scaled n (.string s) := by
      rw [scaled, Int.le_ediv_iff_mul_le (by decide), sub_mul]
      omega
    simp only [PodDisruptionBudget.KeepsAll, hmin, hrest]

/-- A value that takes all of the total takes all of each part. -/
theorem scaled_part (hv : v.Valid) {part total : Nat} (hle : part ≤ total)
    (h : total ≤ scaled total v) : part ≤ scaled part v := by
  cases v with
  | int n => exact (Int.ofNat_le.2 hle).trans h
  | string s =>
    obtain ⟨pct, hpct, hpos⟩ := hv
    simp only [scaled, hpct, Option.getD_some] at h ⊢
    rw [Int.le_ediv_iff_mul_le (by decide)] at h ⊢
    by_cases hall : 100 ≤ pct
    · nlinarith
    · nlinarith

theorem minAvailableBlock_isSome (hv : v.Valid) (hsome : ∃ r ∈ replicas, 0 < r) :
    (minAvailableBlock replicas v).isSome ↔ ∃ r ∈ replicas, 0 < r ∧ r ≤ scaled r v := by
  cases v with
  | int n =>
    simp only [minAvailableBlock, scaled]
    split
    · simp
    · refine iff_of_false nofun ?_
      rintro ⟨r, -, hr, hn⟩
      omega
  | string s =>
    obtain ⟨pct, hpct, hpos⟩ := hv
    simp only [minAvailableBlock, scaled, hpct, Option.bind_some, Option.getD_some]
    split
    · obtain ⟨r, hmem, hr⟩ := hsome
      refine iff_of_true rfl ⟨r, hmem, hr, ?_⟩
      rw [Int.le_ediv_iff_mul_le (by decide)]
      nlinarith
    · split
      · simp
      · refine iff_of_false nofun ?_
        rintro ⟨r, -, hr, hle⟩
        obtain rfl : pct = 0 := by omega
        omega

theorem maxUnavailableBlock_isSome (hv : v.Valid) {total : Nat} (hpos : 0 < total) :
    (maxUnavailableBlock v).isSome ↔ scaled total v ≤ 0 := by
  cases v with
  | int n => simp [maxUnavailableBlock, scaled, Option.isSome_ite]
  | string s =>
    obtain ⟨pct, hpct, hnonneg⟩ := hv
    simp only [maxUnavailableBlock, scaled, hpct, Option.any_some, Option.getD_some,
      Option.isSome_ite, decide_eq_true_eq]
    constructor
    · intro hle
      obtain rfl : pct = 0 := by omega
      simp
    · intro hle
      have hpart : pct * 1 ≤ pct * total := mul_le_mul_of_nonneg_left (by omega) hnonneg
      omega

theorem specBlock_exact_iff (hone : pdb.SetsOne) (hpos : 0 < replicas.sum) :
    ((specBlock pdb replicas).isSome ↔ replicas.sum - desiredHealthy pdb replicas.sum ≤ 0) ↔
      pdb.KeepsAll replicas := by
  obtain ⟨v, hv, ⟨hmin, hmax⟩ | ⟨hmin, hmax⟩⟩ := hone
  · obtain ⟨r, hmem, hr⟩ : ∃ r ∈ replicas, 0 < r := by
      by_contra! hzero
      rw [List.sum_eq_zero fun r hr => Nat.le_zero.1 (hzero r hr)] at hpos
      exact hpos.false
    have hpart := scaled_part hv (List.le_sum_of_mem hmem)
    simp only [specBlock, hmin, hmax, Option.bind_none, Option.none_or, Option.bind_some,
      minAvailableBlock_isSome hv ⟨r, hmem, hr⟩, desiredHealthy, sub_nonpos, keepsAll_iff hmin]
    constructor
    · intro hiff
      by_cases hall : replicas.sum ≤ scaled replicas.sum v
      · exact .inl hall
      · exact .inr fun r hmem hsmall => hall (hiff.1 ⟨r, hmem, hsmall⟩)
    · intro hkeeps
      refine ⟨?_, fun h => ⟨r, hmem, hr, hpart h⟩⟩
      rintro ⟨r, hmem, hsmall⟩
      exact hkeeps.resolve_right fun hnone => hnone r hmem hsmall
  · simp only [specBlock, hmin, hmax, Option.bind_none, Option.or_none, Option.bind_some,
      maxUnavailableBlock_isSome hv hpos, desiredHealthy, PodDisruptionBudget.KeepsAll]
    refine iff_of_true ?_ trivial
    omega

theorem zeroDisruptionsFinding_iff (ix : WorkloadIndex) {m : Int}
    (hmin : pdb.minAvailable = some (.int m)) (hmax : pdb.maxUnavailable = none)
    (matched : List Workload) :
    (∃ w, ix.zeroDisruptionsFinding pdb matched = some (.minAvailable w)) ↔
      ∃ w ∈ matched, w.kind ≠ bytes "DaemonSet" ∧ 0 < ix.comparedReplicas w ∧
        ix.comparedReplicas w ≤ m := by
  simp only [WorkloadIndex.zeroDisruptionsFinding, hmin, hmax, Option.any_none,
    Bool.false_eq_true, if_false, Option.bind_some]
  split
  · simp [← Option.isSome_iff_exists, and_assoc]
  · refine iff_of_false nofun ?_
    rintro ⟨w, -, -, hw, hle⟩
    omega

/-- Both checks agree with the rule just if the budget keeps all pods, or of no workload that
    has pods all. -/
theorem blocking_exact_iff (ix : WorkloadIndex) (pdb : PodDisruptionBudget)
    (deployments statefulsets : List Workload) (hone : pdb.SetsOne)
    (hpos : 0 < (matchedWorkloadReplicas pdb deployments statefulsets).sum) :
    let replicas := matchedWorkloadReplicas pdb deployments statefulsets
    let matched := (deployments ++ statefulsets).filter (pdbMatchesLabels pdb)
    let floors := (matched.map ix.replicaFloor).sum
    (((∃ b, evaluateBlockingPDB pdb deployments statefulsets = some (.spec b)) ↔
          replicas.sum - desiredHealthy pdb replicas.sum ≤ 0) ∧
        ∀ m w, pdb.minAvailable = some (.int m) →
          ix.zeroDisruptionsFinding pdb matched = some (.minAvailable w) → floors ≤ m) ↔
      pdb.KeepsAll replicas ∧
        ∀ m, pdb.minAvailable = some (.int m) → floors ≤ m ∨
          ∀ w ∈ matched, w.kind ≠ bytes "DaemonSet" →
            ¬(0 < ix.comparedReplicas w ∧ ix.comparedReplicas w ≤ m) := by
  intro replicas matched floors
  have hspec : (∃ b, evaluateBlockingPDB pdb deployments statefulsets = some (.spec b)) ↔
      (specBlock pdb replicas).isSome := by
    unfold evaluateBlockingPDB
    split <;> simp_all [replicas]
  rw [hspec]
  refine and_congr (specBlock_exact_iff hone hpos) (forall_congr' fun m => ?_)
  rw [forall_comm]
  refine forall_congr' fun hmin => ?_
  have hmax : pdb.maxUnavailable = none := by
    obtain ⟨v, -, h | h⟩ := hone
    · exact h.2
    · cases hmin.symm.trans h.1
  rw [← exists_imp, zeroDisruptionsFinding_iff ix hmin hmax, imp_iff_or_not]
  simp only [not_exists, not_and]

/-- Two Deployments of two replicas each. -/
def pairs : List Workload :=
  [⟨bytes "Deployment", [], bytes "api", some 2, ∅⟩, ⟨bytes "Deployment", [], bytes "web", some 2, ∅⟩]

/-- A budget over all of them that keeps `m` available. -/
def keeping (m : Int) : PodDisruptionBudget := ⟨[], some fun _ => true, some (.int m), none, 4, 4 - m⟩

theorem keeping_one_not_blocking :
    ¬∃ b, evaluateBlockingPDB (keeping 1) pairs [] = some (.spec b) := by
  intro hb
  have h := blocking_exact_iff ⟨[], false⟩ (keeping 1) pairs []
    ⟨.int 1, Int.one_nonneg, .inl ⟨rfl, rfl⟩⟩ (by decide)
  refine absurd ((h.2 ⟨.inr (by decide), ?_⟩).1.1 hb) (by decide)
  rintro _ ⟨⟩
  exact .inr (by decide +kernel)

theorem keeping_two_called_blocking :
    evaluateBlockingPDB (keeping 2) pairs [] = some (.spec (.minAvailable (some 2))) ∧
      (matchedWorkloadReplicas (keeping 2) pairs []).sum - desiredHealthy (keeping 2) 4 = 2 ∧
      (WorkloadIndex.zeroDisruptionsFinding ⟨[], false⟩ (keeping 2) pairs).isSome ∧
      (pairs.map (WorkloadIndex.replicaFloor ⟨[], false⟩)).sum = 4 :=
  ⟨rfl, by decide, by decide +kernel, by decide⟩

end Lookout.Audit
