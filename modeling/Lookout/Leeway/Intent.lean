-- SUMMARY: Subjects, their placement intents, the distributions these are held against, and the domains a subject may use.
import Lookout.Graph.Types
import Lookout.Leeway.Apportion
import Mathlib.Data.Fintype.Defs

/-!
# Intents and distributions

A subject is the thing whose distribution is tracked. The store names it by one string, the
kind, the namespace and the name with slashes between them, and reads it back after a
restart. A cluster-scoped subject leaves the namespace out.

An intent says what a subject wants on one topology key. Several sources may speak
about the same key. `resolveIntents` keeps the one of highest precedence and the
others as evidence. A skew bound that the scheduler enforces is carried over to a
winner that states none. Of an intent's fields, those that shape the eligible set (the node
inclusion policies, `MinDomains`, `EligibleDomains`) and its confidence label are left out.
Nothing modelled here reads them.

A distribution counts a subject's objects per domain and scheduling state. A domain that
holds nothing has no row. An `Eligibility` lists the domains a subject could be placed in
and, in the same order, what each can hold. An intent's expectation is apportioned by
`weightsFor`: its declared shares, or the weighting in effect for it.
-/

namespace Lookout.Leeway

/-! ## Subjects -/

/-- Identifies a subject. The namespace is empty for a cluster-scoped one. -/
structure SubjectRef where
  kind : GoString
  namespace_ : GoString
  name : GoString
  deriving DecidableEq, Repr

/-- `String()`. -/
def SubjectRef.string (s : SubjectRef) : GoString :=
  if s.namespace_ = [] then s.kind ++ slash :: s.name
  else s.kind ++ slash :: (s.namespace_ ++ slash :: s.name)

def parseSubjectRef (s : GoString) : Option SubjectRef :=
  match s.splitOn slash with
  | [kind, name] => if kind = [] ∨ name = [] then none else some ⟨kind, [], name⟩
  | [kind, ns, name] =>
    if kind = [] ∨ ns = [] ∨ name = [] then none else some ⟨kind, ns, name⟩
  | _ => none

/-- A subject as the cluster names them: no segment holds a slash, and only the namespace
    may be empty. -/
structure SubjectRef.Named (s : SubjectRef) : Prop where
  kind : s.kind ≠ [] ∧ slash ∉ s.kind
  namespace_ : slash ∉ s.namespace_
  name : s.name ≠ [] ∧ slash ∉ s.name

instance (s : SubjectRef) : Decidable s.Named :=
  decidable_of_iff ((s.kind ≠ [] ∧ slash ∉ s.kind) ∧ slash ∉ s.namespace_ ∧
    (s.name ≠ [] ∧ slash ∉ s.name)) ⟨fun h => ⟨h.1, h.2.1, h.2.2⟩, fun h => ⟨h.1, h.2, h.3⟩⟩

variable {s : SubjectRef}

/-- What `String` wrote reads back. -/
theorem parse_string (h : s.Named) : parseSubjectRef s.string = some s := by
  obtain ⟨kind, ns, name⟩ := s
  obtain ⟨⟨hkind, hkindSlash⟩, hnsSlash, ⟨hname, hnameSlash⟩⟩ := h
  by_cases hns : ns = []
  · have hsplit : ([slash].intercalate [kind, name]).splitOn slash = [kind, name] :=
      List.splitOn_intercalate slash (by simp [hkindSlash, hnameSlash]) (by simp)
    have htext : [slash].intercalate [kind, name] = kind ++ slash :: name := by
      simp
    rw [parseSubjectRef, SubjectRef.string, if_pos hns, ← htext, hsplit]
    simp [hkind, hname, hns]
  · have hsplit : ([slash].intercalate [kind, ns, name]).splitOn slash = [kind, ns, name] :=
      List.splitOn_intercalate slash (by simp [hkindSlash, hnsSlash, hnameSlash]) (by simp)
    have htext : [slash].intercalate [kind, ns, name] =
        kind ++ slash :: (ns ++ slash :: name) := by simp
    rw [parseSubjectRef, SubjectRef.string, if_neg hns, ← htext, hsplit]
    simp [hkind, hname, hns]

/-- A text that reads as a subject is what the subject is written as. -/
theorem string_of_parse {text : GoString} (h : parseSubjectRef text = some s) :
    s.string = text := by
  have hjoin : [slash].intercalate (text.splitOn slash) = text := List.intercalate_splitOn slash
  unfold parseSubjectRef at h
  split at h
  next kind name hsplit =>
    rw [hsplit] at hjoin
    split at h
    · cases h
    · cases h
      rw [← hjoin]
      simp [SubjectRef.string]
  next kind ns name hsplit =>
    rw [hsplit] at hjoin
    split at h
    · cases h
    next hempty =>
      cases h
      have hns : ns ≠ [] := fun hnil => hempty (Or.inr (Or.inl hnil))
      rw [← hjoin, SubjectRef.string, if_neg hns]
      simp
  next => cases h

theorem string_ne_nil (s : SubjectRef) : s.string ≠ [] := by
  unfold SubjectRef.string
  split <;> simp

/-! ## Intents -/

/-- The value of a topology label. -/
abbrev Domain : Type := GoString

abbrev TopologyKey : Type := GoString

def zone : TopologyKey := bytes "topology.kubernetes.io/zone"

/-- The domain of nodes without the label. -/
def domainUnknown : Domain := bytes "__unknown__"

inductive IntentMode where
  | spread
  | colocate
  | ignore
  deriving DecidableEq, Repr

/-- Where an intent came from, highest precedence first. -/
inductive IntentSource where
  | policyCRD
  | workloadAnnotation
  | topologySpreadConstraint
  | podAntiAffinityRequired
  | podAffinityRequired
  | clusterDefaultDeclared
  | podAntiAffinityPreferred
  | podAffinityPreferred
  | learnedBaseline
  | clusterDefaultAssumed
  deriving DecidableEq, Repr

namespace IntentSource

def all : List IntentSource :=
  [policyCRD, workloadAnnotation, topologySpreadConstraint, podAntiAffinityRequired,
    podAffinityRequired, clusterDefaultDeclared, podAntiAffinityPreferred, podAffinityPreferred,
    learnedBaseline, clusterDefaultAssumed]

instance : Fintype IntentSource where
  elems := ⟨all, by decide⟩
  complete s := by cases s <;> decide

/-- The place in the order of precedence. -/
def rank : IntentSource → Nat
  | policyCRD => 0
  | workloadAnnotation => 1
  | topologySpreadConstraint => 2
  | podAntiAffinityRequired => 3
  | podAffinityRequired => 4
  | clusterDefaultDeclared => 5
  | podAntiAffinityPreferred => 6
  | podAffinityPreferred => 7
  | learnedBaseline => 8
  | clusterDefaultAssumed => 9

/-- `s` takes precedence over `other`. -/
def outranks (s other : IntentSource) : Bool := s.rank < other.rank

theorem rank_injective {s t : IntentSource} (h : s.rank = t.rank) : s = t := by
  revert s t
  decide

theorem rank_le_assumed (s : IntentSource) : s.rank ≤ clusterDefaultAssumed.rank := by
  revert s
  decide

end IntentSource

/-- What the scheduler does with a pod that would break a spread constraint. -/
inductive UnsatisfiableAction where
  | unset
  | doNotSchedule
  | scheduleAnyway
  deriving DecidableEq, Repr

/-- How expected shares are apportioned over the eligible domains. -/
inductive Weighting where
  | auto
  | equal
  | nodeCount
  | allocatableCPU
  | allocatableMemory
  deriving DecidableEq, Repr

/-- One observation that contributed to an intent. -/
structure EvidenceItem where
  source : IntentSource
  detail : GoString
  ignored : Bool
  deriving DecidableEq

structure Intent where
  topologyKey : TopologyKey
  mode : IntentMode := .spread
  source : IntentSource
  maxSkew : Option Int := none
  whenUnsatisfiable : UnsatisfiableAction := .unset
  maxPerDomain : Option Int := none
  weighting : Weighting := .auto
  domainCaps : Map Domain Int := ∅
  explicitShares : Map Domain Weight := ∅
  bands : Map Domain Weight := ∅
  severity : GoString := []
  evidence : List EvidenceItem := []
  deriving DecidableEq

namespace Intent

/-- Somebody other than the sentinel asserted the intent. -/
def declaredContract (i : Intent) : Bool := i.source ≠ .clusterDefaultAssumed

/-- A declared ceiling on the objects of one domain. -/
def hardPerDomainContract (i : Intent) : Bool := i.declaredContract && i.maxPerDomain.isSome

/-- A declared skew bound that the scheduler enforces. -/
def hardSkewContract (i : Intent) : Bool :=
  i.declaredContract && i.maxSkew.isSome && i.whenUnsatisfiable = .doNotSchedule

theorem hardSkewContract_iff {i : Intent} :
    i.hardSkewContract = true ↔
      i.source ≠ .clusterDefaultAssumed ∧ i.maxSkew.isSome ∧ i.whenUnsatisfiable = .doNotSchedule := by
  simp [hardSkewContract, declaredContract, and_assoc]

/-- A losing candidate as evidence: itself and its own trail, all marked as ignored. -/
def demote (losing : Intent) : List EvidenceItem :=
  { source := losing.source, detail := bytes "superseded by higher-precedence source",
    ignored := true } ::
    losing.evidence.map fun e => { e with ignored := true }

/-- The winner, with the loser's enforced skew bound when it states none itself. -/
def carryContract (winner losing : Intent) : Intent :=
  if winner.mode = .ignore then winner
  else if winner.maxSkew.isSome ∨ losing.maxSkew.isNone then winner
  else if losing.source = .clusterDefaultAssumed ∨ losing.whenUnsatisfiable ≠ .doNotSchedule then
    winner
  else { winner with maxSkew := losing.maxSkew, whenUnsatisfiable := losing.whenUnsatisfiable }

/-- One candidate meets the winner so far on its key. -/
def contest (cur : Option Intent) (c : Intent) : Intent :=
  match cur with
  | none => c
  | some cur =>
    if c.source.outranks cur.source then
      carryContract { c with evidence := c.evidence ++ demote cur } cur
    else carryContract { cur with evidence := cur.evidence ++ demote c } c

end Intent

/-- At most one intent per topology key: the highest precedence wins, the first among
    equals. -/
def resolveIntents (candidates : List Intent) : Map TopologyKey Intent :=
  candidates.foldl
    (fun winners c => winners.insert c.topologyKey (Intent.contest (winners.lookup c.topologyKey) c)) ∅

/-! ## Distributions -/

/-- The scheduling state an object is counted under. -/
inductive CountState where
  | running
  | pending
  | unschedulable
  | terminating
  deriving DecidableEq, Repr

/-- The tally of one domain. `pinned` overlaps the others. -/
structure DomainCount where
  running : Int := 0
  pending : Int := 0
  unschedulable : Int := 0
  terminating : Int := 0
  pinned : Int := 0
  deriving DecidableEq, Repr

namespace DomainCount

/-- The counters moved by `d` for one object in a state. -/
def bump (c : DomainCount) (state : CountState) (pinned : Bool) (d : Int) : DomainCount :=
  { running := if state = .running then c.running + d else c.running
    pending := if state = .pending then c.pending + d else c.pending
    unschedulable := if state = .unschedulable then c.unschedulable + d else c.unschedulable
    terminating := if state = .terminating then c.terminating + d else c.terminating
    pinned := if pinned then c.pinned + d else c.pinned }

def add (c : DomainCount) (state : CountState) (pinned : Bool) : DomainCount :=
  c.bump state pinned 1

def sub (c : DomainCount) (state : CountState) (pinned : Bool) : DomainCount :=
  c.bump state pinned (-1)

def isZero (c : DomainCount) : Bool := c = {}

def ofState (c : DomainCount) : CountState → Int
  | .running => c.running
  | .pending => c.pending
  | .unschedulable => c.unschedulable
  | .terminating => c.terminating

end DomainCount

structure Distribution where
  byDomain : Map Domain DomainCount := ∅
  total : Int := 0
  deriving DecidableEq

/-- An empty label value is the unknown domain. -/
def normaliseDomain (d : Domain) : Domain := if d = [] then domainUnknown else d

namespace Distribution

/-- Count one object. -/
def add (d : Distribution) (domain : Domain) (state : CountState) (pinned : Bool) :
    Distribution :=
  let domain := normaliseDomain domain
  let c := Map.getD d.byDomain domain {}
  { byDomain := d.byDomain.insert domain (c.add state pinned), total := d.total + 1 }

/-- Uncount one object. Removing what was never added changes nothing. -/
def remove (d : Distribution) (domain : Domain) (state : CountState) (pinned : Bool) :
    Distribution :=
  let domain := normaliseDomain domain
  match d.byDomain.lookup domain with
  | none => d
  | some c =>
    let c := c.sub state pinned
    { byDomain := if c.isZero then d.byDomain.erase domain else d.byDomain.insert domain c
      total := d.total - 1 }

/-- The counts over an ordered list of domains, in one state. -/
def counts (d : Distribution) (domains : List Domain) (state : CountState) : List Int :=
  domains.map fun dom => (Map.getD d.byDomain dom {}).ofState state

end Distribution

/-! ## Eligible domains -/

structure Eligibility where
  domains : List Domain
  capacityCPU : List Weight
  capacityMemory : List Weight
  nodeCount : List Int
  capacityRatioTrigger : ℚ := 0
  undeclaredWeighting : Weighting := .auto
  excluded : Map Domain GoString := ∅
  syntheticDomains : Nat := 0
  cpu_aligned : capacityCPU.length = domains.length
  memory_aligned : capacityMemory.length = domains.length
  nodes_aligned : nodeCount.length = domains.length

def capacityWeightingRatioTrigger : ℚ := 5 / 4

/-- The usable capacities among those measured. -/
def usableCapacities (capacities : List Weight) : List ℚ :=
  capacities.filterMap fun
    | .finite q => if q < 0 then none else some q
    | .nan => none
    | .inf _ => none

/-- The capacities differ by more than the trigger allows. -/
def needsCapacityWeightingAt (capacities : List Weight) (trigger : ℚ) : Bool :=
  let trigger := if trigger ≤ 0 then capacityWeightingRatioTrigger else trigger
  if capacities.length < 2 then false
  else
    match usableCapacities capacities with
    | [] => false
    | c :: cs =>
      let minC := cs.foldl min c
      let maxC := cs.foldl max c
      if minC ≤ 0 then true else trigger < maxC / minC

namespace Eligibility

/-- The capacities without the padding for `MinDomains`, which is always the tail. -/
def realCapacityCPU (e : Eligibility) : List Weight :=
  e.capacityCPU.take (e.capacityCPU.length - e.syntheticDomains)

/-- What an intent's weighting means over these domains. An intent that bounds object
    counts does not take the capacity trigger. -/
def effectiveWeighting (e : Eligibility) (intent : Option Intent) : Weighting :=
  let undeclared :=
    if e.undeclaredWeighting ≠ .auto then e.undeclaredWeighting
    else if needsCapacityWeightingAt e.realCapacityCPU e.capacityRatioTrigger then .allocatableCPU
    else .equal
  match intent with
  | none => undeclared
  | some i =>
    if i.weighting ≠ .auto then i.weighting
    else if i.maxSkew.isSome ∨ i.maxPerDomain.isSome then .equal
    else undeclared

def weights (e : Eligibility) : Weighting → List Weight
  | .nodeCount => e.nodeCount.map fun (c : Int) => .finite c
  | .allocatableCPU => e.capacityCPU
  | .allocatableMemory => e.capacityMemory
  | .equal => equalWeights e.domains.length
  | .auto => equalWeights e.domains.length

/-- The weights an intent asks for. A domain its declared shares do not name weighs
    nothing. -/
def weightsFor (e : Eligibility) (intent : Option Intent) : List Weight :=
  match intent with
  | some i =>
    if i.explicitShares ≠ ∅ then
      e.domains.map fun d => Map.getD i.explicitShares d (.finite 0)
    else e.weights (e.effectiveWeighting intent)
  | none => e.weights (e.effectiveWeighting intent)

variable (e : Eligibility)

theorem weights_length (w : Weighting) : (e.weights w).length = e.domains.length := by
  cases w with
  | auto | equal => exact List.length_replicate
  | nodeCount => exact (List.length_map _).trans e.nodes_aligned
  | allocatableCPU => exact e.cpu_aligned
  | allocatableMemory => exact e.memory_aligned

theorem weightsFor_length (intent : Option Intent) :
    (e.weightsFor intent).length = e.domains.length := by
  cases intent with
  | none => exact e.weights_length _
  | some i =>
    simp only [weightsFor]
    split
    · exact List.length_map _
    · exact e.weights_length _

/-- An intent with a skew bound and no weighting or shares of its own is apportioned
    evenly. -/
theorem weightsFor_undeclared {i : Intent} (hskew : i.maxSkew.isSome)
    (hshares : i.explicitShares = ∅) (hweight : i.weighting = .auto ∨ i.weighting = .equal) :
    e.weightsFor (some i) = equalWeights e.domains.length := by
  have heff : e.effectiveWeighting (some i) = .equal := by
    simp only [effectiveWeighting]
    rcases hweight with h | h
    · rw [if_neg (by simp [h]), if_pos (Or.inl hskew)]
    · rw [if_pos (by simp [h]), h]
  simp only [weightsFor, hshares, heff]
  rfl

theorem length_eraseIdx_eq {α β : Type} {l : List α} {l' : List β} (h : l.length = l'.length)
    (i : Nat) : (l.eraseIdx i).length = (l'.eraseIdx i).length := by
  rw [List.length_eraseIdx, List.length_eraseIdx, h]

/-- The bucket of unlabelled nodes is dropped when the subject holds nothing there. -/
def dropEmptyUnknown (e : Eligibility) (actual : List Int) : Eligibility × List Int :=
  match e.domains.idxOf? domainUnknown with
  | none => (e, actual)
  | some i =>
    if actual.length ≤ i ∨ actual.getD i 0 ≠ 0 then (e, actual)
    else
      ({ e with
         domains := e.domains.eraseIdx i
         capacityCPU := e.capacityCPU.eraseIdx i
         capacityMemory := e.capacityMemory.eraseIdx i
         nodeCount := e.nodeCount.eraseIdx i
         excluded := e.excluded.insert domainUnknown
          (bytes "nodes carry no value for the topology key and hold none of this subject's objects")
         cpu_aligned := length_eraseIdx_eq e.cpu_aligned i
         memory_aligned := length_eraseIdx_eq e.memory_aligned i
         nodes_aligned := length_eraseIdx_eq e.nodes_aligned i },
        actual.eraseIdx i)

/-- The counts stay in the order of the domains. -/
theorem dropEmptyUnknown_aligned {actual : List Int} (h : actual.length = e.domains.length) :
    (e.dropEmptyUnknown actual).2.length = (e.dropEmptyUnknown actual).1.domains.length := by
  rw [dropEmptyUnknown]
  split
  · exact h
  · split
    · exact h
    · exact length_eraseIdx_eq h _

end Eligibility

end Lookout.Leeway
