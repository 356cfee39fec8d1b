-- SUMMARY: The node inventory, and the statistics of every domain, which each node event keeps equal to a recount.
import Lookout.Leeway.Intent

/-!
# Node inventory

The inventory keeps a few facts of every node, among them its domain on every configured
topology key. It reports what a node event changed. For every key it also keeps how many
nodes are in each domain and what they can hold. A node event takes the old contribution of
its node out and puts the new one in. The sums are integers without a bound. The generation
and the times of cordons are not part of this model.
-/

namespace Lookout.TopologyDrift

open Leeway

structure Taint where
  key : GoString
  value : GoString
  effect : GoString
  deriving DecidableEq, Repr

structure NodeCondition where
  type : GoString
  status : GoString
  deriving DecidableEq, Repr

/-- `corev1.Node`, with the allocatable resources in the units the inventory keeps. -/
structure Node where
  name : GoString
  labels : Map GoString GoString := ∅
  unschedulable : Bool := false
  taints : List Taint := []
  conditions : List NodeCondition := []
  allocatableCPUMilli : Option Int := none
  allocatableMemBytes : Option Int := none

structure NodeFacts where
  domains : List Domain
  ready : Bool
  schedulable : Bool
  cpuMilli : Int
  memBytes : Int
  taints : List Taint
  labels : Map GoString GoString
  deriving DecidableEq

/-- What a node event altered. -/
structure Change where
  added : Bool := false
  removed : Bool := false
  domainsChanged : Bool := false
  eligibilityChanged : Bool := false
  deriving DecidableEq, Repr

def Change.any (c : Change) : Bool :=
  c.added || c.removed || c.domainsChanged || c.eligibilityChanged

structure Inventory where
  keys : List TopologyKey
  distinct : keys.Nodup
  nodes : Map GoString NodeFacts := ∅

namespace Inventory

/-- The keys without empty ones and without repetitions, in the order they are first seen. -/
def axes (keys : List TopologyKey) : List TopologyKey :=
  keys.foldl (fun seen k => if k = [] ∨ k ∈ seen then seen else seen ++ [k]) []

theorem nodup_axes (keys : List TopologyKey) : (axes keys).Nodup := by
  refine List.foldlRecOn (motive := List.Nodup) keys _ List.nodup_nil fun seen h k _ => ?_
  split
  next => exact h
  next hk =>
    refine List.nodup_append.mpr ⟨h, List.nodup_singleton k, ?_⟩
    rintro a ha b hb rfl
    exact hk (Or.inr (List.mem_singleton.mp hb ▸ ha))

/-- `NewInventory` -/
def new (keys : List TopologyKey) : Inventory where
  keys := axes keys
  distinct := nodup_axes keys

def betaFallback : List (TopologyKey × GoString) :=
  [(zone, bytes "failure-domain.beta.kubernetes.io/zone"),
   (bytes "topology.kubernetes.io/region", bytes "failure-domain.beta.kubernetes.io/region")]

/-- `topologyValue`: the label of a key, or the label it had before. -/
def topologyValue (labels : Map GoString GoString) (key : TopologyKey) : GoString :=
  let v := Map.getD labels key []
  if v ≠ [] then v
  else match betaFallback.lookup key with
    | some beta => Map.getD labels beta []
    | none => []

def factsOf (inv : Inventory) (node : Node) : NodeFacts where
  domains := inv.keys.map fun key => normaliseDomain (topologyValue node.labels key)
  ready := match node.conditions.find? (fun c => c.type = bytes "Ready") with
    | some c => c.status = bytes "True"
    | none => false
  schedulable := !node.unschedulable
  cpuMilli := node.allocatableCPUMilli.getD 0
  memBytes := node.allocatableMemBytes.getD 0
  taints := node.taints
  labels := node.labels

/-- `Upsert` -/
def upsert (inv : Inventory) (node : Node) : Inventory × Change :=
  if node.name = [] then (inv, {})
  else
    let next := inv.factsOf node
    match inv.nodes.lookup node.name with
    | none =>
      ({ inv with nodes := inv.nodes.insert node.name next },
        { added := true, domainsChanged := true, eligibilityChanged := true })
    | some prev =>
      let ch : Change :=
        { domainsChanged := prev.domains ≠ next.domains
          eligibilityChanged := prev.ready ≠ next.ready || prev.schedulable ≠ next.schedulable ||
            prev.cpuMilli ≠ next.cpuMilli || prev.memBytes ≠ next.memBytes ||
            prev.taints ≠ next.taints || prev.labels ≠ next.labels }
      if !ch.any then (inv, ch)
      else ({ inv with nodes := inv.nodes.insert node.name next }, ch)

/-- `Remove` -/
def remove (inv : Inventory) (name : GoString) : Inventory × Change :=
  match inv.nodes.lookup name with
  | none => (inv, {})
  | some _ =>
    ({ inv with nodes := inv.nodes.erase name },
      { removed := true, domainsChanged := true, eligibilityChanged := true })

def domainsOf (inv : Inventory) (nodeName : GoString) : Option (List Domain) :=
  (inv.nodes.lookup nodeName).map (·.domains)

def unknownTuple (inv : Inventory) : List Domain := inv.keys.map fun _ => domainUnknown

/-- The domains a pod on a node counts in. -/
def tupleOf (inv : Inventory) (nodeName : GoString) : List Domain :=
  (inv.domainsOf nodeName).getD inv.unknownTuple

/-! ## What an event changes -/

variable {n : GoString} (inv : Inventory)

@[simp] theorem upsert_keys (node : Node) : (inv.upsert node).1.keys = inv.keys := by
  unfold upsert
  dsimp only
  repeat' split
  all_goals rfl

@[simp] theorem remove_keys (name : GoString) : (inv.remove name).1.keys = inv.keys := by
  unfold remove
  split <;> rfl

/-- An upsert without a change leaves the facts that it would have written. -/
theorem upsert_nodes {node : Node} (hname : node.name ≠ []) :
    (inv.upsert node).1.nodes = inv.nodes.insert node.name (inv.factsOf node) := by
  unfold upsert
  rw [if_neg hname]
  dsimp only
  split
  next => rfl
  next prev hprev =>
    split
    next hsame =>
      simp only [Change.any, Bool.not_eq_true', Bool.or_eq_false_iff, decide_eq_false_iff_not,
        ne_eq, not_not] at hsame
      obtain ⟨⟨-, hdomains⟩, ⟨⟨⟨⟨hready, hschedulable⟩, hcpu⟩, hmem⟩, htaints⟩, hlabels⟩ := hsame
      have hfacts : prev = inv.factsOf node := by
        cases prev
        rw [NodeFacts.mk.injEq]
        exact ⟨hdomains, hready, hschedulable, hcpu, hmem, htaints, hlabels⟩
      rw [Map.insert_of_lookup (hfacts ▸ hprev)]
    next => rfl

theorem remove_nodes (name : GoString) : (inv.remove name).1.nodes = inv.nodes.erase name := by
  unfold remove
  split
  next hnone => exact (Map.erase_of_lookup_none hnone).symm
  next => rfl

/-- An upsert moves at most the domains of its node, and says so. -/
theorem tupleOf_upsert (node : Node)
    (h : n ≠ node.name ∨ (inv.upsert node).2.domainsChanged = false) :
    (inv.upsert node).1.tupleOf n = inv.tupleOf n := by
  have hother : ∀ facts, n ≠ node.name →
      ({ inv with nodes := inv.nodes.insert node.name facts } : Inventory).tupleOf n =
        inv.tupleOf n := by
    intro facts hn
    simp [tupleOf, domainsOf, unknownTuple, hn]
  unfold upsert at h ⊢
  split
  · rfl
  next hname =>
    simp only [hname, if_false] at h
    cases hprev : inv.nodes.lookup node.name with
    | none =>
      simp only [hprev, Bool.true_eq_false, or_false] at h
      exact hother _ h
    | some prev =>
      simp only [hprev] at h ⊢
      split
      · rfl
      next hany =>
        simp only [hany] at h
        rcases h with hn | hsame
        · exact hother _ hn
        · by_cases hn : n = node.name
          · have hdomains : prev.domains = (inv.factsOf node).domains := by simpa using hsame
            subst hn
            simp [tupleOf, domainsOf, hprev, hdomains]
          · exact hother _ hn

theorem tupleOf_remove {name : GoString} (h : n ≠ name ∨ (inv.remove name).2.removed = false) :
    (inv.remove name).1.tupleOf n = inv.tupleOf n := by
  unfold remove at h ⊢
  split
  next => rfl
  next prev hprev =>
    simp only [hprev, Bool.true_eq_false, or_false] at h
    simp [tupleOf, domainsOf, unknownTuple, h]

end Inventory

/-! ## Domain statistics -/

structure DomainStats where
  nodes : Int := 0
  usable : Int := 0
  ready : Int := 0
  allocatableCPUMilli : Int := 0
  allocatableMemBytes : Int := 0
  deriving DecidableEq, Repr

def NodeFacts.domain (f : NodeFacts) (ordinal : Nat) : Domain :=
  f.domains.getD ordinal domainUnknown

def NodeFacts.usable (f : NodeFacts) : Bool := f.ready && f.schedulable

namespace DomainStats

/-- The contribution of a node, put in or taken out. -/
def add (f : NodeFacts) (sign : Int) (s : DomainStats) : DomainStats :=
  let s := { s with nodes := s.nodes + sign }
  let s := if f.ready then { s with ready := s.ready + sign } else s
  if f.usable then
    { s with
      usable := s.usable + sign
      allocatableCPUMilli := s.allocatableCPUMilli + sign * f.cpuMilli
      allocatableMemBytes := s.allocatableMemBytes + sign * f.memBytes }
  else s

/-- The statistics of these nodes, computed from scratch. -/
def recount (fs : Multiset NodeFacts) : DomainStats where
  nodes := fs.card
  usable := fs.countP (·.usable)
  ready := fs.countP (·.ready)
  allocatableCPUMilli := ((fs.filter (·.usable)).map (·.cpuMilli)).sum
  allocatableMemBytes := ((fs.filter (·.usable)).map (·.memBytes)).sum

variable {f : NodeFacts} {fs : Multiset NodeFacts}

theorem recount_cons : recount (f ::ₘ fs) = add f 1 (recount fs) := by
  cases hr : f.ready <;> cases hu : f.usable <;> simp [recount, add, hr, hu, add_comm]

theorem add_recount_cons : add f (-1) (recount (f ::ₘ fs)) = recount fs := by
  rw [recount_cons]
  cases hr : f.ready <;> cases hu : f.usable <;> simp [add, hr, hu]

/-- The row of a domain with these nodes. A domain without nodes has none. -/
def row (fs : Multiset NodeFacts) : Option DomainStats :=
  if fs = 0 then none else some (recount fs)

/-- The row is kept as long as it counts a node. -/
def keep (d : Domain) (s : DomainStats) (stats : Map Domain DomainStats) :
    Map Domain DomainStats :=
  if s.nodes ≤ 0 then stats.erase d else stats.insert d s

variable {stats : Map Domain DomainStats}

theorem lookup_keep (d d' : Domain) :
    (keep d (recount fs) stats).lookup d' = if d' = d then row fs else stats.lookup d' := by
  unfold keep row
  have hnodes : (recount fs).nodes ≤ 0 ↔ fs = 0 := by simp [recount]
  by_cases hfs : fs = 0
  · rw [if_pos (hnodes.2 hfs), if_pos hfs, Map.lookup_erase]
  · rw [if_neg (mt hnodes.1 hfs), if_neg hfs, Map.lookup_insert]

/-- `addStats`, on one topology key -/
def addStats (f : NodeFacts) (sign : Int) (ordinal : Nat) (stats : Map Domain DomainStats) :
    Map Domain DomainStats :=
  match stats.lookup (f.domain ordinal) with
  | none => if sign < 0 then stats else keep (f.domain ordinal) (add f sign {}) stats
  | some s => keep (f.domain ordinal) (add f sign s) stats

end DomainStats

open DomainStats

/-- The nodes in a domain. -/
def nodesIn (nodes : Map GoString NodeFacts) (ordinal : Nat) (d : Domain) : Multiset NodeFacts :=
  Map.gather (·.domain ordinal = d) id nodes

/-- The rows on a topology key are those of a recount. -/
def Recounted (nodes : Map GoString NodeFacts) (ordinal : Nat) (stats : Map Domain DomainStats) :
    Prop :=
  ∀ d, stats.lookup d = row (nodesIn nodes ordinal d)

variable {nodes nodes' : Map GoString NodeFacts} {stats : Map Domain DomainStats} {n : GoString}
  {f : NodeFacts}

namespace Recounted

variable {i : Nat} (h : Recounted nodes i stats)
include h

/-- It is enough to keep the row of the one domain whose nodes change. -/
theorem of_keep (hsame : ∀ d ≠ f.domain i, nodesIn nodes' i d = nodesIn nodes i d) :
    Recounted nodes' i (keep (f.domain i) (recount (nodesIn nodes' i (f.domain i))) stats) := by
  intro d
  rw [lookup_keep]
  split
  next hd => rw [hd]
  next hd => rw [h, hsame d hd]

theorem put (hfree : nodes.lookup n = none) :
    Recounted (nodes.insert n f) i (addStats f 1 i stats) := by
  have hnodes : ∀ d, nodesIn (nodes.insert n f) i d =
      if f.domain i = d then f ::ₘ nodesIn nodes i d else nodesIn nodes i d :=
    fun d => Map.gather_insert _ id hfree
  have hadd : addStats f 1 i stats =
      keep (f.domain i) (recount (nodesIn (nodes.insert n f) i (f.domain i))) stats := by
    rw [hnodes, if_pos rfl, recount_cons, addStats, h, row]
    by_cases hnone : nodesIn nodes i (f.domain i) = 0
    · rw [if_pos hnone, hnone]
      rfl
    · rw [if_neg hnone]
  rw [hadd]
  exact h.of_keep fun d hd => (hnodes d).trans (if_neg (Ne.symm hd))

theorem take (hheld : nodes.lookup n = some f) :
    Recounted (nodes.erase n) i (addStats f (-1) i stats) := by
  have hnodes : ∀ d, nodesIn nodes i d = if f.domain i = d then f ::ₘ nodesIn (nodes.erase n) i d
      else nodesIn (nodes.erase n) i d := fun d => Map.gather_erase _ id hheld
  have hadd : addStats f (-1) i stats =
      keep (f.domain i) (recount (nodesIn (nodes.erase n) i (f.domain i))) stats := by
    rw [addStats, h, hnodes, if_pos rfl, row, if_neg Multiset.cons_ne_zero]
    dsimp only
    rw [add_recount_cons]
  rw [hadd]
  exact h.of_keep fun d hd => ((hnodes d).trans (if_neg (Ne.symm hd))).symm

end Recounted

/-- The inventory with its statistics by the ordinal of the topology key. Those beyond the
    configured keys are in the model only. -/
structure StatInventory where
  inv : Inventory
  stats : Nat → Map Domain DomainStats := fun _ => ∅

inductive NodeCall where
  | upsert (node : Node)
  | remove (name : GoString)

namespace NodeCall

/-- The node that the call is about. -/
def name : NodeCall → GoString
  | .upsert node => node.name
  | .remove name => name

/-- What the call leaves of its node. -/
def facts (inv : Inventory) : NodeCall → Option NodeFacts
  | .upsert node => some (inv.factsOf node)
  | .remove _ => none

end NodeCall

namespace StatInventory

/-- The statistics without those of a node that is known. -/
def withdraw (s : StatInventory) (name : GoString) (i : Nat) : Map Domain DomainStats :=
  match s.inv.nodes.lookup name with
  | none => s.stats i
  | some prev => addStats prev (-1) i (s.stats i)

/-- `Upsert` and `Remove` -/
def step (s : StatInventory) : NodeCall → StatInventory
  | .upsert node =>
    ⟨(s.inv.upsert node).1, fun i =>
      if !(s.inv.upsert node).2.any then s.stats i
      else addStats (s.inv.factsOf node) 1 i (s.withdraw node.name i)⟩
  | .remove name => ⟨(s.inv.remove name).1, s.withdraw name⟩

variable {s : StatInventory} {i : Nat} (h : Recounted s.inv.nodes i (s.stats i))
include h

theorem recounted_withdraw (name : GoString) :
    Recounted (s.inv.nodes.erase name) i (s.withdraw name i) := by
  unfold withdraw
  split
  next hnone => rwa [Map.erase_of_lookup_none hnone]
  next prev hheld => exact h.take hheld

theorem recounted_step (c : NodeCall) : Recounted (s.step c).inv.nodes i ((s.step c).stats i) := by
  cases c with
  | upsert node =>
    have hnodes : (s.inv.upsert node).1.nodes = if !(s.inv.upsert node).2.any then s.inv.nodes
        else s.inv.nodes.insert node.name (s.inv.factsOf node) := by
      unfold Inventory.upsert
      dsimp only
      split
      next => rfl
      split
      next => rfl
      next => split <;> simp_all
    simp only [step, hnodes]
    split
    next => exact h
    next =>
      rw [← Map.insert_erase]
      exact (recounted_withdraw h node.name).put (Finmap.lookup_erase _ _)
  | remove name =>
    simp only [step, Inventory.remove_nodes]
    exact recounted_withdraw h name

omit h

@[simp] theorem step_keys (c : NodeCall) : (s.step c).inv.keys = s.inv.keys := by
  cases c <;> simp [step]

theorem lookup_step {n : GoString} (hn : n ≠ []) (c : NodeCall) : (s.step c).inv.nodes.lookup n =
    if n = c.name then c.facts s.inv else s.inv.nodes.lookup n := by
  cases c with
  | remove name => rw [step, Inventory.remove_nodes, Map.lookup_erase, NodeCall.name, NodeCall.facts]
  | upsert node =>
    rw [NodeCall.name, NodeCall.facts]
    by_cases hnil : node.name = []
    · rw [if_neg (hnil ▸ hn), step, Inventory.upsert, if_pos hnil]
    · rw [step, Inventory.upsert_nodes _ hnil, Map.lookup_insert]

/-- The inventory after these calls. -/
def run (keys : List TopologyKey) (calls : List NodeCall) : StatInventory :=
  calls.foldl step { inv := Inventory.new keys }

theorem run_keys (keys : List TopologyKey) (calls : List NodeCall) :
    (run keys calls).inv.keys = (Inventory.new keys).keys :=
  List.foldlRecOn (motive := fun s : StatInventory => s.inv.keys = (Inventory.new keys).keys) calls
    _ rfl fun _ h c _ => (step_keys c).trans h

/-- The inventory holds what the last call about a node left of it. -/
theorem lookup_run (keys : List TopologyKey) (calls : List NodeCall) {n : GoString} (hn : n ≠ []) :
    (run keys calls).inv.nodes.lookup n =
      (calls.reverse.find? (·.name = n)).bind (·.facts (Inventory.new keys)) := by
  induction calls using List.reverseRecOn with
  | nil => rfl
  | append_singleton calls c ih =>
    have hstep : run keys (calls ++ [c]) = (run keys calls).step c := List.foldl_append
    have hfacts : c.facts (run keys calls).inv = c.facts (Inventory.new keys) := by
      cases c with
      | upsert node => simp only [NodeCall.facts, Inventory.factsOf, run_keys]
      | remove name => rfl
    rw [hstep, lookup_step hn, hfacts, List.reverse_append, List.reverse_singleton,
      List.singleton_append, List.find?_cons]
    by_cases hc : n = c.name
    · simp [hc]
    · simp [hc, Ne.symm hc, ih]

end StatInventory

open StatInventory

/-- Whatever nodes are upserted and removed, the inventory holds the facts of the last upsert
    of each node that was not removed since, and the statistics are those of a recount. -/
theorem stats_recounted (keys : List TopologyKey) (calls : List NodeCall) (i : Nat) :
    (∀ n ≠ [], (run keys calls).inv.nodes.lookup n =
      (calls.reverse.find? (·.name = n)).bind (·.facts (Inventory.new keys))) ∧
    Recounted (run keys calls).inv.nodes i ((run keys calls).stats i) :=
  ⟨fun _ hn => lookup_run keys calls hn,
    List.foldlRecOn (motive := fun s : StatInventory => Recounted s.inv.nodes i (s.stats i)) calls _
      (fun _ => rfl) fun _ h c _ => recounted_step h c⟩

namespace MoveSample

def nodeIn (name domain : String) : Node where
  name := bytes name
  labels := (∅ : Map GoString GoString).insert zone (bytes domain)
  conditions := [⟨bytes "Ready", bytes "True"⟩]
  allocatableCPUMilli := some 4000

/-- One of three nodes moves to another zone, and one goes. -/
def moves : List NodeCall :=
  [.upsert (nodeIn "n1" "a"), .upsert (nodeIn "n2" "a"), .upsert (nodeIn "n3" "a"),
    .upsert (nodeIn "n1" "b"), .remove (bytes "n2")]

end MoveSample

open MoveSample in
theorem moves_recounted :
    (run [zone] moves).inv.nodes.lookup (bytes "n1") =
        some ((Inventory.new [zone]).factsOf (nodeIn "n1" "b")) ∧
      (run [zone] moves).inv.nodes.lookup (bytes "n2") = none ∧
      ((run [zone] moves).stats 0).lookup (bytes "a") =
        some { nodes := 1, usable := 1, ready := 1, allocatableCPUMilli := 4000 } ∧
      ((run [zone] moves).stats 0).lookup (bytes "b") =
        some { nodes := 1, usable := 1, ready := 1, allocatableCPUMilli := 4000 } := by
  obtain ⟨hnodes, hstats⟩ := stats_recounted [zone] moves 0
  exact ⟨(hnodes _ (by decide +kernel)).trans (by decide +kernel),
    (hnodes _ (by decide +kernel)).trans (by decide +kernel),
    (hstats _).trans (by decide +kernel), (hstats _).trans (by decide +kernel)⟩

end Lookout.TopologyDrift
