-- SUMMARY: The incremental placement counters: the four indexes, the pod and node handlers, and the rebuild from the pod cache.
import Lookout.Graph.Objects
import Lookout.Sources.Objects
import Lookout.TopologyDrift.Inventory

/-!
# Incremental counters

The state counts every pod under its subject, in the domains of its node. It remembers
where it counted each pod, and a pod event moves the counts from there. A node event
moves the pods that are counted on the node.

The informer handlers are atomic here. The node groups, the hints that lead from a
subject to one of its pods, and the notices to the evaluation queue are left out: they
move no count.
-/

namespace Lookout.TopologyDrift

open Leeway
open Sources (UID ObjectName)

/-! ## Pods and their subjects -/

/-- `metav1.OwnerReference` -/
structure OwnerReference where
  kind : GoString
  name : GoString
  controller : Option Bool := none
  deriving DecidableEq, Repr

structure PodCondition where
  type : GoString
  status : GoString
  reason : GoString := []
  deriving DecidableEq, Repr

/-- `corev1.Pod`. Only the pin predicate reads the volume claims. -/
structure Pod where
  uid : UID
  ns : GoString
  name : GoString
  ownerReferences : List OwnerReference := []
  nodeName : GoString := []
  phase : GoString := []
  deletionTimestamp : Option Int := none
  conditions : List PodCondition := []
  volumeClaims : List GoString := []
  deriving DecidableEq, Repr

def Pod.key (pod : Pod) : ObjectName := ⟨pod.ns, pod.name⟩

/-- The owner of an object that controls it, by namespace, kind and name of the object. -/
abbrev OwnerLookup : Type := GoString → GoString → GoString → Option OwnerReference

/-- What a state is made with. -/
structure StateOptions where
  owners : Option OwnerLookup := none
  pinned : Option (Pod → Bool) := none

def controllerOf (refs : List OwnerReference) : Option OwnerReference :=
  refs.find? fun ref => ref.controller = some true

/-- The subject a pod counts under: its controller, or the deployment above its replica set. -/
def resolveSubject (pod : Pod) (lookup : Option OwnerLookup) : Option SubjectRef :=
  match controllerOf pod.ownerReferences with
  | none => none
  | some ctrl =>
    if ctrl.kind = bytes "StatefulSet" ∨ ctrl.kind = bytes "DaemonSet" ∨ ctrl.kind = bytes "Job" then
      some ⟨ctrl.kind, pod.ns, ctrl.name⟩
    else if ctrl.kind = bytes "ReplicaSet" then
      match lookup with
      | none => none
      | some lookup =>
        match lookup pod.ns (bytes "ReplicaSet") ctrl.name with
        | none => none
        | some owner =>
          if owner.kind ≠ bytes "Deployment" then none
          else some ⟨bytes "Deployment", pod.ns, owner.name⟩
    else none

def unschedulable (pod : Pod) : Bool :=
  match pod.conditions.find? (fun c => c.type = bytes "PodScheduled") with
  | some c => c.status = bytes "False" ∧ c.reason = bytes "Unschedulable"
  | none => false

/-- The state a pod counts in, none for a pod that has ended. -/
def podState (pod : Pod) : Option CountState :=
  if pod.phase = bytes "Succeeded" ∨ pod.phase = bytes "Failed" then none
  else if pod.deletionTimestamp.isSome then some .terminating
  else if pod.phase = bytes "Pending" then
    if unschedulable pod then some .unschedulable else some .pending
  else some .running

/-! ## Placements -/

/-- Where a pod was last counted. The domains stand in the order of the topology keys. -/
structure Placement where
  nodeName : GoString
  domains : List Domain
  state : CountState
  pinned : Bool
  deriving DecidableEq, Repr

/-- The domain on a topology key, by its position among the keys. -/
def Placement.domain (p : Placement) (ordinal : Nat) : Domain :=
  p.domains.getD ordinal domainUnknown

structure State where
  inv : Inventory
  placements : Map UID Placement := ∅
  subjects : Map UID SubjectRef := ∅
  byNode : Map GoString (Map UID Unit) := ∅
  counts : Map SubjectRef (Map TopologyKey Distribution) := ∅

namespace State

variable (opts : StateOptions) (s : State)

/-- The configured topology keys. They are those of the inventory and never change. -/
def keys : List TopologyKey := s.inv.keys

/-- `resolvePlacement` -/
def resolvePlacement (inv : Inventory) (pod : Pod) : Option Placement :=
  match podState pod with
  | none => none
  | some state =>
    some
      { nodeName := pod.nodeName
        domains := inv.tupleOf pod.nodeName
        state := state
        pinned := match opts.pinned with
          | some pinned => pinned pod
          | none => false }

/-- `subjectOf`: the subject a pod was counted under, or else the one it has now. -/
def subjectOf (pod : Pod) : Option SubjectRef :=
  match s.subjects.lookup pod.uid with
  | some sub => some sub
  | none => resolveSubject pod opts.owners

/-! ## Counts -/

/-- One round of the loop in `applyLocked`: the placement is counted, or uncounted, on
    one topology key. -/
def applyAxis (p : Placement) (sign : Int) (byKey : Map TopologyKey Distribution)
    (axis : TopologyKey × Nat) : Map TopologyKey Distribution :=
  match byKey.lookup axis.1 with
  | none =>
    if sign < 0 then byKey
    else byKey.insert axis.1 (({} : Distribution).add (p.domain axis.2) p.state p.pinned)
  | some dist =>
    if 0 < sign then byKey.insert axis.1 (dist.add (p.domain axis.2) p.state p.pinned)
    else
      let dist := dist.remove (p.domain axis.2) p.state p.pinned
      if dist.total = 0 then byKey.erase axis.1 else byKey.insert axis.1 dist

/-- The counts after `applyLocked`. -/
def applyCounts (keys : List TopologyKey) (counts : Map SubjectRef (Map TopologyKey Distribution))
    (sub : SubjectRef) (p : Placement) (sign : Int) :
    Map SubjectRef (Map TopologyKey Distribution) :=
  match counts.lookup sub, decide (sign < 0) with
  | none, true => counts
  | row, _ =>
    let byKey := keys.zipIdx.foldl (applyAxis p sign) (row.getD ∅)
    if byKey = ∅ then counts.erase sub else counts.insert sub byKey

/-- `applyLocked` -/
def applyLocked (sub : SubjectRef) (p : Placement) (sign : Int) : State :=
  { s with counts := applyCounts s.keys s.counts sub p sign }

def linkNode (nodeName : GoString) (uid : UID) : State :=
  { s with byNode := s.byNode.insert nodeName ((Map.getD s.byNode nodeName ∅).insert uid ()) }

def unlinkNode (nodeName : GoString) (uid : UID) : State :=
  match s.byNode.lookup nodeName with
  | none => s
  | some set =>
    if set.erase uid = ∅ then { s with byNode := s.byNode.erase nodeName }
    else { s with byNode := s.byNode.insert nodeName (set.erase uid) }

/-- The pod is remembered at a placement and counted there. -/
def seat (uid : UID) (sub : SubjectRef) (p : Placement) : State :=
  let s := { s with placements := s.placements.insert uid p, subjects := s.subjects.insert uid sub }
  (s.linkNode p.nodeName uid).applyLocked sub p 1

/-- `uncount`. A pod without a subject would be taken from the empty one. -/
def uncount (uid : UID) : State :=
  match s.placements.lookup uid with
  | none => s
  | some p =>
    let sub := Map.getD s.subjects uid ⟨[], [], []⟩
    let s := s.applyLocked sub p (-1)
    let s := { s with placements := s.placements.erase uid, subjects := s.subjects.erase uid }
    s.unlinkNode p.nodeName uid

/-! ## Handlers -/

/-- `OnPodUpdate`, which ignores the previous object. -/
def onPodUpdate (_old : Option Pod) (cur : Pod) : State :=
  match resolvePlacement opts s.inv cur with
  | none => s.uncount cur.uid
  | some next =>
    let prev := s.placements.lookup cur.uid
    if prev = some next then s
    else match s.subjectOf opts cur with
      | none => s.uncount cur.uid
      | some sub =>
        let s := match prev with
          | none => s
          | some prev =>
            let s := s.applyLocked sub prev (-1)
            if prev.nodeName ≠ next.nodeName then s.unlinkNode prev.nodeName cur.uid else s
        s.seat cur.uid sub next

def onPodAdd (pod : Pod) : State := s.onPodUpdate opts none pod

/-- What a deletion handler is given: the object, or a tombstone of it. Either may hold
    something that is no object of the handler's kind. -/
inductive Deleted (α : Type) where
  | object (o : α)
  | tombstone (o : Option α)
  | other
  deriving DecidableEq, Repr

def Deleted.obj {α : Type} : Deleted α → Option α
  | .object o => some o
  | .tombstone o => o
  | .other => none

def onPodDelete (obj : Deleted Pod) : State :=
  match obj.obj with
  | none => s
  | some pod => s.uncount pod.uid

/-- One round of the loop in `remapNode`. -/
def remapPod (domains : List Domain) (s : State) (uid : UID) : State :=
  let prev := (s.placements.lookup uid).getD ⟨[], [], .running, false⟩
  let next := { prev with domains := domains }
  if prev = next then s
  else
    let sub := Map.getD s.subjects uid ⟨[], [], []⟩
    let s := s.applyLocked sub prev (-1)
    let s := { s with placements := s.placements.insert uid next }
    s.applyLocked sub next 1

/-- `remapNode`: the pods counted on a node move to its new domains. -/
def remapNode (w : Map.Walk UID) (s : State) (nodeName : GoString) : State :=
  (Map.walk w (Map.getD s.byNode nodeName ∅)).foldl (remapPod (s.inv.tupleOf nodeName)) s

def onNodeUpsert (w : Map.Walk UID) (s : State) (node : Node) : State :=
  let (inv, ch) := s.inv.upsert node
  let s := { s with inv := inv }
  if ch.domainsChanged then s.remapNode w node.name else s

def onNodeDelete (w : Map.Walk UID) (s : State) (obj : Deleted Node) : State :=
  match obj.obj with
  | none => s
  | some node =>
    let (inv, ch) := s.inv.remove node.name
    let s := { s with inv := inv }
    if ch.removed then s.remapNode w node.name else s

/-! ## Rebuild and repair -/

/-- `shardOf`. The division by zero for a multiple of `2 ^ 32` shards is not modelled. -/
def shardOf (sub : SubjectRef) (shards : Nat) : Nat :=
  if shards ≤ 1 then 0 else (fnv32a sub.string).toNat % (shards % 2 ^ 32)

/-- The distributions of one subject, computed from its pods. -/
structure Rebuilt where
  pods : List Pod := []
  counts : Map TopologyKey Distribution := ∅

/-- One round of the loop in `RebuildShard`. -/
def rebuildPod (shard shards : Nat)
    (out : Map SubjectRef Rebuilt) (pod : Pod) : Map SubjectRef Rebuilt :=
  match resolvePlacement opts s.inv pod, s.subjectOf opts pod with
  | some p, some sub =>
    if shardOf sub shards ≠ shard then out
    else
      let r := Map.getD out sub {}
      out.insert sub
        { pods := r.pods ++ [pod], counts := s.keys.zipIdx.foldl (applyAxis p 1) r.counts }
  | _, _ => out

/-- `RebuildShard` -/
def rebuildShard (pods : List Pod) (shard shards : Nat) : Map SubjectRef Rebuilt :=
  pods.foldl (s.rebuildPod opts shard shards) ∅

end State

end Lookout.TopologyDrift
