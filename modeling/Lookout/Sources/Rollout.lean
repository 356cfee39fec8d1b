-- SUMMARY: The rollout source: its mirror of the workloads, the stall verdict, the sweep and its clearance.
import Lookout.Sources.Objects
import Mathlib.Algebra.Order.Field.Rat
import Mathlib.Data.Finset.Insert

/-!
# Rollout source

The source mirrors Deployments, StatefulSets, ReplicaSets and pods from its informers. A
sweep looks at every workload: a rollout whose new revision makes no progress while the
old one stays healthy is a stall. The same sweep drops what no event has touched for the
time of `StateTTL`.

An incident about a stall is over when the rollout is complete, or when the workload is
not in the mirror. The text of a signal is composed from the evidence in `Stall`.
-/

namespace Lookout.Sources.Rollout

open Engine

/-! ## Objects -/

structure Deployment where
  uid : UID
  ns : GoString
  name : GoString
  generation : Int := 0
  replicas : Option Int := none
  paused : Bool := false
  observedGeneration : Int := 0
  updatedReplicas : Int := 0
  statusReplicas : Int := 0
  availableReplicas : Int := 0
  deriving DecidableEq, Repr

structure ReplicaSet where
  uid : UID
  name : GoString
  owners : List OwnerReference
  /-- The annotation of the deployment controller. -/
  revision : GoString
  replicas : Option Int
  readyReplicas : Int
  deriving DecidableEq, Repr

structure StatefulSet where
  uid : UID
  ns : GoString
  name : GoString
  generation : Int := 0
  replicas : Option Int := none
  partition : Option Int := none
  observedGeneration : Int := 0
  updateRevision : GoString := []
  currentRevision : GoString := []
  readyReplicas : Int := 0
  updatedReplicas : Int := 0
  deriving DecidableEq, Repr

def Deployment.key (d : Deployment) : ObjectName := ⟨d.ns, d.name⟩

def StatefulSet.key (sts : StatefulSet) : ObjectName := ⟨sts.ns, sts.name⟩

/-! ## The source -/

/-- `Config`, without the intervals at which the sweep is called. -/
structure Config where
  observe : Int := 0
  oldReadyRatio : ℚ := 0
  stateTTL : Int := 0

def defaultConfig : Config where
  observe := 3 * minute
  oldReadyRatio := 9 / 10
  stateTTL := 24 * hour

def Config.normalize (c : Config) : Config where
  observe := if c.observe ≤ 0 then defaultConfig.observe else c.observe
  oldReadyRatio := if c.oldReadyRatio ≤ 0 ∨ 1 < c.oldReadyRatio then defaultConfig.oldReadyRatio
    else c.oldReadyRatio
  stateTTL := if c.stateTTL ≤ 0 then defaultConfig.stateTTL else c.stateTTL

/-- `podInfo` -/
structure PodInfo where
  ownerUID : UID
  revisionHash : GoString
  ready : Bool
  waitingReason : GoString
  lastSeen : Int

/-- `objEntry` -/
structure ObjEntry (α : Type) where
  obj : α
  lastSeen : Int

/-- `track`: the progress of one workload's rollout. -/
structure Track where
  revision : GoString := []
  since : Int := 0
  maxNewReady : Int := 0
  lastProgressAt : Int := 0
  fired : Finset GoString := ∅
  complete : Bool := false
  completedAt : Int := 0
  rollingOut : Bool := false
  rolloutEndedAt : Int := 0
  lastSeen : Int := 0

structure Source where
  cfg : Config
  armed : Bool := false
  deployments : Map UID (ObjEntry Deployment) := ∅
  replicasets : Map UID (ObjEntry ReplicaSet) := ∅
  statefulsets : Map UID (ObjEntry StatefulSet) := ∅
  pods : Map UID PodInfo := ∅
  tracks : Map UID Track := ∅

def new (cfg : Config) : Source := { cfg := cfg.normalize }

namespace Source

/-! ## Handlers -/

def onDeployment (now : Int) (d : Deployment) (s : Source) : Source :=
  { s with deployments := s.deployments.insert d.uid ⟨d, now⟩ }

def onDeploymentDelete (d : Deployment) (s : Source) : Source :=
  { s with deployments := s.deployments.erase d.uid, tracks := s.tracks.erase d.uid }

def onReplicaSet (now : Int) (rs : ReplicaSet) (s : Source) : Source :=
  { s with replicasets := s.replicasets.insert rs.uid ⟨rs, now⟩ }

def onReplicaSetDelete (rs : ReplicaSet) (s : Source) : Source :=
  { s with replicasets := s.replicasets.erase rs.uid }

def onStatefulSet (now : Int) (sts : StatefulSet) (s : Source) : Source :=
  { s with statefulsets := s.statefulsets.insert sts.uid ⟨sts, now⟩ }

def onStatefulSetDelete (sts : StatefulSet) (s : Source) : Source :=
  { s with statefulsets := s.statefulsets.erase sts.uid, tracks := s.tracks.erase sts.uid }

def podReady (p : Pod) : Bool := p.readyCondition.getD false

/-- The first reason a container waits for, those of init containers first. -/
def waitingReason (p : Pod) : GoString :=
  ((p.initContainerStatuses ++ p.containerStatuses).findSome? fun cs =>
    cs.waiting.filter (· ≠ [])).getD []

def onPod (now : Int) (p : Pod) (s : Source) : Source :=
  { s with
    pods := s.pods.insert p.uid
      { ownerUID := (controllerUID p.owners).getD []
        revisionHash := p.revisionHash
        ready := podReady p
        waitingReason := waitingReason p
        lastSeen := now } }

def onPodDelete (p : Pod) (s : Source) : Source := { s with pods := s.pods.erase p.uid }

end Source

/-! ## Progress -/

def deploymentComplete (d : Deployment) : Bool :=
  if d.observedGeneration < d.generation then false
  else
    let replicas := int32OrOne d.replicas
    d.updatedReplicas = replicas && d.statusReplicas = replicas && d.availableReplicas = replicas

def stsComplete (sts : StatefulSet) : Bool :=
  if sts.observedGeneration < sts.generation then false
  else if sts.updateRevision ≠ [] && sts.updateRevision ≠ sts.currentRevision then false
  else sts.readyReplicas = int32OrOne sts.replicas

def deploymentRollingOut (d : Deployment) (activeRS : Nat) : Bool :=
  if d.paused then false
  else d.observedGeneration < d.generation || 1 < activeRS ||
    d.updatedReplicas < int32OrOne d.replicas

def stsRollingOut (sts : StatefulSet) : Bool :=
  sts.observedGeneration < sts.generation ||
    (sts.updateRevision ≠ [] && sts.updateRevision ≠ sts.currentRevision) ||
    sts.updatedReplicas < int32OrOne sts.replicas

namespace Track

def markComplete (now : Int) (tr : Track) : Track :=
  { tr with
    complete := true
    completedAt := if tr.complete then tr.completedAt else now
    revision := [] }

/-- `observeRevision`: the track after a look at the target revision, and whether the
    window has passed without progress. -/
def observeRevision (cfg : Config) (revision : GoString) (newReady now : Int) (tr : Track) :
    Track × Bool :=
  if tr.revision ≠ revision then
    ({ tr with
      revision := revision, since := now, maxNewReady := newReady, lastProgressAt := now }, false)
  else if newReady > tr.maxNewReady then
    ({ tr with maxNewReady := newReady, lastProgressAt := now }, false)
  else (tr, Engine.since now tr.lastProgressAt ≥ cfg.observe)

/-- `observeRolloutEdge` -/
def observeEdge (rollingOut : Bool) (now : Int) (tr : Track) : Track :=
  { tr with
    rolloutEndedAt := if tr.rollingOut && !rollingOut then now else tr.rolloutEndedAt
    rollingOut := rollingOut }

end Track

/-- `trackFor`: the memory of a workload, seen now. -/
def trackFor (tracks : Map UID Track) (uid : UID) (now : Int) : Track :=
  { (tracks.lookup uid).getD {} with lastSeen := now }

/-! ## The stall verdict -/

/-- What `newStall` composes a signal from. -/
structure Stall where
  kindOfObject : GoString
  ns : GoString
  name : GoString
  uid : UID
  revision : GoString
  newReady : Int
  newDesired : Int
  oldReady : Int
  oldDesired : Int
  elapsed : Int
  waiting : GoString
  at_ : Int
  deriving DecidableEq, Repr

/-- `ownerIndex`: the mirrored ReplicaSets and pods in the order the sweep visited them. -/
structure OwnerIndex where
  replicasets : List ReplicaSet
  pods : List PodInfo

namespace OwnerIndex

def replicasetsOf (ix : OwnerIndex) (uid : UID) : List ReplicaSet :=
  ix.replicasets.filter fun rs => controllerUID rs.owners = some uid

def podsOf (ix : OwnerIndex) (uid : UID) : List PodInfo :=
  ix.pods.filter fun p => p.ownerUID ≠ [] && p.ownerUID = uid

/-- `activeReplicaSets`: the controlling references of ReplicaSets that hold replicas. -/
def activeReplicaSets (ix : OwnerIndex) (uid : UID) : Nat :=
  ((ix.replicasets.filter fun rs => int32OrOne rs.replicas ≠ 0).map fun rs =>
    rs.owners.countP fun ref => ref.controller = some true && ref.uid = uid).sum

end OwnerIndex

/-- `rsRevision` -/
def rsRevision (rs : ReplicaSet) : Int := (parseInt64 rs.revision).getD (-1)

/-- The ReplicaSet of the highest revision. One without a revision is never taken. -/
def newestOf (owned : List ReplicaSet) : Option ReplicaSet :=
  (owned.foldl (fun (best : Int × Option ReplicaSet) rs =>
    let rev := rsRevision rs
    if rev > best.1 || (rev = best.1 && best.2.any fun newest => newest.name < rs.name) then
      (rev, some rs)
    else best) (-1, none)).2

/-- `topWaitingReason`: the most frequent reason, the first in order among equals. -/
def topWaitingReason (pods : List PodInfo) (sel : PodInfo → Bool) : GoString :=
  let reasons := (pods.filter fun p => p.waitingReason ≠ [] && sel p).map (·.waitingReason)
  let before := fun a b : GoString =>
    reasons.count b < reasons.count a ∨ (reasons.count a = reasons.count b ∧ a ≤ b)
  ((reasons.dedup.insertionSort before).head?).getD []

def sum32 (l : List Int) : Int := l.foldl (fun n x => wrap32 (n + x)) 0

/-- `evalDeployment`: the track after the verdict on one Deployment, and a stall. -/
def evalDeployment (cfg : Config) (armed : Bool) (ix : OwnerIndex) (now : Int) (d : Deployment)
    (tr : Track) : Track × Option Stall :=
  let owned := ix.replicasetsOf d.uid
  if deploymentComplete d then (tr.markComplete now, none)
  else
    let tr := { tr with complete := false }
    match newestOf owned with
    | none => ({ tr with revision := [] }, none)
    | some newest =>
      let newDesired := int32OrOne newest.replicas
      let old := owned.filter fun rs => rs.uid ≠ newest.uid
      let oldDesired := sum32 (old.map fun rs => int32OrOne rs.replicas)
      let oldReady := sum32 (old.map (·.readyReplicas))
      -- Without an old revision that holds replicas there is nothing to compare with.
      if d.paused || newDesired = 0 || oldDesired = 0 then ({ tr with revision := [] }, none)
      else
        let (tr, stalled) := tr.observeRevision cfg newest.name newest.readyReplicas now
        if newest.readyReplicas ≥ newDesired || !armed || !stalled || newest.name ∈ tr.fired then
          (tr, none)
        else if (oldReady : ℚ) < cfg.oldReadyRatio * oldDesired then (tr, none)
        else
          ({ tr with fired := insert newest.name tr.fired },
            some
              { kindOfObject := bytes "Deployment", ns := d.ns, name := d.name, uid := d.uid
                revision := newest.name
                newReady := newest.readyReplicas, newDesired := newDesired
                oldReady := oldReady, oldDesired := oldDesired
                elapsed := Engine.since now tr.since
                waiting := topWaitingReason (ix.podsOf newest.uid) fun _ => true
                at_ := now })

/-- `evalStatefulSet` -/
def evalStatefulSet (cfg : Config) (armed : Bool) (ix : OwnerIndex) (now : Int)
    (sts : StatefulSet) (tr : Track) : Track × Option Stall :=
  if stsComplete sts then (tr.markComplete now, none)
  else
    let tr := { tr with complete := false }
    let update := sts.updateRevision
    let newDesired := match sts.partition with
      | some partition => wrap32 (int32OrOne sts.replicas - partition)
      | none => int32OrOne sts.replicas
    if update = [] || update = sts.currentRevision || newDesired ≤ 0 then
      ({ tr with revision := [] }, none)
    else
      let pods := ix.podsOf sts.uid
      let newReady : Int := pods.countP fun p => p.revisionHash = update && p.ready
      let old := pods.filter fun p => p.revisionHash ≠ update && p.revisionHash = sts.currentRevision
      let oldReady : Int := old.countP (·.ready)
      let (tr, stalled) := tr.observeRevision cfg update newReady now
      if newReady ≥ newDesired || !armed || !stalled || update ∈ tr.fired then (tr, none)
      else if old = [] || (oldReady : ℚ) < cfg.oldReadyRatio * old.length then (tr, none)
      else
        ({ tr with fired := insert update tr.fired },
          some
            { kindOfObject := bytes "StatefulSet", ns := sts.ns, name := sts.name, uid := sts.uid
              revision := update
              newReady := newReady, newDesired := newDesired
              oldReady := oldReady, oldDesired := old.length
              elapsed := Engine.since now tr.since
              waiting := topWaitingReason pods fun p => p.revisionHash = update
              at_ := now })

/-! ## The sweep -/

/-- The orders in which one sweep visits the mirror. -/
structure Walks where
  replicasets : Map.Walk UID
  pods : Map.Walk UID
  deployments : Map.Walk UID
  statefulsets : Map.Walk UID

/-- Every loop visits the keys as they are listed. -/
def Walks.listed : Walks := ⟨.listed, .listed, .listed, .listed⟩

namespace Source

/-- `indexOwners` -/
def indexOwners (w : Walks) (s : Source) : OwnerIndex where
  replicasets := (Map.walk w.replicasets s.replicasets).filterMap fun uid =>
    (s.replicasets.lookup uid).map (·.obj)
  pods := (Map.walk w.pods s.pods).filterMap s.pods.lookup

/-- One loop of the sweep over workloads: each one's track is replaced. -/
def judge {α : Type} (keys : List UID) (objects : Map UID (ObjEntry α)) (now : Int)
    (eval : UID → α → Track → Track × Option Stall) (tracks : Map UID Track) :
    Map UID Track × List Stall :=
  keys.foldl (fun (acc : Map UID Track × List Stall) uid =>
    match objects.lookup uid with
    | none => acc
    | some e =>
      let (tr, stall) := eval uid e.obj (trackFor acc.1 uid now)
      (acc.1.insert uid tr, acc.2 ++ stall.toList)) (tracks, [])

/-- An entry that no event has touched since the cutoff. -/
def staleAt {α : Type} (m : Map UID (ObjEntry α)) (cutoff : Int) (uid : UID) : Bool :=
  (m.lookup uid).any fun e => e.lastSeen < cutoff

/-- `sweep` -/
def sweep (w : Walks) (now : Int) (s : Source) : Source × List Stall :=
  let ix := s.indexOwners w
  let ds := Map.walk w.deployments s.deployments
  let ss := Map.walk w.statefulsets s.statefulsets
  let (tracks, out) := judge ds s.deployments now
    (fun _ => evalDeployment s.cfg s.armed ix now) s.tracks
  let (tracks, out') := judge ss s.statefulsets now
    (fun _ => evalStatefulSet s.cfg s.armed ix now) tracks
  let (tracks, _) := judge ds s.deployments now
    (fun uid d tr => (tr.observeEdge (deploymentRollingOut d (ix.activeReplicaSets uid)) now, none))
    tracks
  let (tracks, _) := judge ss s.statefulsets now
    (fun _ sts tr => (tr.observeEdge (stsRollingOut sts) now, none)) tracks
  let cutoff := now - s.cfg.stateTTL
  ({ s with
      deployments := s.deployments.filter fun _ e => !(e.lastSeen < cutoff)
      replicasets := s.replicasets.filter fun _ e => !(e.lastSeen < cutoff)
      statefulsets := s.statefulsets.filter fun _ e => !(e.lastSeen < cutoff)
      pods := s.pods.filter fun _ p => !(p.lastSeen < cutoff)
      tracks := tracks.filter fun uid tr =>
        !staleAt s.deployments cutoff uid && !staleAt s.statefulsets cutoff uid &&
          !(tr.lastSeen < cutoff) },
    out ++ out')

/-! ## Clearance -/

/-- The verdict on a workload that is mirrored, or not. -/
def workloadVerdict (complete : Option Bool) (uid : UID) (s : Source) : Clearance :=
  match complete with
  | none => objectGone
  | some complete =>
    ⟨complete, ((s.tracks.lookup uid).map (·.completedAt)).getD 0, .recovered⟩

/-- `Clearance` -/
def clearance (s : Source) (inc : Incident) : Option Clearance :=
  let kind := inc.ref.kindOfObject
  let uid := inc.key.uid
  if canonicalReason inc.key.reason ≠ bytes "rollout_stall" then none
  else if !equalFold kind (bytes "Deployment") && !equalFold kind (bytes "StatefulSet") then none
  else if !s.armed then none
  else if equalFold kind (bytes "Deployment") then
    some (s.workloadVerdict ((s.deployments.lookup uid).map fun e => deploymentComplete e.obj) uid)
  else
    some (s.workloadVerdict ((s.statefulsets.lookup uid).map fun e => stsComplete e.obj) uid)

end Source

@[simp] theorem canonicalReason_stall :
    canonicalReason (bytes "rollout_stall") = bytes "rollout_stall" := by decide +kernel

@[simp] theorem equalFold_statefulSet :
    equalFold (bytes "StatefulSet") (bytes "Deployment") = false := by decide +kernel

end Lookout.Sources.Rollout
