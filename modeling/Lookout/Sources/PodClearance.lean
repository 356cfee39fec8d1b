-- SUMMARY: The pod clearance: its mirror of the pods, the verdict on a pod's incident, and when a restart restarts the stability window.
import Lookout.Lib.Run
import Lookout.Sources.Objects
import Mathlib.Data.Finset.Union

/-!
# Pod clearance

The clearance of pod incidents mirrors the live pods under their uids, with an index by
controller and one by name, and remembers deleted pods for a while. The incident of a live
pod is judged by the pod's readiness, the incident of a deleted one by the pods of its
workload. A set that a loop visits is walked in an order that nothing fixes.

A live pod is vouched for since the later of its Ready transition and its newest container
start. An update that counts another restart and shows no later start is stamped with the
observer's clock; the next update is not.
-/

namespace Lookout.Sources.ObjectState

open Engine

/-! ## Pods -/

/-- `ownerKey` -/
structure OwnerKey where
  ns : GoString
  kind : GoString
  name : GoString
  deriving DecidableEq

/-- `podReadiness` -/
def podReadiness (pod : Pod) : Bool × Int :=
  match pod.conditions.find? fun c => c.type = bytes "Ready" with
  | some c => (c.status = bytes "True", c.lastTransitionTime)
  | none => (false, 0)

/-- `containerRestarts`: the sum of the restarts and the newest start. -/
def containerRestarts (pod : Pod) : Int × Int :=
  pod.containerStatuses.foldl (fun acc cs =>
    (wrap32 (acc.1 + cs.restartCount),
      match cs.runningStartedAt with
      | some start => if acc.2 < start then start else acc.2
      | none => acc.2)) (0, 0)

/-- `controllerOwner` -/
def controllerOwner (pod : Pod) : Option OwnerKey :=
  (pod.owners.find? fun ref => ref.controller = some true).map fun ref =>
    ⟨pod.ns, ref.kind, ref.name⟩

/-- `splitControllerRef` -/
def splitControllerRef (s : GoString) : Option (GoString × GoString) :=
  match s.findIdx? (· = 0x2f) with
  | none => none
  | some i => if i = 0 ∨ i = s.length - 1 then none else some (s.take i, s.drop (i + 1))

/-! ## State -/

structure PodState where
  ns : GoString
  name : GoString
  owner : Option OwnerKey
  ready : Bool
  stableSince : Int
  restarts : Int

/-- `podTombstone` -/
structure PodTombstone where
  ns : GoString
  name : GoString
  owner : Option OwnerKey
  deletedAt : Int

def tombstoneTTL : Int := 2 * hour

/-- `ReplicaSetOwners`: what the caches of ReplicaSets and Deployments answer. The first
    text of a question is the namespace. -/
structure ReplicaSetOwners where
  hasSynced : Bool
  deploymentOf : GoString → GoString → Option GoString
  currentReplicaSet : GoString → GoString → Option GoString

structure PodClearance where
  pods : Map UID PodState := ∅
  byOwner : Map OwnerKey (Finset UID) := ∅
  byName : Map ObjectName UID := ∅
  tombstones : Map UID PodTombstone := ∅

namespace PodClearance

/-- The live pods that a key of the index by owner leads to. -/
def owned (o : PodClearance) (k : OwnerKey) : Finset UID := Map.getD o.byOwner k ∅

/-- `removeOwnerIndex`, the index alone. -/
def removeOwnerIndex (ps : PodState) (uid : UID) (byOwner : Map OwnerKey (Finset UID)) :
    Map OwnerKey (Finset UID) :=
  match ps.owner with
  | none => byOwner
  | some k => match byOwner.lookup k with
    | none => byOwner
    | some set => if set.erase uid = ∅ then byOwner.erase k else byOwner.insert k (set.erase uid)

/-- The index by owner once the pod is taken out of it. -/
def unindex (uid : UID) (o : PodClearance) : Map OwnerKey (Finset UID) :=
  match o.pods.lookup uid with
  | some prev => removeOwnerIndex prev uid o.byOwner
  | none => o.byOwner

/-- The later of the Ready transition and the newest container start. -/
def statusSince (pod : Pod) : Int :=
  let readySince := (podReadiness pod).2
  let newestStart := (containerRestarts pod).2
  if readySince < newestStart then newestStart else readySince

/-- The record of a live pod after an update. -/
def podState (now : Int) (pod : Pod) (prev : Option PodState) : PodState where
  ns := pod.ns
  name := pod.name
  owner := controllerOwner pod
  ready := (podReadiness pod).1
  stableSince := match prev with
    | some ps =>
      -- The count says that a container has restarted, the status does not say when.
      if (containerRestarts pod).1 ≠ ps.restarts ∧ ¬ps.stableSince < statusSince pod then now
      else statusSince pod
    | none => statusSince pod
  restarts := (containerRestarts pod).1

def upsert (now : Int) (pod : Pod) (o : PodClearance) : PodClearance where
  pods := o.pods.insert pod.uid (podState now pod (o.pods.lookup pod.uid))
  byOwner := match controllerOwner pod with
    | some k => (o.unindex pod.uid).insert k (insert pod.uid (Map.getD (o.unindex pod.uid) k ∅))
    | none => o.unindex pod.uid
  byName := o.byName.insert ⟨pod.ns, pod.name⟩ pod.uid
  -- A pod that is told of again is not gone.
  tombstones := o.tombstones.erase pod.uid

def delete (now : Int) (pod : Pod) (o : PodClearance) : PodClearance where
  pods := o.pods.erase pod.uid
  byOwner := o.unindex pod.uid
  byName := match o.pods.lookup pod.uid with
    | some prev =>
      if o.byName.lookup ⟨prev.ns, prev.name⟩ = some pod.uid then
        o.byName.erase ⟨prev.ns, prev.name⟩
      else o.byName
    | none => o.byName
  tombstones :=
    Map.filter (fun _ ts => !(tombstoneTTL < since now ts.deletedAt))
      (o.tombstones.insert pod.uid
        { ns := pod.ns, name := pod.name, owner := controllerOwner pod, deletedAt := now })

/-! ## Clearance -/

/-- `deploymentOf`, empty if no Deployment is proven. -/
def deploymentOf (rsOwners : ReplicaSetOwners) (owner : OwnerKey) (inc : Incident) : GoString :=
  if owner.kind = bytes "Deployment" then owner.name
  else match rsOwners.deploymentOf owner.ns owner.name with
    | some dep => dep
    | none => match splitControllerRef inc.ref.controllerRef with
      | some (kind, name) =>
        if kind = bytes "Deployment" ∧ inc.ref.ns = owner.ns then name else []
      | none => []

/-- `podsUnderDeployment` -/
def podsUnderDeployment (rsOwners : ReplicaSetOwners) (ns name : GoString) (base : Finset UID)
    (o : PodClearance) : Finset UID :=
  base ∪ (o.byOwner.keys.filter fun k => k.ns = ns ∧ k.kind = bytes "ReplicaSet" ∧
    rsOwners.deploymentOf ns k.name = some name).biUnion o.owned

/-- The pods of the workload, and those of them that may vouch for it. None while the
    caches have not synced. -/
def workload (rsOwners : Option ReplicaSetOwners) (inc : Incident) (owner : OwnerKey)
    (fromTombstone : Bool) (o : PodClearance) : Option (Finset UID × Finset UID) :=
  let members := o.owned owner
  match rsOwners with
  | none => some (members, members)
  | some rs =>
    if owner.kind = bytes "Deployment" ∨ fromTombstone = true ∧ owner.kind = bytes "ReplicaSet" then
      if rs.hasSynced = false then none
      else
        let dep := deploymentOf rs owner inc
        if dep = [] then some (members, members)
        else
          some (o.podsUnderDeployment rs owner.ns dep members,
            match rs.currentReplicaSet owner.ns dep with
            | some cur => members ∪ o.owned ⟨owner.ns, bytes "ReplicaSet", cur⟩
            | none => members)
    else some (members, members)

/-- One step of the loop over the vouchers: the best instant so far, none if none is Ready. -/
def vouch (o : PodClearance) (best : Option Int) (uid : UID) : Option Int :=
  match o.pods.lookup uid with
  | none => best
  | some sib =>
    if sib.ready = false then best
    else match best with
      | none => some sib.stableSince
      | some t => if sib.stableSince < t then some sib.stableSince else some t

/-- The verdict on a deleted pod with a known controller. -/
def judgeWorkload (rsOwners : Option ReplicaSetOwners) (walk : Map.Walk UID) (inc : Incident)
    (owner : OwnerKey) (fromTombstone : Bool) (deletedAt : Int) (o : PodClearance) :
    Option Clearance :=
  (o.workload rsOwners inc owner fromTombstone).map fun (members, vouchers) =>
    if members = ∅ then ⟨true, deletedAt, .objectDeleted⟩
    else
      let best := (walk.order (Map.sort vouchers)).foldl o.vouch none
      ⟨best.isSome, best.getD 0, .recovered⟩

/-- `Clearance`, with the answer of the informer to `synced`. -/
def clearance (synced : Bool) (rsOwners : Option ReplicaSetOwners) (walk : Map.Walk UID)
    (o : PodClearance) (inc : Incident) : Option Clearance :=
  if equalFold inc.ref.kindOfObject (bytes "Pod") = false then none
  else if synced = false then none
  else match o.pods.lookup inc.key.uid with
    | some ps => some ⟨ps.ready, ps.stableSince, .recovered⟩
    | none =>
      let ts := o.tombstones.lookup inc.key.uid
      let owner := match ts with
        | some ts => ts.owner
        | none => (splitControllerRef inc.ref.controllerRef).map fun (kind, name) =>
            ⟨inc.ref.ns, kind, name⟩
      let deletedAt := (ts.map (·.deletedAt)).getD 0
      match owner with
      | some owner => o.judgeWorkload rsOwners walk inc owner ts.isSome deletedAt
      | none =>
        match (o.byName.lookup ⟨inc.ref.ns, inc.ref.name⟩).bind o.pods.lookup with
        | some rep => some ⟨rep.ready, rep.stableSince, .recovered⟩
        | none => some ⟨true, deletedAt, .objectDeleted⟩

end PodClearance

/-! ## Restarts and the stability window -/

/-- The clearance, and for every pod the window starts that a restart has ended. -/
structure Ward where
  clearance : PodClearance := {}
  ended : UID → List Int := fun _ => []

namespace Ward

variable (w : Ward) (u : Update)

/-- An update of a pod and the time it is handled. -/
structure Update where
  now : Int
  pod : Pod

/-- The window start that the update ends: the one held before, if the restart count is
    another one. -/
def ends (pod : Pod) : Option Int :=
  match w.clearance.pods.lookup pod.uid with
  | none => none
  | some ps => if (containerRestarts pod).1 ≠ ps.restarts then some ps.stableSince else none

/-- The window starts of the pod that restarts have ended, this update included. -/
def endedBy (pod : Pod) : List Int := (w.ends pod).toList ++ w.ended pod.uid

def step : Ward where
  clearance := w.clearance.upsert u.now u.pod
  ended := fun uid => if uid = u.pod.uid then w.endedBy u.pod else w.ended uid

/-- A live pod that is called recovered is vouched for since later than every window start
    that a restart has ended. -/
def Honest : Prop :=
  ∀ synced rsOwners walk inc c, w.clearance.pods.lookup inc.key.uid ≠ none →
    w.clearance.clearance synced rsOwners walk inc = some c → c.cleared = true →
      ∀ t ∈ w.ended inc.key.uid, t < c.stableSince

/-- The update counts a restart and its status shows nothing later than the window start. -/
def lags (w : Ward) (pod : Pod) : Bool :=
  match w.ends pod with
  | none => false
  | some t => PodClearance.statusSince pod ≤ t

/-- The window start after an update: the clock if the status lags, else the later of the
    Ready transition and the newest container start. -/
def windowStart : Int :=
  if w.lags u.pod then u.now else PodClearance.statusSince u.pod

/-- An update of a Ready pod starts the window later than every window start that a restart
    has ended. -/
def CaughtUp : Prop :=
  (podReadiness u.pod).1 = true → ∀ t ∈ w.endedBy u.pod, t < w.windowStart u

theorem stableSince_podState :
    (PodClearance.podState u.now u.pod (w.clearance.pods.lookup u.pod.uid)).stableSince =
      w.windowStart u := by
  unfold PodClearance.podState windowStart lags ends
  cases w.clearance.pods.lookup u.pod.uid with
  | none => rfl
  | some ps =>
    by_cases hrestarts : (containerRestarts u.pod).1 = ps.restarts
    · simp [hrestarts]
    · simp [hrestarts]

theorem lookup_step (uid : UID) :
    (w.step u).clearance.pods.lookup uid =
      if uid = u.pod.uid then
        some (PodClearance.podState u.now u.pod (w.clearance.pods.lookup u.pod.uid))
      else w.clearance.pods.lookup uid := Map.lookup_insert ..

theorem ended_step (uid : UID) :
    (w.step u).ended uid = if uid = u.pod.uid then w.endedBy u.pod else w.ended uid := rfl

/-- An incident of a pod. -/
def podIncident (uid : UID) : Incident :=
  { key := ⟨uid, []⟩, sessionID := [], firstSeen := 0, ref := { kindOfObject := bytes "Pod" } }

variable {w : Ward}

/-- What `Honest` says of the mirrored pods. -/
theorem honest_iff :
    w.Honest ↔ ∀ uid ps, w.clearance.pods.lookup uid = some ps → ps.ready = true →
      ∀ t ∈ w.ended uid, t < ps.stableSince := by
  constructor
  · intro h uid ps hps hready
    have hverdict : w.clearance.clearance true none .listed (podIncident uid) =
        some ⟨ps.ready, ps.stableSince, .recovered⟩ := by
      rw [PodClearance.clearance, podIncident, if_neg (by simp), if_neg Bool.false_ne_true.symm, hps]
    exact h true none .listed _ _ (hps ▸ Option.some_ne_none ps) hverdict hready
  · intro h synced rsOwners walk inc c hlive hc hcleared
    obtain ⟨ps, hps⟩ := Option.ne_none_iff_exists'.1 hlive
    have hverdict : c = ⟨ps.ready, ps.stableSince, .recovered⟩ := by
      rw [PodClearance.clearance, hps] at hc
      split at hc
      next => cases hc
      next =>
        split at hc
        next => cases hc
        next => exact (Option.some.inj hc).symm
    subst hverdict
    exact h _ ps hps hcleared

/-- An update keeps the verdicts honest just if the status has caught up. -/
theorem honest_step (u : Update) (h : w.Honest) : (w.step u).Honest ↔ w.CaughtUp u := by
  rw [honest_iff] at h ⊢
  constructor
  · intro hstep hready
    have hwindow := hstep u.pod.uid _ ((lookup_step w u u.pod.uid).trans (if_pos rfl)) hready
    rwa [ended_step, if_pos rfl, stableSince_podState] at hwindow
  · intro hcaught uid ps hps hready
    rw [lookup_step] at hps
    by_cases huid : uid = u.pod.uid
    · rw [if_pos huid] at hps
      cases hps
      rw [ended_step, if_pos huid, stableSince_podState]
      exact hcaught hready
    · rw [if_neg huid] at hps
      rw [ended_step, if_neg huid]
      exact h uid ps hps hready

/-- In every run of updates a restart restarts the stability window for good, just if the
    status of a Ready pod has always caught up with its restarts. -/
theorem restart_restarts_window_iff (us : List Update) :
    Run.Always step Honest {} us ↔ Run.Steps step CaughtUp {} us := by
  refine Run.always_iff_steps (fun _ u h => honest_step u h) (honest_iff.2 ?_)
  intro uid ps hps
  exact absurd hps.symm (Option.some_ne_none ps)

theorem not_honest (uid : UID) (h : (w.clearance.pods.lookup uid).any (fun ps =>
      ps.ready && (w.ended uid).any fun t => ps.stableSince ≤ t) = true) : ¬w.Honest := by
  intro hhonest
  cases hps : w.clearance.pods.lookup uid with
  | none =>
    rw [hps] at h
    cases h
  | some ps =>
    rw [hps, Option.any_some, Bool.and_eq_true] at h
    obtain ⟨t, ht, hle⟩ := List.any_eq_true.1 h.2
    exact absurd (of_decide_eq_true hle) (not_le.2 (honest_iff.1 hhonest uid ps hps h.1 t ht))

/-- A Ready pod with one container. -/
def checkout (restarts : Int) (readySince startedAt : Int) : Pod where
  uid := bytes "u1"
  ns := bytes "shop"
  name := bytes "checkout-0"
  conditions := [⟨bytes "Ready", bytes "True", readySince⟩]
  containerStatuses := [⟨none, restarts, some startedAt⟩]

/-- The container restarts, and the status says only by the count that it did. -/
def lagging : List Update :=
  [⟨10 * minute, checkout 0 minute minute⟩, ⟨11 * minute, checkout 1 minute minute⟩,
    ⟨12 * minute, checkout 1 minute minute⟩]

/-- No time runs backwards, and yet the next update takes the window back to its start
    before the restart. -/
theorem window_start_lost :
    lagging.Pairwise (fun u v => u.now ≤ v.now ∧ (podReadiness u.pod).2 ≤ (podReadiness v.pod).2 ∧
        (containerRestarts u.pod).2 ≤ (containerRestarts v.pod).2) ∧
      ¬Run.Always step Honest {} lagging := by
  refine ⟨by decide +kernel, fun h => ?_⟩
  exact not_honest (bytes "u1") (by decide +kernel) (h lagging (List.prefix_refl lagging))

end Ward

end Lookout.Sources.ObjectState
