-- SUMMARY: In every conformant run the pod clearance mirrors the informer's pods and judges the incident of a deleted pod by the live pods of its workload.
import Lookout.Lib.Informer
import Lookout.Sources.ReplicaSetOwners
import Mathlib.Order.Bounds.Basic

/-!
# Deleted pods

The pod clearance is paired with the cache of the informer that feeds it and with what was
deleted and when. A pod keeps its name, a name is given to one pod at a time, and a pod
that goes is reported as deleted before its name is given to another one.

The workload of a deleted pod is its controller and, if a Deployment controls that, every
ReplicaSet of the Deployment. Only the pods of the controller and of the current ReplicaSet
may vouch for it. The workload of a pod without a controller is the pod that has the name
of the incident.
-/

namespace Lookout.Sources.ObjectState

open Engine

/-! ## Pods and their mirror -/

/-- The clearance, the pods of its informer, and the pods whose last event was their
    deletion, as they were then and with the time of it. -/
structure Mirror where
  clearance : PodClearance := {}
  cache : Map ObjectName Pod := ∅
  deleted : UID → Option (Pod × Int) := fun _ => none
  clock : Int

namespace Mirror

/-- An event of the informer and the time it is handled. -/
structure Event where
  now : Int
  event : Informer.Event Pod

def handle (now : Int) (o : PodClearance) : Informer.Event Pod → PodClearance
  | .upsert pod => o.upsert now pod
  | .delete pod => o.delete now pod

/-- What the event says of the deletion of its pod. -/
def deletion (now : Int) : Informer.Event Pod → Option (Pod × Int)
  | .upsert _ => none
  | .delete pod => some (pod, now)

def step (w : Mirror) (e : Event) : Mirror where
  clearance := handle e.now w.clearance e.event
  cache := Informer.deliver Pod.key w.cache e.event
  deleted := fun uid => if uid = e.event.object.uid then deletion e.now e.event else w.deleted uid
  clock := e.now

/-- The clock does not run backwards. An updated pod and no other one has its name and its
    uid, and a deleted pod is the one of its name. -/
def Lawful (w : Mirror) (e : Event) : Prop :=
  w.clock ≤ e.now ∧
    match e.event with
    | .upsert pod => ∀ key q, w.cache.lookup key = some q → (q.uid = pod.uid ↔ key = pod.key)
    | .delete pod => ∃ q, w.cache.lookup pod.key = some q ∧ q.uid = pod.uid

/-- The pod is in the informer's cache. -/
def Live (w : Mirror) (q : Pod) : Prop := w.cache.lookup q.key = some q

end Mirror

namespace PodClearance

/-! ## The index by owner -/

/-- The index by owner leads to just the pods that have the owner. -/
def Indexed (o : PodClearance) : Prop :=
  ∀ k uid, uid ∈ o.owned k ↔ ∃ ps, o.pods.lookup uid = some ps ∧ ps.owner = some k

theorem getD_removeOwnerIndex (ps : PodState) (uid : UID) (byOwner : Map OwnerKey (Finset UID))
    (k : OwnerKey) :
    Map.getD (removeOwnerIndex ps uid byOwner) k ∅ =
      if ps.owner = some k then (Map.getD byOwner k ∅).erase uid else Map.getD byOwner k ∅ := by
  unfold removeOwnerIndex
  cases howner : ps.owner with
  | none => rw [if_neg (Option.some_ne_none k).symm]
  | some k' =>
    simp only [Option.some.injEq]
    by_cases hk : k' = k
    · subst hk
      cases hset : byOwner.lookup k' with
      | none => simp [Map.getD, hset]
      | some set =>
        dsimp only
        split
        next hempty => simp [Map.getD, hset, hempty]
        next => simp [Map.getD, hset]
    · rw [if_neg hk]
      cases byOwner.lookup k' with
      | none => rfl
      | some set =>
        dsimp only
        split
        next => rw [Map.getD_erase, if_neg (Ne.symm hk)]
        next => rw [Map.getD_insert, if_neg (Ne.symm hk)]

variable {o : PodClearance}

/-- The index without the pod. -/
theorem mem_unindexed (h : o.Indexed) (uid uid' : UID) (k : OwnerKey) :
    uid' ∈ Map.getD (o.unindex uid) k ∅ ↔ uid' ≠ uid ∧ uid' ∈ o.owned k := by
  unfold unindex
  cases hps : o.pods.lookup uid with
  | none =>
    refine ⟨fun hmem => ⟨?_, hmem⟩, fun hmem => hmem.2⟩
    rintro rfl
    obtain ⟨ps, hps', -⟩ := (h k uid').1 hmem
    exact absurd (hps.symm.trans hps') (Option.some_ne_none ps).symm
  | some ps =>
    rw [getD_removeOwnerIndex]
    split
    next => exact Finset.mem_erase
    next howner =>
      refine ⟨fun hmem => ⟨?_, hmem⟩, fun hmem => hmem.2⟩
      rintro rfl
      obtain ⟨ps', hps', howner'⟩ := (h k uid').1 hmem
      cases hps.symm.trans hps'
      exact howner howner'

theorem lookup_upsert (o : PodClearance) (now : Int) (pod : Pod) (uid : UID) :
    (o.upsert now pod).pods.lookup uid =
      if uid = pod.uid then some (podState now pod (o.pods.lookup pod.uid))
      else o.pods.lookup uid := Map.lookup_insert ..

theorem lookup_delete (o : PodClearance) (now : Int) (pod : Pod) (uid : UID) :
    (o.delete now pod).pods.lookup uid = if uid = pod.uid then none else o.pods.lookup uid :=
  Map.lookup_erase ..

theorem indexed_upsert (h : o.Indexed) (now : Int) (pod : Pod) : (o.upsert now pod).Indexed := by
  intro k uid
  have howned : uid ∈ (o.upsert now pod).owned k ↔
      uid = pod.uid ∧ controllerOwner pod = some k ∨ uid ≠ pod.uid ∧ uid ∈ o.owned k := by
    rw [← mem_unindexed h, owned, upsert]
    cases controllerOwner pod with
    | none => simp
    | some k' =>
      rw [Map.getD_insert]
      by_cases hk : k = k'
      · subst hk
        simp
      · simp [hk, Ne.symm hk]
  rw [howned, lookup_upsert]
  by_cases huid : uid = pod.uid
  · simp [huid, podState]
  · simp [huid, h k uid]

theorem indexed_delete (h : o.Indexed) (now : Int) (pod : Pod) : (o.delete now pod).Indexed := by
  intro k uid
  have howned : uid ∈ (o.delete now pod).owned k ↔ uid ≠ pod.uid ∧ uid ∈ o.owned k :=
    mem_unindexed h pod.uid uid k
  rw [howned, lookup_delete]
  by_cases huid : uid = pod.uid
  · simp [huid]
  · simp [huid, h k uid]

end PodClearance

namespace Mirror

/-! ## The invariant -/

/-- The record of a live pod says what the pod says. -/
structure Records (ps : PodState) (q : Pod) : Prop where
  key : (⟨ps.ns, ps.name⟩ : ObjectName) = q.key
  owner : ps.owner = controllerOwner q
  ready : ps.ready = (podReadiness q).1

def tombstone (p : Pod) (t : Int) : PodTombstone :=
  { ns := p.ns, name := p.name, owner := controllerOwner p, deletedAt := t }

structure Faithful (w : Mirror) : Prop where
  sound : Informer.Sound Pod.key Pod.uid w.cache
  mirrored : ∀ key q, w.cache.lookup key = some q →
    ∃ ps, w.clearance.pods.lookup q.uid = some ps ∧ Records ps q
  live : ∀ uid ps, w.clearance.pods.lookup uid = some ps →
    ∃ key q, w.cache.lookup key = some q ∧ q.uid = uid
  indexed : w.clearance.Indexed
  named : ∀ key uid, w.clearance.byName.lookup key = some uid ↔
    ∃ q, w.cache.lookup key = some q ∧ q.uid = uid
  gone : ∀ uid p t, w.deleted uid = some (p, t) → w.clearance.pods.lookup uid = none
  buried : ∀ uid p t, w.deleted uid = some (p, t) →
    w.clearance.tombstones.lookup uid = some (tombstone p t) ∨ tombstoneTTL < w.clock - t

theorem faithful_new (start : Int) : Faithful { clock := start } where
  sound := Informer.Sound.empty
  mirrored _ _ h := absurd h.symm (Option.some_ne_none _)
  live _ _ h := absurd h.symm (Option.some_ne_none _)
  indexed k uid := by simp [PodClearance.owned]
  named key uid := by simp
  gone _ _ _ h := absurd h.symm (Option.some_ne_none _)
  buried _ _ _ h := absurd h.symm (Option.some_ne_none _)

variable {e : Event} {w : Mirror} {key : ObjectName} {q : Pod} {uid : UID}

/-- The pod of an event is the only one with its name and the only one with its uid. -/
theorem Faithful.same (h : w.Faithful) (hlaw : Lawful w e) (hq : w.cache.lookup key = some q) :
    q.uid = e.event.object.uid ↔ key = e.event.object.key := by
  obtain ⟨-, hlaw⟩ := hlaw
  obtain ⟨now, event⟩ := e
  cases event with
  | upsert pod => exact hlaw key q hq
  | delete pod =>
    obtain ⟨q₀, hq₀, huid⟩ := hlaw
    constructor
    · intro heq
      exact h.sound.distinct key pod.key q q₀ hq hq₀ (heq.trans huid.symm)
    · rintro rfl
      cases hq.symm.trans hq₀
      exact huid

theorem sound_deliver (h : w.Faithful) (hlaw : Lawful w e) :
    Informer.Sound Pod.key Pod.uid (Informer.deliver Pod.key w.cache e.event) := by
  obtain ⟨now, event⟩ := e
  cases event with
  | upsert pod => exact h.sound.upsert fun key q hq huid => (h.same hlaw hq).1 huid
  | delete pod => exact h.sound.delete pod

/-- What the mirror holds of a pod after an event. -/
theorem lookup_handle (o : PodClearance) (now : Int) (e : Informer.Event Pod) (uid : UID) :
    (handle now o e).pods.lookup uid =
      if uid = e.object.uid then
        e.current.map fun pod => PodClearance.podState now pod (o.pods.lookup pod.uid)
      else o.pods.lookup uid := by
  cases e with
  | upsert pod => exact PodClearance.lookup_upsert o now pod uid
  | delete pod => exact PodClearance.lookup_delete o now pod uid

section

variable (h : w.Faithful) (hlaw : Lawful w e)

include h hlaw

theorem Faithful.mirrored_step (hq : (w.step e).cache.lookup key = some q) :
    ∃ ps, (w.step e).clearance.pods.lookup q.uid = some ps ∧ Records ps q := by
  rw [step, Informer.lookup_deliver] at hq
  rw [step, lookup_handle]
  split at hq
  next hkey =>
    cases hevent : e.event with
    | upsert pod =>
      rw [hevent] at hq
      cases hq
      exact ⟨_, if_pos rfl, rfl, rfl, rfl⟩
    | delete pod =>
      rw [hevent] at hq
      cases hq
  next hkey =>
    obtain ⟨ps, hps, hrecords⟩ := h.mirrored key q hq
    exact ⟨ps, (if_neg (mt (h.same hlaw hq).1 hkey)).trans hps, hrecords⟩

theorem Faithful.live_step {ps : PodState} (hps : (w.step e).clearance.pods.lookup uid = some ps) :
    ∃ key q, (w.step e).cache.lookup key = some q ∧ q.uid = uid := by
  rw [step, lookup_handle] at hps
  simp only [step, Informer.lookup_deliver]
  split at hps
  next huid =>
    cases hevent : e.event with
    | upsert pod => exact ⟨pod.key, pod, if_pos rfl, by rw [huid, hevent]; rfl⟩
    | delete pod =>
      rw [hevent] at hps
      cases hps
  next huid =>
    obtain ⟨key, q, hq, rfl⟩ := h.live uid ps hps
    exact ⟨key, q, (if_neg (mt (h.same hlaw hq).2 huid)).trans hq, rfl⟩

theorem Faithful.named_step (key : ObjectName) :
    (w.step e).clearance.byName.lookup key =
      if key = e.event.object.key then e.event.current.map Pod.uid
      else w.clearance.byName.lookup key := by
  obtain ⟨now, event⟩ := e
  cases event with
  | upsert pod => exact Map.lookup_insert ..
  | delete pod =>
    obtain ⟨q₀, hq₀, huid⟩ := hlaw.2
    obtain ⟨prev, hprev, hrecords⟩ := h.mirrored pod.key q₀ hq₀
    have hkey : (⟨prev.ns, prev.name⟩ : ObjectName) = pod.key :=
      hrecords.key.trans (h.sound.keyed _ q₀ hq₀)
    have hname : w.clearance.byName.lookup pod.key = some pod.uid :=
      (h.named pod.key pod.uid).2 ⟨q₀, hq₀, huid⟩
    rw [step, handle, PodClearance.delete, ← huid, hprev]
    dsimp only
    rw [hkey, huid, if_pos hname]
    exact Map.lookup_erase ..

theorem Faithful.buried_step {p : Pod} {t : Int} (hdeleted : (w.step e).deleted uid = some (p, t)) :
    (w.step e).clearance.tombstones.lookup uid = some (tombstone p t) ∨
      tombstoneTTL < (w.step e).clock - t := by
  have hkept : tombstoneTTL < w.clock - t → tombstoneTTL < e.now - t := by
    have hclock := hlaw.1
    omega
  rw [step] at hdeleted ⊢
  cases hevent : e.event with
  | upsert pod =>
    rw [hevent] at hdeleted
    have huid : uid ≠ pod.uid := by
      rintro rfl
      exact absurd ((if_pos rfl).symm.trans hdeleted) (Option.some_ne_none _).symm
    refine (h.buried uid p t ((if_neg huid).symm.trans hdeleted)).imp (fun hts => ?_) hkept
    exact (Map.lookup_erase ..).trans ((if_neg huid).trans hts)
  | delete pod =>
    rw [hevent] at hdeleted
    rw [handle, PodClearance.delete]
    rw [Map.lookup_filter, Map.lookup_insert]
    by_cases huid : uid = pod.uid
    · cases (if_pos huid).symm.trans hdeleted
      rw [if_pos huid]
      exact Or.inl (by simp [tombstone, tombstoneTTL, hour, minute, second])
    · rw [if_neg huid]
      rcases h.buried uid p t ((if_neg huid).symm.trans hdeleted) with hts | hold
      · -- The tombstone is swept only if it is too old.
        rw [hts]
        by_cases hold : tombstoneTTL < since e.now t
        · exact Or.inr (sub_gt_of_since_gt (by decide) hold)
        · exact Or.inl (by simp [tombstone, hold])
      · exact Or.inr (hkept hold)

theorem Faithful.step :
    (w.step e).Faithful where
  sound := sound_deliver h hlaw
  mirrored _ _ := h.mirrored_step hlaw
  live _ _ := h.live_step hlaw
  indexed := by
    obtain ⟨now, event⟩ := e
    cases event with
    | upsert pod => exact PodClearance.indexed_upsert h.indexed now pod
    | delete pod => exact PodClearance.indexed_delete h.indexed now pod
  named key uid := by
    rw [h.named_step hlaw, Mirror.step, Informer.lookup_deliver]
    split
    next => rw [Option.map_eq_some_iff]
    next => exact h.named key uid
  gone uid p t hdeleted := by
    rw [Mirror.step] at hdeleted ⊢
    rw [lookup_handle]
    by_cases huid : uid = e.event.object.uid
    · have hdeletion := (if_pos huid).symm.trans hdeleted
      rw [if_pos huid]
      cases hevent : e.event with
      | upsert pod =>
        rw [hevent] at hdeletion
        cases hdeletion
      | delete pod => rfl
    · rw [if_neg huid]
      exact h.gone uid p t ((if_neg huid).symm.trans hdeleted)
  buried _ _ _ := h.buried_step hlaw

end

end Mirror

open PodClearance (deploymentOf owned vouch)

variable {controller : Option OwnerKey} {c : Caches} {inc : Incident} {q : Pod}

/-! ## The workload -/

/-- The Deployment that controls the owner of a deleted pod: the owner itself, or the one
    that controls the ReplicaSet by the caches, or else by what the incident has recorded. -/
def Controls (c : Caches) (inc : Incident) (owner : OwnerKey) (dep : GoString) : Prop :=
  dep ≠ [] ∧
    (owner.kind = bytes "Deployment" ∧ owner.name = dep ∨
      owner.kind = bytes "ReplicaSet" ∧
        (c.deploymentOf owner.ns owner.name = some dep ∨
          c.deploymentOf owner.ns owner.name = none ∧ inc.ref.ns = owner.ns ∧
            splitControllerRef inc.ref.controllerRef = some (bytes "Deployment", dep)))

/-- The pod belongs to the workload of a deleted pod with this controller. -/
def Member (c : Caches) (inc : Incident) (controller : Option OwnerKey) (q : Pod) : Prop :=
  match controller with
  | none => q.key = ⟨inc.ref.ns, inc.ref.name⟩
  | some owner => controllerOwner q = some owner ∨ ∃ dep name, Controls c inc owner dep ∧
      c.deploymentOf owner.ns name = some dep ∧
      controllerOwner q = some ⟨owner.ns, bytes "ReplicaSet", name⟩

/-- The pod may vouch for the workload. -/
def Vouches (c : Caches) (inc : Incident) (controller : Option OwnerKey) (q : Pod) : Prop :=
  match controller with
  | none => q.key = ⟨inc.ref.ns, inc.ref.name⟩
  | some owner => controllerOwner q = some owner ∨ ∃ dep rs, Controls c inc owner dep ∧
      c.Current owner.ns dep rs ∧ controllerOwner q = some ⟨owner.ns, bytes "ReplicaSet", rs.name⟩

/-- A pod that may vouch belongs to the workload. -/
theorem Vouches.member (h : Vouches c inc controller q) : Member c inc controller q := by
  cases controller with
  | none => exact h
  | some owner =>
    rcases h with howner | ⟨dep, rs, hcontrols, hcurrent, howner⟩
    · exact Or.inl howner
    · have howned : c.Owned owner.ns dep rs := hcurrent.elim (fun h => h.1) fun h => h.2.1
      refine Or.inr ⟨dep, rs.name, hcontrols, ?_, howner⟩
      rw [Caches.deploymentOf, howned.2.1, Option.bind_some, howned.2.2]

theorem controls_iff (c : Caches) (walk : Map.Walk ObjectName) (inc : Incident) (owner : OwnerKey)
    (dep : GoString) :
    Controls c inc owner dep ↔
      (owner.kind = bytes "Deployment" ∨ owner.kind = bytes "ReplicaSet") ∧
        deploymentOf (c.owners walk) owner inc = dep ∧ dep ≠ [] := by
  have hkinds : bytes "ReplicaSet" ≠ bytes "Deployment" := by decide +kernel
  have hcache : (c.owners walk).deploymentOf = c.deploymentOf := rfl
  rw [Controls, deploymentOf, hcache]
  refine and_comm.trans ((and_congr_left fun hdep => ?_).trans and_assoc)
  by_cases hkind : owner.kind = bytes "Deployment"
  · simp [hkind, hkinds.symm]
  · rw [if_neg hkind]
    simp only [hkind, false_and, false_or]
    refine and_congr_right fun _ => ?_
    cases c.deploymentOf owner.ns owner.name with
    | some dep' => simp
    | none =>
      cases splitControllerRef inc.ref.controllerRef with
      | none => simp [hdep.symm]
      | some ref =>
        simp [hdep.symm, Prod.ext_iff, ite_eq_iff, and_comm, and_left_comm]

namespace Mirror

/-- Since when the clearance holds a live pod stable. -/
def stableSince (w : Mirror) (q : Pod) : Int :=
  ((w.clearance.pods.lookup q.uid).map (·.stableSince)).getD 0

/-- The pod is live and Ready and may vouch. -/
def Vouching (w : Mirror) (c : Caches) (inc : Incident) (controller : Option OwnerKey) (q : Pod) :
    Prop :=
  w.Live q ∧ (podReadiness q).1 = true ∧ Vouches c inc controller q

/-- A verdict on a deleted pod by its workload. -/
structure Judged (w : Mirror) (c : Caches) (inc : Incident) (controller : Option OwnerKey)
    (v : Clearance) : Prop where
  recovered : v.cleared = true ∧ v.resolution = .recovered ↔ ∃ q, w.Vouching c inc controller q
  symptomatic : (∃ q, w.Live q ∧ Member c inc controller q) →
    (¬∃ q, w.Vouching c inc controller q) → v.cleared = false
  objectDeleted : v.resolution = .objectDeleted ↔ ¬∃ q, w.Live q ∧ Member c inc controller q
  stableSince : v.cleared = true ∧ v.resolution = .recovered →
    IsLeast {t | ∃ q, w.Vouching c inc controller q ∧ w.stableSince q = t} v.stableSince

/-! ## The pods of the workload -/

variable {w : Mirror} {uid : UID}

theorem Faithful.live_of_cached (h : w.Faithful) {key : ObjectName}
    (hq : w.cache.lookup key = some q) : w.Live q := by
  rw [Live, h.sound.keyed key q hq]
  exact hq

/-- Just the identities of the live pods with the property. -/
def Lists (w : Mirror) (uids : Finset UID) (P : Pod → Prop) : Prop :=
  ∀ uid, uid ∈ uids ↔ ∃ q, w.Live q ∧ q.uid = uid ∧ P q

theorem Lists.congr {uids : Finset UID} {P Q : Pod → Prop} (h : w.Lists uids P)
    (hiff : ∀ q, P q ↔ Q q) : w.Lists uids Q := by
  obtain rfl : P = Q := funext fun q => propext (hiff q)
  exact h

/-- The index by owner leads to just the live pods of the owner. -/
theorem Faithful.lists_owned (h : w.Faithful) (k : OwnerKey) :
    w.Lists (w.clearance.owned k) (controllerOwner · = some k) := by
  intro uid
  rw [h.indexed]
  constructor
  · rintro ⟨ps, hps, howner⟩
    obtain ⟨key, q, hq, rfl⟩ := h.live uid ps hps
    obtain ⟨ps', hps', hrecords⟩ := h.mirrored key q hq
    cases hps.symm.trans hps'
    exact ⟨q, h.live_of_cached hq, rfl, hrecords.owner.symm.trans howner⟩
  · rintro ⟨q, hq, rfl, howner⟩
    obtain ⟨ps, hps, hrecords⟩ := h.mirrored q.key q hq
    exact ⟨ps, hps, hrecords.owner.trans howner⟩

theorem Faithful.lists_podsUnderDeployment (h : w.Faithful) (rs : ReplicaSetOwners)
    (ns dep : GoString) {base : Finset UID} {P : Pod → Prop} (hbase : w.Lists base P) :
    w.Lists (w.clearance.podsUnderDeployment rs ns dep base) fun q =>
      P q ∨ ∃ name, rs.deploymentOf ns name = some dep ∧
        controllerOwner q = some ⟨ns, bytes "ReplicaSet", name⟩ := by
  intro uid
  rw [PodClearance.podsUnderDeployment, Finset.mem_union, Finset.mem_biUnion, hbase]
  simp only [and_or_left, exists_or]
  refine or_congr_right ⟨?_, ?_⟩
  · rintro ⟨k, hk, huid⟩
    obtain ⟨-, rfl, hkind, hdep⟩ := Finset.mem_filter.1 hk
    obtain ⟨q, hq, rfl, howner⟩ := (h.lists_owned k uid).1 huid
    exact ⟨q, hq, rfl, k.name, hdep, hkind ▸ howner⟩
  · rintro ⟨q, hq, rfl, name, hdep, howner⟩
    have huid := (h.lists_owned _ _).2 ⟨q, hq, rfl, howner⟩
    refine ⟨_, Finset.mem_filter.2 ⟨?_, rfl, rfl, hdep⟩, huid⟩
    -- An owner without an entry leads to no pod.
    by_contra hkey
    rw [Finmap.mem_keys, Map.mem_iff_ne_none, not_not] at hkey
    rw [owned, Map.getD, hkey] at huid
    exact absurd huid (Finset.notMem_empty _)

theorem Faithful.lists_workload (h : w.Faithful) (c : Caches) (walk : Map.Walk ObjectName)
    (inc : Incident) (owner : OwnerKey) :
    ∃ members vouchers,
      w.clearance.workload (some (c.owners walk)) inc owner true = some (members, vouchers) ∧
        w.Lists members (Member c inc (some owner)) ∧
        w.Lists vouchers (Vouches c inc (some owner)) := by
  have hcontrols := controls_iff c walk inc owner
  have howned := h.lists_owned owner
  -- Without a Deployment the owner's own pods are the workload.
  have hdirect : (∀ dep, ¬Controls c inc owner dep) →
      w.Lists (w.clearance.owned owner) (Member c inc (some owner)) ∧
        w.Lists (w.clearance.owned owner) (Vouches c inc (some owner)) := by
    intro hnone
    exact ⟨howned.congr fun q => by simp [Member, hnone],
      howned.congr fun q => by simp [Vouches, hnone]⟩
  unfold PodClearance.workload
  dsimp only
  by_cases hkind : owner.kind = bytes "Deployment" ∨ owner.kind = bytes "ReplicaSet"
  · rw [if_pos (hkind.imp_right fun h => ⟨rfl, h⟩), if_neg (show (c.owners walk).hasSynced ≠ false from
      Bool.false_ne_true.symm)]
    split
    next hdep =>
      refine ⟨_, _, rfl, hdirect fun dep h => ?_⟩
      obtain ⟨-, hvalue, hne⟩ := (hcontrols dep).1 h
      exact hne (hvalue.symm.trans hdep)
    next hdep =>
      have hthe : ∀ dep, Controls c inc owner dep ↔
          dep = deploymentOf (c.owners walk) owner inc := by
        intro dep
        rw [hcontrols]
        exact ⟨fun h => h.2.1.symm, fun h => ⟨hkind, h.symm, h ▸ hdep⟩⟩
      refine ⟨_, _, rfl, (h.lists_podsUnderDeployment _ _ _ howned).congr fun q => ?_, ?_⟩
      · simp [Member, hthe]
        rfl
      · have hvouches (q : Pod) : Vouches c inc (some owner) q ↔ controllerOwner q = some owner ∨
            ∃ name, (c.owners walk).currentReplicaSet owner.ns
              (deploymentOf (c.owners walk) owner inc) = some name ∧
                controllerOwner q = some ⟨owner.ns, bytes "ReplicaSet", name⟩ := by
          change _ ↔ _ ∨ ∃ name, c.currentReplicaSet walk _ _ = some name ∧ _
          simp [Vouches, hthe, c.currentReplicaSet_eq_some_iff]
        split
        next cur hcur =>
          intro uid
          simp [howned uid, h.lists_owned _ uid, hvouches, hcur, and_or_left, exists_or]
        next hcur => exact howned.congr fun q => by simp [hvouches, hcur]
  · rw [if_neg (mt (fun h => h.imp_right fun h => h.2) hkind)]
    exact ⟨_, _, rfl, hdirect fun dep h => hkind ((hcontrols dep).1 h).1⟩

/-! ## The verdict -/

/-- The instant that a pod vouches for. -/
def readySince (o : PodClearance) (uid : UID) : Option Int :=
  match o.pods.lookup uid with
  | none => none
  | some sib => if sib.ready then some sib.stableSince else none

theorem foldl_vouch (o : PodClearance) (uids : List UID) (best : Option Int) :
    uids.foldl o.vouch best =
      (uids.filterMap (readySince o)).foldl (Select.round fun t u => decide (t < u)) best := by
  induction uids generalizing best with
  | nil => rfl
  | cons uid uids ih =>
    rw [List.foldl_cons, ih, List.filterMap_cons]
    unfold vouch readySince
    cases o.pods.lookup uid with
    | none => rfl
    | some sib =>
      cases hready : sib.ready with
      | false => simp [hready]
      | true =>
        simp only [hready]
        cases best with
        | none => rfl
        | some t => simp [Select.round]

theorem Faithful.readySince_eq_some_iff (h : w.Faithful) (hq : w.Live q) {t : Int} :
    readySince w.clearance q.uid = some t ↔ (podReadiness q).1 = true ∧ w.stableSince q = t := by
  obtain ⟨ps, hps, hrecords⟩ := h.mirrored q.key q hq
  rw [readySince, Mirror.stableSince, hps, ← hrecords.ready]
  cases hready : ps.ready <;> simp [hready]

/-- A workload without live pods. -/
theorem judged_objectDeleted (hnone : ¬∃ q, w.Live q ∧ Member c inc controller q) (deletedAt : Int)
    :
    w.Judged c inc controller ⟨true, deletedAt, .objectDeleted⟩ := by
  have hnovouch : ¬∃ q, w.Vouching c inc controller q := fun ⟨q, hq, _, hvouches⟩ =>
    hnone ⟨q, hq, hvouches.member⟩
  constructor
  · exact iff_of_false (fun h => Resolution.noConfusion h.2) hnovouch
  · exact fun hsome => absurd hsome hnone
  · exact iff_of_true rfl hnone
  · exact fun h => Resolution.noConfusion h.2

/-- A workload with live pods. -/
theorem judged_live {cleared : Bool} {since : Int} (hsome : ∃ q, w.Live q ∧ Member c inc controller q)
    (hcleared : cleared = true ↔ ∃ q, w.Vouching c inc controller q)
    (hleast : cleared = true →
      IsLeast {t | ∃ q, w.Vouching c inc controller q ∧ w.stableSince q = t} since) :
    w.Judged c inc controller ⟨cleared, since, .recovered⟩ where
  recovered := (and_iff_left rfl).trans hcleared
  symptomatic _ hnone := Bool.eq_false_iff.2 (mt hcleared.1 hnone)
  objectDeleted := iff_of_false (fun h => Resolution.noConfusion h) (not_not.2 hsome)
  stableSince h := hleast h.1

theorem Faithful.judged_workload (h : w.Faithful) (c : Caches) (listed : Map.Walk ObjectName)
    (walk : Map.Walk UID) (inc : Incident) (owner : OwnerKey) (deletedAt : Int) :
    ∃ v, w.clearance.judgeWorkload (some (c.owners listed)) walk inc owner true deletedAt = some v ∧
      w.Judged c inc (some owner) v := by
  obtain ⟨members, vouchers, hworkload, hmembers, hvouchers⟩ := h.lists_workload c listed inc owner
  rw [PodClearance.judgeWorkload, hworkload, Option.map_some]
  refine ⟨_, rfl, ?_⟩
  dsimp only
  by_cases hempty : members = ∅
  · rw [if_pos hempty]
    have hnone : ¬∃ q, w.Live q ∧ Member c inc (some owner) q := by
      rintro ⟨q, hq, hmember⟩
      have huid := (hmembers q.uid).2 ⟨q, hq, rfl, hmember⟩
      exact absurd (hempty ▸ huid) (Finset.notMem_empty q.uid)
    exact judged_objectDeleted hnone deletedAt
  · rw [if_neg hempty]
    obtain ⟨uid, huid⟩ := Finset.nonempty_iff_ne_empty.2 hempty
    obtain ⟨q, hq, -, hmember⟩ := (hmembers uid).1 huid
    rw [foldl_vouch, ← Select.select]
    have hvisited : ∀ uid, uid ∈ walk.order (Map.sort vouchers) ↔ uid ∈ vouchers := by
      intro uid
      rw [(walk.perm _).mem_iff, ← Multiset.mem_coe, Map.coe_sort, Finset.mem_val]
    have hinstants (t : Int) : t ∈ (walk.order (Map.sort vouchers)).filterMap
        (readySince w.clearance) ↔ ∃ q, w.Vouching c inc (some owner) q ∧ w.stableSince q = t := by
      rw [List.mem_filterMap]
      constructor
      · rintro ⟨uid, huid, hsince⟩
        obtain ⟨q, hq, rfl, hvouches⟩ := (hvouchers uid).1 ((hvisited uid).1 huid)
        obtain ⟨hready, hstable⟩ := (h.readySince_eq_some_iff hq).1 hsince
        exact ⟨q, ⟨hq, hready, hvouches⟩, hstable⟩
      · rintro ⟨q, ⟨hq, hready, hvouches⟩, hstable⟩
        refine ⟨q.uid, (hvisited q.uid).2 ((hvouchers q.uid).2 ⟨q, hq, rfl, hvouches⟩), ?_⟩
        exact (h.readySince_eq_some_iff hq).2 ⟨hready, hstable⟩
    refine judged_live ⟨q, hq, hmember⟩ ?_ fun hsome => ?_
    · rw [Option.isSome_iff_ne_none, Ne, Select.select_eq_none, List.eq_nil_iff_forall_not_mem]
      simp [hinstants]
    · obtain ⟨t, ht⟩ := Option.isSome_iff_exists.1 hsome
      rw [ht, Option.getD_some]
      refine ⟨(hinstants t).1 (Select.select_mem ht), ?_⟩
      rintro u hu
      have hbest := Select.select_best (by simp) (by simp; omega) ht ((hinstants u).2 hu)
      simpa using hbest

/-- The verdict on a deleted pod without a controller. -/
theorem Faithful.judged_name (h : w.Faithful) (c : Caches) (inc : Incident) (deletedAt : Int) :
    ∃ v, (match (w.clearance.byName.lookup ⟨inc.ref.ns, inc.ref.name⟩).bind
          w.clearance.pods.lookup with
        | some rep => some ⟨rep.ready, rep.stableSince, .recovered⟩
        | none => some ⟨true, deletedAt, .objectDeleted⟩) = some v ∧
      w.Judged c inc none v := by
  have hcache : ∀ q, w.Live q ∧ q.key = ⟨inc.ref.ns, inc.ref.name⟩ →
      w.cache.lookup ⟨inc.ref.ns, inc.ref.name⟩ = some q := fun q hq => hq.2 ▸ hq.1
  cases hname : w.clearance.byName.lookup ⟨inc.ref.ns, inc.ref.name⟩ with
  | none =>
    refine ⟨_, rfl, judged_objectDeleted ?_ deletedAt⟩
    rintro ⟨q, hq⟩
    have hnamed := (h.named _ q.uid).2 ⟨q, hcache q hq, rfl⟩
    exact absurd (hname.symm.trans hnamed) (Option.some_ne_none _).symm
  | some uid =>
    obtain ⟨q, hcached, rfl⟩ := (h.named _ uid).1 hname
    obtain ⟨ps, hps, hrecords⟩ := h.mirrored _ q hcached
    have hkey : q.key = ⟨inc.ref.ns, inc.ref.name⟩ := h.sound.keyed _ q hcached
    have hlive : w.Live q := h.live_of_cached hcached
    have honly : ∀ q', w.Live q' ∧ q'.key = ⟨inc.ref.ns, inc.ref.name⟩ → q' = q :=
      fun q' hq' => Option.some.inj ((hcache q' hq').symm.trans hcached)
    have hstable : w.stableSince q = ps.stableSince := by
      rw [Mirror.stableSince, hps]
      rfl
    refine ⟨⟨ps.ready, ps.stableSince, .recovered⟩, ?_, judged_live ⟨q, hlive, hkey⟩ ?_ ?_⟩
    · rw [Option.bind_some, hps]
    · rw [hrecords.ready]
      constructor
      · exact fun hready => ⟨q, hlive, hready, hkey⟩
      · rintro ⟨q', hq', hready, hkey'⟩
        exact honly q' ⟨hq', hkey'⟩ ▸ hready
    · intro hready
      refine ⟨⟨q, ⟨hlive, hrecords.ready ▸ hready, hkey⟩, hstable⟩, ?_⟩
      rintro t ⟨q', ⟨hq', -, hkey'⟩, rfl⟩
      rw [honly q' ⟨hq', hkey'⟩, hstable]

/-- In every conformant run, and with any synced caches, the incident of a pod that was
    deleted less than the time of the tombstones ago is judged by the pod's workload. -/
theorem gone_pod_judged_by_workload (start : Int) (es : List Event)
    (hlaw : Run.Steps step Lawful { clock := start } es) (c : Caches) (listed : Map.Walk ObjectName)
    (walk : Map.Walk UID) (inc : Incident) (now : Int) (p : Pod) (t : Int)
    (hkind : equalFold inc.ref.kindOfObject (bytes "Pod") = true)
    (hdeleted : (es.foldl step { clock := start }).deleted inc.key.uid = some (p, t))
    (hnow : (es.foldl step { clock := start }).clock ≤ now) (hrecent : now - t < tombstoneTTL) :
    ∃ v, (es.foldl step { clock := start }).clearance.clearance true (some (c.owners listed)) walk
        inc = some v ∧
      (es.foldl step { clock := start }).Judged c inc (controllerOwner p) v := by
  have h : (es.foldl step { clock := start }).Faithful :=
    Run.invariant (fun _ _ hw hlaw => Faithful.step hw hlaw) (faithful_new start) hlaw
  generalize es.foldl step { clock := start } = w at *
  have hts : w.clearance.tombstones.lookup inc.key.uid = some (tombstone p t) := by
    refine (h.buried _ p t hdeleted).resolve_right ?_
    omega
  rw [PodClearance.clearance, if_neg (hkind ▸ Bool.false_ne_true.symm),
    if_neg Bool.false_ne_true.symm, h.gone _ p t hdeleted, hts]
  dsimp only [tombstone]
  cases controllerOwner p with
  | some owner => exact h.judged_workload c listed walk inc owner t
  | none => exact h.judged_name c inc t

/-- A pod of a ReplicaSet in the namespace of a shop. -/
def replica (uid name rs : String) (ready : Bool) : Pod where
  uid := bytes uid
  ns := bytes "shop"
  name := bytes name
  owners := [⟨bytes "apps/v1", bytes "ReplicaSet", bytes rs, [], some true⟩]
  conditions := [⟨bytes "Ready", if ready then bytes "True" else bytes "False", minute⟩]

/-- A pod that nothing controls. -/
def bare (uid : String) (ready : Bool) : Pod :=
  { replica uid "job" "" ready with owners := [] }

def podIncidentOf (uid : String) : Incident :=
  { key := ⟨bytes uid, []⟩, sessionID := [], firstSeen := 0
    ref := { ns := bytes "shop", kindOfObject := bytes "Pod", name := bytes "job" } }

/-- A rollout replaces a crashing pod by one of the new ReplicaSet. -/
def rollingOut : List Event :=
  [⟨minute, .upsert (replica "u1" "web-1-a" "web-1" false)⟩,
    ⟨minute, .upsert (replica "u2" "web-2-a" "web-2" true)⟩,
    ⟨hour, .delete (replica "u1" "web-1-a" "web-1" false)⟩]

def revised (name revision : String) : ReplicaSet where
  ns := bytes "shop"
  name := bytes name
  owners := [⟨bytes "apps/v1", bytes "Deployment", bytes "web", bytes "d1", some true⟩]
  revision := bytes revision

/-- The caches of the rollout. -/
def rolloutCaches : Caches where
  replicaSets := (∅ : Map ObjectName ReplicaSet)
    |>.insert ⟨bytes "shop", bytes "web-1"⟩ (revised "web-1" "1")
    |>.insert ⟨bytes "shop", bytes "web-2"⟩ (revised "web-2" "2")
  deployments := none
  keyed key rs h := of_decide_eq_true (Map.forall_lookup_of_keys
    (p := fun key rs => decide ((⟨rs.ns, rs.name⟩ : ObjectName) = key)) (by decide +kernel) key rs h)
  named key rs h := of_decide_eq_true (Map.forall_lookup_of_keys
    (p := fun _ rs => decide (rs.name ≠ [])) (by decide +kernel) key rs h)

/-- The events of a run that add pods of other names, or delete what is there. -/
def checked (w : Mirror) (e : Event) : Bool :=
  decide (w.clock ≤ e.now) &&
    match e.event with
    | .upsert pod => decide (∀ key ∈ w.cache.keys, (w.cache.lookup key).all
        (fun q => decide (q.uid = pod.uid ↔ key = pod.key)) = true)
    | .delete pod => (w.cache.lookup pod.key).any fun q => decide (q.uid = pod.uid)

theorem lawful_of_checked {e : Event} (h : checked w e = true) : Lawful w e := by
  rw [checked, Bool.and_eq_true, decide_eq_true_eq] at h
  refine ⟨h.1, ?_⟩
  obtain ⟨now, event⟩ := e
  cases event with
  | upsert pod =>
    intro key q hq
    exact of_decide_eq_true (Map.forall_lookup_of_keys (of_decide_eq_true h.2) key q hq)
  | delete pod =>
    obtain ⟨-, hany⟩ := h
    dsimp only at hany ⊢
    cases hq : w.cache.lookup pod.key with
    | none =>
      rw [hq] at hany
      cases hany
    | some q =>
      rw [hq] at hany
      exact ⟨q, rfl, of_decide_eq_true hany⟩

/-- The new pod vouches for the deleted one. -/
theorem rolled_pod_judged :
    ∃ v, (rollingOut.foldl step { clock := 0 }).clearance.clearance true
        (some (rolloutCaches.owners .listed)) .listed (podIncidentOf "u1") = some v ∧
      (rollingOut.foldl step { clock := 0 }).Judged rolloutCaches (podIncidentOf "u1")
        (controllerOwner (replica "u1" "web-1-a" "web-1" false)) v := by
  have hlaw : Run.Steps step Lawful { clock := 0 } rollingOut :=
    Run.Steps.mono (fun w e h => lawful_of_checked h) (by decide +kernel)
  exact gone_pod_judged_by_workload 0 rollingOut hlaw rolloutCaches .listed .listed
    (podIncidentOf "u1") hour _ hour (by decide +kernel) (if_pos rfl) (by decide) (by decide)

/-- A pod that nothing controls is replaced under its name. -/
def replacingBare : List Event :=
  [⟨minute, .upsert (bare "u1" false)⟩, ⟨hour, .delete (bare "u1" false)⟩,
    ⟨hour, .upsert (bare "u2" true)⟩]

/-- An update replaces a Ready pod, and then the other pod of its ReplicaSet is deleted. -/
def replacingByUpdate : List Event :=
  [⟨minute, .upsert (replica "u2" "job" "web-2" true)⟩, ⟨minute, .upsert (bare "u3" false)⟩,
    ⟨minute, .upsert (replica "u1" "web-2-a" "web-2" false)⟩,
    ⟨hour, .delete (replica "u1" "web-2-a" "web-2" false)⟩]

theorem conforms_upsert {cache : Map ObjectName Pod} {pod : Pod}
    (h : ∀ key ∈ cache.keys, (cache.lookup key).all
      (fun q => decide (q.uid = pod.uid → key = pod.key)) = true) :
    Informer.Conforms Pod.key Pod.uid cache (.upsert pod) := fun key q hq =>
  of_decide_eq_true (Map.forall_lookup_of_keys h key q hq)

/-- A pod that nothing controls is called recovered once a pod of its name is Ready. A pod
    that was replaced by an update vouches for its ReplicaSet although it is not live. -/
theorem recovered_without_controller :
    (Run.Steps step Lawful { clock := 0 } replacingBare ∧
        controllerOwner (bare "u1" false) = none ∧
        (replacingBare.foldl step { clock := 0 }).deleted (bytes "u1") =
          some (bare "u1" false, hour) ∧
        (replacingBare.foldl step { clock := 0 }).clearance.clearance true
          (some (rolloutCaches.owners .listed)) .listed (podIncidentOf "u1") =
            some ⟨true, minute, .recovered⟩) ∧
      Run.Steps step (fun w e => Informer.Conforms Pod.key Pod.uid w.cache e.event) { clock := 0 }
          replacingByUpdate ∧
        (replacingByUpdate.foldl step { clock := 0 }).deleted (bytes "u1") =
          some (replica "u1" "web-2-a" "web-2" false, hour) ∧
        (∀ q, (replacingByUpdate.foldl step { clock := 0 }).Live q → controllerOwner q = none) ∧
        (replacingByUpdate.foldl step { clock := 0 }).clearance.clearance true
          (some (rolloutCaches.owners .listed)) .listed (podIncidentOf "u1") =
            some ⟨true, minute, .recovered⟩ := by
  refine ⟨⟨?_, rfl, ?_, by decide +kernel⟩, ?_, if_pos rfl, ?_, by decide +kernel⟩
  · exact Run.Steps.mono (fun w e h => lawful_of_checked h)
      (by decide +kernel)
  · have hother : bytes "u1" ≠ bytes "u2" := by decide +kernel
    exact (if_neg hother).trans (if_pos rfl)
  · exact ⟨conforms_upsert (by decide +kernel), conforms_upsert (by decide +kernel),
      conforms_upsert (by decide +kernel), (Informer.lookup_deliver ..).trans (if_pos rfl), trivial⟩
  · intro q hq
    refine of_decide_eq_true (Map.forall_lookup_of_keys
      (p := fun _ q => decide (controllerOwner q = none)) (by decide +kernel) _ q hq)

end Mirror

end Lookout.Sources.ObjectState
