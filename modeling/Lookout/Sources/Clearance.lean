-- SUMMARY: In every run the clearance of the sources takes silence for deletion rightly, just as long as no quiet object is swept.
import Lookout.Lib.Informer
import Lookout.Sources.Degradation
import Lookout.Sources.Gateway
import Lookout.Sources.Rollout

/-!
# Clearance and the caches

The rollout, degradation and gateway sources answer that the object of an incident is
deleted when their mirror has no entry for it. Their sweeps drop the entries that no event
has touched for a while, and the informers run without a resync.

A source watches its caches while every cached object is in its mirror. Every event of an
informer keeps that, except the first event of a pod without a condition `Ready`. A sweep
keeps it just if it drops no entry of a cached object. While it holds, an answer of
`object_deleted` is right, and in the state in which it is lost some answer is wrong.
-/

namespace Lookout.Sources

open Engine
open Informer (Cached Conforms Tracks)

/-! ## The sources and the caches of their informers -/

/-- The three sources, and the objects that are in the caches of the informers they
    judge incidents by. -/
structure Sentinel where
  rollout : Rollout.Source
  degradation : Degradation.Source
  gateway : Gateway.Source
  deployments : Map ObjectName Rollout.Deployment := ∅
  statefulsets : Map ObjectName Rollout.StatefulSet := ∅
  slices : Map ObjectName Degradation.EndpointSlice := ∅
  pods : Map ObjectName Pod := ∅
  routing : Map (Gateway.Resource × ObjectName) Gateway.Object := ∅

/-- What happens to the sources: an event of an informer, handled at the time `now`, a
    sweep, or the end of the initial lists. -/
inductive Event where
  | deployment (now : Int) (e : Informer.Event Rollout.Deployment)
  | replicaSet (now : Int) (e : Informer.Event Rollout.ReplicaSet)
  | statefulSet (now : Int) (e : Informer.Event Rollout.StatefulSet)
  | rolloutPod (now : Int) (e : Informer.Event Pod)
  | rolloutSweep (w : Rollout.Walks) (now : Int)
  | armRollout
  | slice (now : Int) (e : Informer.Event Degradation.EndpointSlice)
  | pod (now : Int) (e : Informer.Event Pod)
  | degradationTick (w : Map.Walk ObjectName) (now : Int)
  | armDegradation
  | routing (now : Int) (e : Informer.Event Gateway.Object)
  | gatewaySweep (now : Int)
  | armGateway

namespace Rollout.Source

def deploymentEvent (now : Int) (s : Source) : Informer.Event Deployment → Source
  | .upsert d => s.onDeployment now d
  | .delete d => s.onDeploymentDelete d

def statefulSetEvent (now : Int) (s : Source) : Informer.Event StatefulSet → Source
  | .upsert sts => s.onStatefulSet now sts
  | .delete sts => s.onStatefulSetDelete sts

def replicaSetEvent (now : Int) (s : Source) : Informer.Event ReplicaSet → Source
  | .upsert rs => s.onReplicaSet now rs
  | .delete rs => s.onReplicaSetDelete rs

def podEvent (now : Int) (s : Source) : Informer.Event Pod → Source
  | .upsert p => s.onPod now p
  | .delete p => s.onPodDelete p

end Rollout.Source

namespace Degradation.Source

def sliceEvent (now : Int) (s : Source) : Informer.Event EndpointSlice → Source
  | .upsert sl => (s.onSlice now sl).1
  | .delete sl => (s.onSliceDelete now sl).1

def podEvent (now : Int) (s : Source) : Informer.Event Pod → Source
  | .upsert p => (s.onPod now p).1
  | .delete p => s.onPodDelete p

end Degradation.Source

def Gateway.Source.objectEvent (now : Int) (s : Gateway.Source) :
    Informer.Event Gateway.Object → Gateway.Source
  | .upsert o => (s.onObject now o).1
  | .delete o => s.onDelete o

namespace Sentinel

def new (rollout : Rollout.Config) (degradation : Degradation.Config) (gateway : Gateway.Config) :
    Sentinel where
  rollout := Rollout.new rollout
  degradation := Degradation.new degradation
  gateway := Gateway.new gateway

def step (b : Sentinel) : Event → Sentinel
  | .deployment now e =>
    { b with
      rollout := b.rollout.deploymentEvent now e
      deployments := Informer.deliver Rollout.Deployment.key b.deployments e }
  | .replicaSet now e => { b with rollout := b.rollout.replicaSetEvent now e }
  | .statefulSet now e =>
    { b with
      rollout := b.rollout.statefulSetEvent now e
      statefulsets := Informer.deliver Rollout.StatefulSet.key b.statefulsets e }
  | .rolloutPod now e => { b with rollout := b.rollout.podEvent now e }
  | .rolloutSweep w now => { b with rollout := (b.rollout.sweep w now).1 }
  | .armRollout => { b with rollout := { b.rollout with armed := true } }
  | .slice now e =>
    { b with
      degradation := b.degradation.sliceEvent now e
      slices := Informer.deliver Degradation.EndpointSlice.key b.slices e }
  | .pod now e =>
    { b with
      degradation := b.degradation.podEvent now e
      pods := Informer.deliver Pod.key b.pods e }
  | .degradationTick w now => { b with degradation := (b.degradation.tick w now).1 }
  | .armDegradation => { b with degradation := { b.degradation with armed := true } }
  | .routing now e =>
    { b with
      gateway := b.gateway.objectEvent now e
      routing := Informer.deliver Gateway.Object.key b.routing e }
  | .gatewaySweep now => { b with gateway := (b.gateway.sweep now).1 }
  | .armGateway => { b with gateway := { b.gateway with armed := true } }

/-- What informers and the loops of the sources do: no two cached objects share a uid, a
    deletion carries the cached object, and a source sweeps once it is armed. -/
def Conformant (b : Sentinel) : Event → Prop
  | .deployment _ e => Conforms Rollout.Deployment.key (·.uid) b.deployments e
  | .statefulSet _ e => Conforms Rollout.StatefulSet.key (·.uid) b.statefulsets e
  | .slice _ e => Conforms Degradation.EndpointSlice.key Degradation.EndpointSlice.key b.slices e
  | .pod _ e => Conforms Pod.key (·.uid) b.pods e
  | .routing _ e => Conforms Gateway.Object.key (·.uid) b.routing e
  | .rolloutSweep _ _ => b.rollout.armed = true
  | .degradationTick _ _ => b.degradation.armed = true
  | .gatewaySweep _ => b.gateway.armed = true
  | _ => True

/-! ## Silence and deletion -/

/-- The object of an incident of the rollout source is in the cache. -/
def WorkloadCached (b : Sentinel) (inc : Incident) : Prop :=
  if equalFold inc.ref.kindOfObject (bytes "Deployment") then
    Cached (fun d : Rollout.Deployment => d.uid = inc.key.uid) b.deployments
  else Cached (fun sts : Rollout.StatefulSet => sts.uid = inc.key.uid) b.statefulsets

/-- The object of an incident of the degradation source is in the cache: an
    EndpointSlice of the Service, or the pod. -/
def DegradedCached (b : Sentinel) (inc : Incident) : Prop :=
  if inc.key.reason = Degradation.Source.capacityReason then
    Cached (fun sl : Degradation.EndpointSlice =>
      sl.serviceName ≠ [] ∧ sl.service = ⟨inc.ref.ns, inc.ref.name⟩) b.slices
  else Cached (fun p : Pod => p.uid = inc.key.uid) b.pods

/-- The Gateway or HTTPRoute of an incident is in the cache. -/
def RoutingCached (b : Sentinel) (inc : Incident) : Prop :=
  Cached (fun o : Gateway.Object => o.uid = inc.key.uid) b.routing

/-- No source answers that an object is deleted while it is in the cache. -/
structure Honest (b : Sentinel) : Prop where
  rollout : ∀ inc c, b.rollout.clearance inc = some c → c.resolution = .objectDeleted →
    ¬b.WorkloadCached inc
  degradation : ∀ now inc c, b.degradation.clearance now inc = some c →
    c.resolution = .objectDeleted → ¬b.DegradedCached inc
  gateway : ∀ inc c, b.gateway.clearance inc = some c → c.resolution = .objectDeleted →
    ¬b.RoutingCached inc

/-- No sweep comes upon the entry of a cached object, or of the Service of a cached slice,
    that no event has touched for longer than `StateTTL`, and a pod is first heard of with a
    condition `Ready`. -/
def Fresh (b : Sentinel) : Event → Prop
  | .rolloutSweep _ now =>
    (∀ k d e, b.deployments.lookup k = some d → b.rollout.deployments.lookup d.uid = some e →
      now - b.rollout.cfg.stateTTL ≤ e.lastSeen) ∧
    ∀ k sts e, b.statefulsets.lookup k = some sts →
      b.rollout.statefulsets.lookup sts.uid = some e → now - b.rollout.cfg.stateTTL ≤ e.lastSeen
  | .degradationTick _ now =>
    (∀ k sl st, b.slices.lookup k = some sl → sl.serviceName ≠ [] →
      b.degradation.services.lookup sl.service = some st →
      now - b.degradation.cfg.stateTTL ≤ st.lastSeen) ∧
    ∀ k p st, b.pods.lookup k = some p → b.degradation.pods.lookup p.uid = some st →
      now - b.degradation.cfg.stateTTL ≤ st.lastSeen
  | .gatewaySweep now =>
    ∀ k o st, b.routing.lookup k = some o → b.gateway.state.lookup o.uid = some st →
      now - b.gateway.cfg.stateTTL ≤ st.lastSeen
  | .pod _ (.upsert p) => p.readyCondition ≠ none ∨ b.degradation.pods.lookup p.uid ≠ none
  | _ => True

end Sentinel

/-! ## What the sources remember after a step -/

/-- What a prune leaves is what was touched since the cutoff. -/
theorem lookup_prune {ι β : Type} [DecidableEq ι] (m : Map ι β) (lastSeen : β → Int)
    (cutoff : Int) (i : ι) :
    (Map.filter (fun _ e => !(lastSeen e < cutoff)) m).lookup i ≠ none ↔
      ∃ e, m.lookup i = some e ∧ cutoff ≤ lastSeen e := by
  rw [Map.lookup_filter]
  cases m.lookup i with
  | none => simp
  | some e => simp

namespace Degradation

theorem recordAndEvaluate_frame (cfg : Config) (armed : Bool) (key : ObjectName) (now : Int)
    (st : SvcState) :
    (recordAndEvaluate cfg armed key now st).1.slices = st.slices ∧
      (recordAndEvaluate cfg armed key now st).1.lastSeen = st.lastSeen := by
  change (evaluate cfg armed key now _).1.slices = st.slices ∧
    (evaluate cfg armed key now _).1.lastSeen = st.lastSeen
  unfold evaluate
  split
  · dsimp only
    repeat' split
    all_goals exact ⟨rfl, rfl⟩
  · exact ⟨rfl, rfl⟩

namespace Source

/-- A slice is counted for its Service. -/
def KnowsSlice (s : Source) (sl : ObjectName × GoString) : Prop :=
  ∃ st, s.services.lookup sl.1 = some st ∧ st.slices.lookup sl.2 ≠ none

variable (now : Int)

theorem onSlice_knows (sl : EndpointSlice) (s : Source) (i : ObjectName × GoString) :
    (s.onSlice now sl).1.KnowsSlice i ↔
      s.KnowsSlice i ∨ (sl.serviceName ≠ [] ∧ i = (sl.service, sl.name)) := by
  obtain ⟨svc, n⟩ := i
  unfold onSlice
  split
  next hlabel => simp [hlabel]
  next hlabel =>
    simp only [KnowsSlice, hlabel, ne_eq]
    by_cases hsvc : svc = sl.service
    · subst hsvc
      simp only [if_true, Option.some.injEq, exists_eq_left', recordAndEvaluate_frame,
        Map.lookup_insert]
      by_cases hn : n = sl.name
      · simp [hn]
      · cases s.services.lookup sl.service with
        | none => simp
        | some st => simp [hn]
    · simp [hsvc]

theorem onSliceDelete_knows {now : Int} {sl : EndpointSlice} {s : Source}
    {i : ObjectName × GoString} (hi : i ≠ (sl.service, sl.name)) (h : s.KnowsSlice i) :
    (s.onSliceDelete now sl).1.KnowsSlice i := by
  obtain ⟨svc, n⟩ := i
  obtain ⟨st, hst, hn⟩ := h
  unfold onSliceDelete
  split
  · exact ⟨st, hst, hn⟩
  split
  · exact ⟨st, hst, hn⟩
  next st' hst' =>
    dsimp only
    by_cases hsvc : svc = sl.service
    · -- The slice is one of the same Service under another name, so it is still there.
      subst hsvc
      obtain rfl : st = st' := Option.some.inj (hst.symm.trans hst')
      have hname : n ≠ sl.name := fun hname => hi (by rw [hname])
      have hleft : (st.slices.erase sl.name).lookup n ≠ none := by
        rw [Map.lookup_erase, if_neg hname]
        exact hn
      split
      next hempty => simp [Map.eq_empty_of_keys hempty] at hleft
      next => simpa [KnowsSlice, recordAndEvaluate_frame] using hleft
    · split <;> simpa [KnowsSlice, hsvc, hst] using hn

theorem onPod_knows (p : Pod) (s : Source) (u : UID) :
    (s.onPod now p).1.pods.lookup u ≠ none ↔
      s.pods.lookup u ≠ none ∨ (u = p.uid ∧ p.readyCondition ≠ none) := by
  have hinsert : ∀ st : PodFlapState, (s.pods.insert p.uid st).lookup u ≠ none ↔
      s.pods.lookup u ≠ none ∨ u = p.uid := by
    intro st
    rw [Map.lookup_insert]
    by_cases hu : u = p.uid <;> simp [hu]
  unfold onPod
  split
  next hready => simp [hready]
  next ready hready =>
    simp only [hready, ne_eq, reduceCtorEq, not_false_eq_true, and_true]
    split
    · exact hinsert _
    · repeat' split
      all_goals exact hinsert _

theorem sliceEvent_frame (s : Source) (e : Informer.Event EndpointSlice) :
    (s.sliceEvent now e).pods = s.pods ∧ (s.sliceEvent now e).armed = s.armed := by
  cases e with
  | upsert sl =>
    simp only [sliceEvent, onSlice]
    split <;> exact ⟨rfl, rfl⟩
  | delete sl =>
    simp only [sliceEvent, onSliceDelete]
    repeat' split
    all_goals exact ⟨rfl, rfl⟩

theorem podEvent_frame (s : Source) (e : Informer.Event Pod) :
    (s.podEvent now e).services = s.services ∧ (s.podEvent now e).armed = s.armed := by
  cases e with
  | upsert p =>
    simp only [podEvent, onPod]
    repeat' split
    all_goals exact ⟨rfl, rfl⟩
  | delete p => exact ⟨rfl, rfl⟩

theorem lookup_tick_services (w : Map.Walk ObjectName) (now : Int) (s : Source)
    (k : ObjectName) : (s.tick w now).1.services.lookup k =
      ((s.services.lookup k).map fun st => (recordAndEvaluate s.cfg s.armed k now st).1).filter
        fun st => !(st.lastSeen < now - s.cfg.stateTTL) := by
  unfold tick
  rw [Map.lookup_filter, Map.lookup_revise fun k hk => Map.mem_walk.mpr hk]
  cases s.services.lookup k <;> rfl

theorem tick_knows (w : Map.Walk ObjectName) (now : Int) (s : Source)
    (i : ObjectName × GoString) : (s.tick w now).1.KnowsSlice i ↔
      ∃ st, s.services.lookup i.1 = some st ∧ st.slices.lookup i.2 ≠ none ∧
        now - s.cfg.stateTTL ≤ st.lastSeen := by
  unfold KnowsSlice
  rw [lookup_tick_services]
  cases s.services.lookup i.1 with
  | none => simp
  | some st =>
    have hframe := recordAndEvaluate_frame s.cfg s.armed i.1 now st
    simp only [Option.map_some, Option.filter_some, hframe.2, Option.some.injEq, exists_eq_left']
    by_cases hstale : st.lastSeen < now - s.cfg.stateTTL
    · simp [hstale, not_le.mpr hstale]
    · simp [hstale, hframe.1, not_lt.mp hstale]

end Source

end Degradation

namespace Gateway.Source

variable (now : Int) (s : Source)

theorem fireableLocked_frame :
    (s.fireableLocked now).1.cfg = s.cfg ∧ (s.fireableLocked now).1.armed = s.armed := by
  unfold fireableLocked
  split <;> exact ⟨rfl, rfl⟩

theorem fireableLocked_lastSeen (u : UID) :
    ((s.fireableLocked now).1.state.lookup u).map (·.lastSeen) =
      (s.state.lookup u).map (·.lastSeen) := by
  unfold fireableLocked
  split
  · rfl
  · simp only [Map.lookup_mapVals, Option.map_map]
    rfl

theorem onObject_knows (o : Object) (s : Source) (u : UID) :
    (s.onObject now o).1.state.lookup u ≠ none ↔ s.state.lookup u ≠ none ∨ u = o.uid := by
  unfold onObject
  rw [← Option.isSome_iff_ne_none, ← Option.isSome_map, fireableLocked_lastSeen,
    Option.isSome_map, Option.isSome_iff_ne_none, Map.lookup_insert]
  by_cases hu : u = o.uid <;> simp [hu]

theorem sweep_knows (u : UID) :
    (s.sweep now).1.state.lookup u ≠ none ↔
      ∃ st, s.state.lookup u = some st ∧ now - s.cfg.stateTTL ≤ st.lastSeen := by
  have hseen := fireableLocked_lastSeen now s u
  unfold sweep
  rw [lookup_prune, (fireableLocked_frame now s).1]
  have hiff (o : Option ObjState) : (∃ st, o = some st ∧ now - s.cfg.stateTTL ≤ st.lastSeen) ↔
      ∃ t ∈ o.map (·.lastSeen), now - s.cfg.stateTTL ≤ t := by simp
  rw [hiff, hseen, hiff]

end Gateway.Source

/-! ## When a source answers that an object is deleted -/

variable {s : Source} {c : Clearance} {inc : Incident}

theorem Rollout.Source.lookup_of_gone (h : s.clearance inc = some c)
    (hgone : c.resolution = .objectDeleted) :
    if equalFold inc.ref.kindOfObject (bytes "Deployment") then
      s.deployments.lookup inc.key.uid = none
    else s.statefulsets.lookup inc.key.uid = none := by
  have hverdict : ∀ complete, (s.workloadVerdict complete inc.key.uid).resolution =
      .objectDeleted → complete = none := by
    intro complete hres
    cases complete with
    | none => rfl
    | some _ => cases hres
  unfold clearance at h
  dsimp only at h
  split_ifs at h ⊢
  all_goals
    rw [← Option.some.inj h] at hgone
    exact Option.map_eq_none_iff.mp (hverdict _ hgone)

theorem Degradation.Source.lookup_of_gone {now : Int} (h : s.clearance now inc = some c)
    (hgone : c.resolution = .objectDeleted) :
    if inc.key.reason = capacityReason then s.services.lookup ⟨inc.ref.ns, inc.ref.name⟩ = none
    else s.pods.lookup inc.key.uid = none := by
  split
  next hreason =>
    cases hst : s.services.lookup ⟨inc.ref.ns, inc.ref.name⟩ with
    | none => rfl
    | some st =>
      simp only [clearance, hreason, hst, if_true] at h
      split_ifs at h
      all_goals
        rw [← Option.some.inj h] at hgone
        cases hgone
  next hreason =>
    cases hst : s.pods.lookup inc.key.uid with
    | none => rfl
    | some st =>
      simp only [clearance, hreason, hst, if_false] at h
      split_ifs at h
      all_goals
        rw [← Option.some.inj h] at hgone
        cases hgone

theorem Gateway.Source.lookup_of_gone (h : s.clearance inc = some c)
    (hgone : c.resolution = .objectDeleted) : s.state.lookup inc.key.uid = none := by
  cases hst : s.state.lookup inc.key.uid with
  | none => rfl
  | some st =>
    -- The verdicts on an object that is there do not say that it is gone.
    simp only [clearance, hst] at h
    split_ifs at h
    all_goals
      rw [← Option.some.inj h] at hgone
      cases hgone

/-- An incident about an object. -/
def incidentAbout (kind reason : GoString) (uid : UID) (object : ObjectName) : Incident where
  key := ⟨uid, reason⟩
  sessionID := []
  firstSeen := 0
  ref := { ns := object.ns, kindOfObject := kind, name := object.name }

end Lookout.Sources

namespace Lookout.Sources.Sentinel

open Engine Degradation.Source
open Informer (Cached Conforms Tracks)

/-! ## Clearance along runs -/

variable {b : Sentinel} {now : Int} {w : Rollout.Walks}

/-- Every cached object is in the mirror of its source. -/
structure Watches (b : Sentinel) : Prop where
  deployments : Tracks Rollout.Deployment.key (·.uid) (fun _ => True) b.deployments
    fun u => b.rollout.deployments.lookup u ≠ none
  statefulsets : Tracks Rollout.StatefulSet.key (·.uid) (fun _ => True) b.statefulsets
    fun u => b.rollout.statefulsets.lookup u ≠ none
  slices : Tracks Degradation.EndpointSlice.key (fun sl => (sl.service, sl.name))
    (·.serviceName ≠ []) b.slices b.degradation.KnowsSlice
  pods : Tracks Pod.key (·.uid) (fun _ => True) b.pods fun u => b.degradation.pods.lookup u ≠ none
  routing : Tracks Gateway.Object.key (·.uid) (fun _ => True) b.routing
    fun u => b.gateway.state.lookup u ≠ none

theorem watches_new (rollout : Rollout.Config) (degradation : Degradation.Config)
    (gateway : Gateway.Config) : (new rollout degradation gateway).Watches :=
  ⟨.empty, .empty, .empty, .empty, .empty⟩

theorem Watches.honest (h : b.Watches) : b.Honest := by
  constructor
  · intro inc c hc hgone hcached
    have hlost := Rollout.Source.lookup_of_gone hc hgone
    unfold WorkloadCached at hcached
    split at hlost
    next hkind =>
      rw [if_pos hkind] at hcached
      obtain ⟨k, d, hk, hd⟩ := hcached
      exact h.deployments.known k d hk trivial (hd ▸ hlost)
    next hkind =>
      rw [if_neg hkind] at hcached
      obtain ⟨k, sts, hk, hsts⟩ := hcached
      exact h.statefulsets.known k sts hk trivial (hsts ▸ hlost)
  · intro now inc c hc hgone hcached
    have hlost := lookup_of_gone hc hgone
    unfold DegradedCached at hcached
    split at hlost
    next hreason =>
      rw [if_pos hreason] at hcached
      obtain ⟨k, sl, hk, hlabel, hservice⟩ := hcached
      obtain ⟨st, hst, -⟩ := h.slices.known k sl hk hlabel
      rw [hservice, hlost] at hst
      cases hst
    next hreason =>
      rw [if_neg hreason] at hcached
      obtain ⟨k, p, hk, hp⟩ := hcached
      exact h.pods.known k p hk trivial (hp ▸ hlost)
  · intro inc c hc hgone hcached
    obtain ⟨k, o, hk, ho⟩ := hcached
    exact h.routing.known k o hk trivial (ho ▸ Gateway.Source.lookup_of_gone hc hgone)

/-! ## One step -/

section Handlers

variable (h : b.Watches)

include h

theorem Watches.deployment {e : Informer.Event Rollout.Deployment}
    (hconf : b.Conformant (.deployment now e)) : (b.step (.deployment now e)).Watches := by
  refine ⟨?_, ?_, h.slices, h.pods, h.routing⟩
  · cases e with
    | upsert d => exact h.deployments.mirror_upsert hconf _
    | delete d => exact h.deployments.mirror_delete hconf
  · cases e <;> exact h.statefulsets

theorem Watches.statefulSet {e : Informer.Event Rollout.StatefulSet}
    (hconf : b.Conformant (.statefulSet now e)) : (b.step (.statefulSet now e)).Watches := by
  refine ⟨?_, ?_, h.slices, h.pods, h.routing⟩
  · cases e <;> exact h.deployments
  · cases e with
    | upsert sts => exact h.statefulsets.mirror_upsert hconf _
    | delete sts => exact h.statefulsets.mirror_delete hconf

theorem Watches.slice {e : Informer.Event Degradation.EndpointSlice}
    (hconf : b.Conformant (.slice now e)) : (b.step (.slice now e)).Watches := by
  refine ⟨h.deployments, h.statefulsets, ?_, ?_, h.routing⟩
  · cases e with
    | upsert sl =>
      refine h.slices.upsert ?_ (fun i hi => ?_) fun hlabel => ?_
      · intro k sl' hk hid
        rw [← h.slices.keyed k sl' hk]
        have hns : sl'.ns = sl.ns := congrArg (fun i => i.1.ns) hid
        have hname : sl'.name = sl.name := congrArg (fun i => i.2) hid
        rw [Degradation.EndpointSlice.key, Degradation.EndpointSlice.key, hns, hname]
      · exact (onSlice_knows now sl _ i).mpr (Or.inl hi)
      · exact (onSlice_knows now sl _ _).mpr (Or.inr ⟨hlabel, rfl⟩)
    | delete sl =>
      refine h.slices.delete hconf fun sl' _ hne hi => ?_
      exact onSliceDelete_knows hne hi
  · refine h.pods.of_known fun k p _ _ hu => ?_
    exact (b.degradation.sliceEvent_frame now e).1 ▸ hu

theorem Watches.pod {e : Informer.Event Pod} (hconf : b.Conformant (.pod now e))
    (hfresh : b.Fresh (.pod now e)) : (b.step (.pod now e)).Watches := by
  refine ⟨h.deployments, h.statefulsets, ?_, ?_, h.routing⟩
  · refine h.slices.of_known fun k sl _ _ hi => ?_
    simp only [step, Degradation.Source.KnowsSlice, b.degradation.podEvent_frame now e]
    exact hi
  · cases e with
    | upsert p =>
      refine h.pods.upsert hconf (fun u hu => ?_) fun _ => ?_
      · exact (onPod_knows now p _ u).mpr (Or.inl hu)
      · refine (onPod_knows now p _ p.uid).mpr ?_
        rcases hfresh with hready | hknown
        · exact Or.inr ⟨rfl, hready⟩
        · exact Or.inl hknown
    | delete p => exact h.pods.mirror_delete hconf

theorem Watches.routingEvent {e : Informer.Event Gateway.Object}
    (hconf : b.Conformant (.routing now e)) : (b.step (.routing now e)).Watches := by
  refine ⟨h.deployments, h.statefulsets, h.slices, h.pods, ?_⟩
  cases e with
  | upsert o =>
    refine h.routing.upsert hconf (fun u hu => ?_) fun _ => ?_
    · exact (Gateway.Source.onObject_knows now o _ u).mpr (Or.inl hu)
    · exact (Gateway.Source.onObject_knows now o _ o.uid).mpr (Or.inr rfl)
  | delete o => exact h.routing.mirror_delete hconf

end Handlers

section Sweeps

variable (h : b.Watches)

include h

theorem Watches.rolloutSweep (hfresh : b.Fresh (.rolloutSweep w now)) :
    (b.step (.rolloutSweep w now)).Watches := by
  refine ⟨?_, ?_, h.slices, h.pods, h.routing⟩
  · refine h.deployments.of_known fun k d hk _ hu => ?_
    obtain ⟨e, he⟩ := Option.ne_none_iff_exists'.mp hu
    exact (lookup_prune _ _ _ _).mpr ⟨e, he, hfresh.1 k d e hk he⟩
  · refine h.statefulsets.of_known fun k sts hk _ hu => ?_
    obtain ⟨e, he⟩ := Option.ne_none_iff_exists'.mp hu
    exact (lookup_prune _ _ _ _).mpr ⟨e, he, hfresh.2 k sts e hk he⟩

theorem Watches.degradationTick {w : Map.Walk ObjectName}
    (hfresh : b.Fresh (.degradationTick w now)) : (b.step (.degradationTick w now)).Watches := by
  refine ⟨h.deployments, h.statefulsets, ?_, ?_, h.routing⟩
  · refine h.slices.of_known fun k sl hk hlabel hi => ?_
    obtain ⟨st, hst, hslice⟩ := hi
    exact (tick_knows w now _ _).mpr
      ⟨st, hst, hslice, hfresh.1 k sl st hk hlabel hst⟩
  · refine h.pods.of_known fun k p hk _ hu => ?_
    obtain ⟨st, hst⟩ := Option.ne_none_iff_exists'.mp hu
    exact (lookup_prune _ _ _ _).mpr ⟨st, hst, hfresh.2 k p st hk hst⟩

theorem Watches.gatewaySweep (hfresh : b.Fresh (.gatewaySweep now)) :
    (b.step (.gatewaySweep now)).Watches := by
  refine ⟨h.deployments, h.statefulsets, h.slices, h.pods, ?_⟩
  refine h.routing.of_known fun k o hk _ hu => ?_
  obtain ⟨st, hst⟩ := Option.ne_none_iff_exists'.mp hu
  exact (Gateway.Source.sweep_knows now _ _).mpr ⟨st, hst, hfresh k o st hk hst⟩

end Sweeps

variable {e : Event}

/-- Every step that keeps to the condition keeps the mirrors complete. -/
theorem Watches.step (h : b.Watches) (hconf : b.Conformant e) (hfresh : b.Fresh e) :
    (b.step e).Watches := by
  cases e with
  | deployment now e => exact h.deployment hconf
  | replicaSet now e | rolloutPod now e =>
    cases e <;> exact ⟨h.deployments, h.statefulsets, h.slices, h.pods, h.routing⟩
  | statefulSet now e => exact h.statefulSet hconf
  | rolloutSweep w now => exact h.rolloutSweep hfresh
  | armRollout | armDegradation | armGateway =>
    exact ⟨h.deployments, h.statefulsets, h.slices, h.pods, h.routing⟩
  | slice now e => exact h.slice hconf
  | pod now e => exact h.pod hconf hfresh
  | degradationTick w now => exact h.degradationTick hfresh
  | routing now e => exact h.routingEvent hconf
  | gatewaySweep now => exact h.gatewaySweep hfresh

/-! ## A step that does not keep to the condition -/

/-- An entry that a prune leaves was touched since the cutoff. -/
theorem le_of_prune {ι β : Type} [DecidableEq ι] {m : Map ι β} {lastSeen : β → Int} {cutoff : Int}
    {i : ι} {e : β} (he : m.lookup i = some e)
    (h : (Map.filter (fun _ e => !(lastSeen e < cutoff)) m).lookup i ≠ none) :
    cutoff ≤ lastSeen e := by
  obtain ⟨e', he', hle⟩ := (lookup_prune m lastSeen cutoff i).mp h
  obtain rfl : e = e' := Option.some.inj (he.symm.trans he')
  exact hle

section Lost

variable {k : ObjectName}

section

variable (h : b.Honest)

include h

theorem Honest.knows_deployment {d : Rollout.Deployment} (harmed : b.rollout.armed = true)
    (hk : b.deployments.lookup k = some d) : b.rollout.deployments.lookup d.uid ≠ none := by
  intro hgone
  refine h.rollout (incidentAbout (bytes "Deployment") (bytes "rollout_stall") d.uid k)
    objectGone ?_ rfl ?_
  · simp [Rollout.Source.clearance, incidentAbout, harmed, hgone, Rollout.Source.workloadVerdict]
  · simp only [WorkloadCached, incidentAbout, equalFold_self]
    exact ⟨k, d, hk, rfl⟩

theorem Honest.knows_statefulSet {sts : Rollout.StatefulSet} (harmed : b.rollout.armed = true)
    (hk : b.statefulsets.lookup k = some sts) : b.rollout.statefulsets.lookup sts.uid ≠ none := by
  intro hgone
  refine h.rollout (incidentAbout (bytes "StatefulSet") (bytes "rollout_stall") sts.uid k)
    objectGone ?_ rfl ?_
  · simp [Rollout.Source.clearance, incidentAbout, harmed, hgone, Rollout.Source.workloadVerdict]
  · simp only [WorkloadCached, incidentAbout, Rollout.equalFold_statefulSet]
    exact ⟨k, sts, hk, rfl⟩

theorem Honest.knows_service {sl : Degradation.EndpointSlice} (harmed : b.degradation.armed = true)
    (hk : b.slices.lookup k = some sl) (hlabel : sl.serviceName ≠ []) :
    b.degradation.services.lookup sl.service ≠ none := by
  intro hgone
  refine h.degradation 0
    (incidentAbout (bytes "Service") capacityReason [] sl.service)
    objectGone ?_ rfl ?_
  · simp [clearance, incidentAbout, harmed, hgone]
  · simp only [DegradedCached, incidentAbout]
    exact ⟨k, sl, hk, hlabel, rfl⟩

theorem Honest.knows_pod {p : Pod} (harmed : b.degradation.armed = true)
    (hk : b.pods.lookup k = some p) : b.degradation.pods.lookup p.uid ≠ none := by
  have hreason : probeFlapReason ≠ capacityReason := by
    decide +kernel
  intro hgone
  refine h.degradation 0 (incidentAbout (bytes "Pod") probeFlapReason p.uid k)
    objectGone ?_ rfl ?_
  · simp [clearance, incidentAbout, hreason, harmed, hgone]
  · simp only [DegradedCached, incidentAbout, hreason]
    exact ⟨k, p, hk, rfl⟩

end

theorem fresh_of_rolloutSweep (harmed : b.rollout.armed = true)
    (h : (b.step (.rolloutSweep w now)).Honest) : b.Fresh (.rolloutSweep w now) :=
  ⟨fun _ _ _ hk he => le_of_prune he (h.knows_deployment harmed hk),
    fun _ _ _ hk he => le_of_prune he (h.knows_statefulSet harmed hk)⟩

theorem fresh_of_degradationTick {w : Map.Walk ObjectName} (harmed : b.degradation.armed = true)
    (h : (b.step (.degradationTick w now)).Honest) : b.Fresh (.degradationTick w now) := by
  refine ⟨fun k sl st hk hlabel hst => ?_, fun _ _ _ hk hst => le_of_prune hst (h.knows_pod harmed hk)⟩
  by_contra hstale
  refine h.knows_service harmed hk hlabel ?_
  have hframe := Degradation.recordAndEvaluate_frame b.degradation.cfg b.degradation.armed
    sl.service now st
  rw [step, lookup_tick_services, hst]
  simp [hframe.2, not_le.mp hstale, Option.filter]

theorem fresh_of_gatewaySweep (harmed : b.gateway.armed = true)
    (h : (b.step (.gatewaySweep now)).Honest) : b.Fresh (.gatewaySweep now) := by
  have harmed' : (b.gateway.sweep now).1.armed = true :=
    (b.gateway.fireableLocked_frame now).2.trans harmed
  intro k o st hk hst
  by_contra hstale
  have hgone : (b.gateway.sweep now).1.state.lookup o.uid = none := by
    by_contra hknown
    obtain ⟨st', hst', hle⟩ := (Gateway.Source.sweep_knows now _ _).mp hknown
    obtain rfl : st = st' := Option.some.inj (hst.symm.trans hst')
    exact hstale hle
  refine h.gateway (incidentAbout [] (Gateway.Kind.reason .programmingFailed) o.uid k.2) objectGone
    ?_ rfl ⟨k, o, hk, rfl⟩
  simp [step, Gateway.Source.clearance, incidentAbout, harmed', hgone]

theorem fresh_of_pod {e : Informer.Event Pod} (harmed : b.degradation.armed = true)
    (h : (b.step (.pod now e)).Honest) : b.Fresh (.pod now e) := by
  have harmed' := (b.degradation.podEvent_frame now e).2.trans harmed
  cases e with
  | delete p => trivial
  | upsert p =>
    have hknown := h.knows_pod (k := p.key) (p := p) harmed' (by simp [step, Informer.deliver])
    exact ((onPod_knows now p _ p.uid).mp hknown).symm.imp_left And.right

end Lost

/-- Every source has seen its initial lists. -/
structure Armed (b : Sentinel) : Prop where
  rollout : b.rollout.armed = true
  degradation : b.degradation.armed = true
  gateway : b.gateway.armed = true

theorem fresh_of_honest (harmed : b.Armed) (h : (b.step e).Honest) : b.Fresh e := by
  cases e with
  | rolloutSweep w now => exact fresh_of_rolloutSweep harmed.rollout h
  | pod now e => exact fresh_of_pod harmed.degradation h
  | degradationTick w now => exact fresh_of_degradationTick harmed.degradation h
  | gatewaySweep now => exact fresh_of_gatewaySweep harmed.gateway h
  | _ => trivial

theorem Armed.step (h : b.Armed) (e : Event) : (b.step e).Armed := by
  obtain ⟨hrollout, hdegradation, hgateway⟩ := h
  cases e with
  | deployment now e | replicaSet now e | statefulSet now e | rolloutPod now e =>
    cases e <;> exact ⟨hrollout, hdegradation, hgateway⟩
  | rolloutSweep w now | degradationTick w now => exact ⟨hrollout, hdegradation, hgateway⟩
  | armRollout => exact ⟨rfl, hdegradation, hgateway⟩
  | slice now e =>
    exact ⟨hrollout, (b.degradation.sliceEvent_frame now e).2.trans hdegradation, hgateway⟩
  | pod now e =>
    exact ⟨hrollout, (b.degradation.podEvent_frame now e).2.trans hdegradation, hgateway⟩
  | armDegradation => exact ⟨hrollout, rfl, hgateway⟩
  | routing now e =>
    refine ⟨hrollout, hdegradation, ?_⟩
    cases e with
    | upsert o => exact (Gateway.Source.fireableLocked_frame now _).2.trans hgateway
    | delete o => exact hgateway
  | gatewaySweep now =>
    exact ⟨hrollout, hdegradation, (b.gateway.fireableLocked_frame now).2.trans hgateway⟩
  | armGateway => exact ⟨hrollout, hdegradation, rfl⟩

/-! ## Whole runs -/

/-- The sources see all of their caches and judge. -/
structure Judges (b : Sentinel) : Prop where
  watches : b.Watches
  armed : b.Armed

def api : Rollout.Deployment := { uid := bytes "u1", ns := bytes "prod", name := bytes "api" }

/-- The sources start, and a Deployment is added. -/
def startUp : List Event :=
  [.armRollout, .armDegradation, .armGateway, .deployment hour (.upsert api)]

theorem conformant_startUp (now : Int) : Run.Steps step Conformant (new {} {} {})
    (startUp ++ [.rolloutSweep .listed now]) := by
  refine ⟨trivial, trivial, trivial, ?_, rfl, trivial⟩
  intro k d hk
  cases hk

/-- In every run the sources are right about deletions in every state as long as every
    step keeps to the condition. From a state on in which all of them are armed, they are
    right just as long. -/
theorem clearance_honest (rollout : Rollout.Config) (degradation : Degradation.Config)
    (gateway : Gateway.Config) {pre post : List Event}
    (hconf : Run.Steps step Conformant (new rollout degradation gateway) (pre ++ post))
    (hpre : Run.Steps step Fresh (new rollout degradation gateway) pre) :
    (Run.Steps step Fresh (pre.foldl step (new rollout degradation gateway)) post →
      Run.Always step Honest (new rollout degradation gateway) (pre ++ post)) ∧
    ((pre.foldl step (new rollout degradation gateway)).Armed →
      (Run.Always step Honest (pre.foldl step (new rollout degradation gateway)) post ↔
        Run.Steps step Fresh (pre.foldl step (new rollout degradation gateway)) post)) := by
  have hnew := watches_new rollout degradation gateway
  generalize new rollout degradation gateway = b at hconf hpre hnew ⊢
  have hkeep : ∀ b e, Watches b → Conformant b e ∧ Fresh b e → (b.step e).Watches :=
    fun b e h hboth => h.step hboth.1 hboth.2
  obtain ⟨hconfPre, hconfPost⟩ := Run.steps_append.mp hconf
  constructor
  · intro hpost
    have hfresh := Run.steps_append.mpr ⟨hpre, hpost⟩
    intro run hrun
    exact (Run.Steps.always hkeep hnew (hconf.and hfresh) run hrun).honest
  · intro harmed
    have hwatches : (pre.foldl step b).Watches := Run.invariant hkeep hnew (hconfPre.and hpre)
    have hjudges : (pre.foldl step b).Judges := ⟨hwatches, harmed⟩
    refine Run.always_iff_steps_of_invariant ?_ ?_ ?_ hjudges hconfPost
    · exact fun b h => h.watches.honest
    · exact fun b e h hlaw hfresh => ⟨h.watches.step hlaw hfresh, h.armed.step e⟩
    · exact fun b e h _ hhonest => fresh_of_honest h.armed hhonest

theorem sweep_within_ttl_honest :
    Run.Steps step Fresh (startUp.foldl step (new {} {} {})) [.rolloutSweep .listed (2 * hour)] ∧
      Run.Always step Honest (new {} {} {}) (startUp ++ [.rolloutSweep .listed (2 * hour)]) := by
  have hfresh : Run.Steps step Fresh (startUp.foldl step (new {} {} {}))
      [.rolloutSweep .listed (2 * hour)] := by
    refine ⟨⟨?_, ?_⟩, trivial⟩
    · intro k d e _ he
      rcases Map.of_lookup_insert he with ⟨-, rfl⟩ | ⟨-, he⟩
      · decide +kernel
      · cases he
    · intro k sts e hk
      cases hk
  exact ⟨hfresh, (clearance_honest {} {} {} (conformant_startUp _)
    ⟨trivial, trivial, trivial, trivial, trivial⟩).1 hfresh⟩

/-- A day and two hours after its last event a Deployment is called deleted. -/
theorem quiet_deployment_called_deleted :
    ∃ (es : List Event) (inc : Incident), Run.Steps step Conformant (new {} {} {}) es ∧
      (es.foldl step (new {} {} {})).WorkloadCached inc ∧
      (es.foldl step (new {} {} {})).rollout.clearance inc = some objectGone := by
  refine ⟨startUp ++ [.rolloutSweep .listed (27 * hour)],
    incidentAbout (bytes "Deployment") (bytes "rollout_stall") api.uid api.key,
    conformant_startUp _, ?_, by decide +kernel⟩
  simp only [WorkloadCached, incidentAbout, equalFold_self]
  exact ⟨api.key, api, by decide +kernel, rfl⟩

end Lookout.Sources.Sentinel
