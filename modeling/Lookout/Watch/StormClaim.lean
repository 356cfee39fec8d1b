-- SUMMARY: Storm members and the unbound-retry guard, and what a sibling fold leaves behind when its payload is not delivered.
import Lookout.Watch.StormFiling

/-!
# Storm members and the unbound-retry guard

A duplicate of an incident without a session opens one, unless the incident is filed
under a storm. Once an entry is filed no step takes it out, so the guard keeps holding.
Whether the entry is filed in the first place is decided by the verdict's handler.

`SessionForSibling` counts an incident at the root of its group before the payload is sent.
When the sink refuses the payload, nothing takes the count back. The link to the root is
dropped where a new session is bound, so it stays when there is none.
-/

namespace Lookout.Engine.DedupCache

variable {key : EventKey} {now : Int} {fp : GoString}

/-! ## Duplicates without a session -/

variable {c c' : DedupCache} {e : DedupEntry} {o : Loops} {obs : Observation}
  {isOpen : EventKey → Bool}

theorem keptOpen_session (h : c.keptOpen isOpen key e = true) : e.sessionID ≠ [] :=
  (of_decide_eq_true h).2.1

/-- A duplicate that is answered without a session speaks for the key's own entry. -/
theorem Observed.storm_of_unbound {result : DedupResult}
    (h : Observed now isOpen o key obs c c' result) (hkind : result.kind = .duplicate)
    (hreplay : result.replay = false) (hunbound : result.sessionID = []) :
    ∃ e, c.entries.lookup key = some e ∧ result.storm = e.storm := by
  have hroot {e root root₀ : DedupEntry} {rk : EventKey}
      (hdel : c.delegate isOpen e = some (rk, root))
      (hroot₀ : root₀ = if rk = key then touch now obs.lastTS e else root) :
      root₀.sessionID ≠ [] := by
    obtain ⟨-, -, -, hbound, hsame, -⟩ := delegate_root hdel
    rw [hroot₀]
    split
    · rw [hsame] at hbound
      exact hbound
    · exact hbound
  cases h with
  | buried => cases hreplay
  | opened => cases hkind
  | @replayed e he => exact ⟨e, he, rfl⟩
  | @repeated e lapsed he hts hown hres hkept =>
    have hsession := (DedupEntry.repeat_core c.window now obs.lastTS obs.class lapsed e).2.2.2.2
    exact absurd (hsession.symm.trans hunbound) (keptOpen_session hkept)
  | @noted e e' absorbed he hts hquiet hnoted =>
    exact ⟨e, he, DedupEntry.storm_of_core hnoted.core⟩
  | @rootRepeated e rk root root₀ lapsed he hts hdel hroot₀ =>
    have hsession := (DedupEntry.repeat_core c.window now obs.lastTS obs.class lapsed root₀).2.2.2.2
    exact absurd (hsession.symm.trans hunbound) (hroot hdel hroot₀)
  | @rootNoted e rk root root₀ root' absorbed he hts hdel hroot₀ hquiet hnoted =>
    have hsession := DedupEntry.sessionID_of_core hnoted.core
    exact absurd (hsession.symm.trans hunbound) (hroot hdel hroot₀)

theorem Pruned.stormOn (h : Pruned c c') (k : EventKey) :
    c'.stormOn k = c.stormOn k ∨ c'.stormOn k = none := by
  rcases h.entry k with hkept | hgone
  · exact Or.inl (congrArg (Option.map _) hkept)
  · exact Or.inr (congrArg (Option.map _) hgone)

theorem MarkedBy.stormOn {op : DedupStep} (h : MarkedBy c op c')
    (hmark : ∀ k e e', Marked c op k e e' → e'.storm = e.storm) (k : EventKey) :
    c'.stormOn k = c.stormOn k := by
  unfold DedupCache.stormOn
  cases he : c.entries.lookup k with
  | none => rw [h.absent he]
  | some e =>
    obtain ⟨e', he', hm⟩ := h.present he
    rw [he', Option.map_some, Option.map_some, hmark k e e' hm]

/-- Observing leaves the entry of a key under its storm, unless it opens the key anew. -/
theorem observeSignal_stormOn {k : EventKey}
    (hnew : k = key.canonical → (c.observeSignal now isOpen o key obs).2.kind ≠ .newIncident)
    (h : (c.observeSignal now isOpen o key obs).1.stormOn k = some fp) : c.stormOn k = some fp := by
  obtain ⟨e', he', rfl⟩ := Option.map_eq_some_iff.1 h
  rcases (observeSignal_observed now isOpen o key obs c).became he' with ⟨hk, hkind, -⟩ | ⟨e, he, hb⟩
  · exact absurd hkind (hnew hk)
  · have hstorm := DedupEntry.storm_of_core hb.core
    rcases (maybeSweep_swept now isOpen o c).stormOn k with hkept | hgone
    · rw [← hkept, stormOn, he, Option.map_some, hstorm]
    · rw [stormOn, he] at hgone
      cases hgone

end Lookout.Engine.DedupCache

namespace Lookout.Watch

open Engine

namespace Dispatcher

/-! ## What a run keeps -/

variable {d x : Dispatcher} {s : Step}

/-- The dispatcher as it starts: nothing is tracked and no storm is open. -/
structure Starts (d : Dispatcher) : Prop where
  tracker : ∀ t ∈ d.tracker, t.incidents = ∅ ∧ 0 ≤ t.uncoveredTTL
  storm : ∀ c ∈ d.storm, c.storms = ∅

/-- The open storms are sound, and nothing was tracked after the given time. -/
structure Timely (now : Int) (d : Dispatcher) : Prop where
  storms : d.SoundStorms
  tracker : ∀ t ∈ d.tracker, t.Dated now

theorem Starts.timely (h : d.Starts) (now : Int) : d.Timely now := by
  refine ⟨fun c hc id st hst => ?_, fun t ht => ⟨(h.tracker t ht).2, fun k ti hti => ?_⟩⟩
  · rw [h.storm c hc] at hst
    cases hst
  · rw [(h.tracker t ht).1] at hti
    cases hti

variable {e : Effect}

theorem Does.timely (h : Does d s x e) (hx : x.Timely s.env.now) :
    (x.perform e).Timely s.env.now := by
  have htracker {f : RecoveryTracker → RecoveryTracker}
      (hf : ∀ t, t.Dated s.env.now → (f t).Dated s.env.now) (t : RecoveryTracker)
      (ht : t ∈ x.tracker.map f) : t.Dated s.env.now := by
    obtain ⟨t₀, ht₀, rfl⟩ := Option.map_eq_some_iff.1 ht
    exact hf t₀ (hx.tracker t₀ ht₀)
  cases h with
  | storm op => exact ⟨hx.storms.onStorm op, hx.tracker⟩
  | track inc => exact ⟨hx.storms, htracker fun t ht => ht.track s.env.tracked inc⟩
  | requeue key => exact ⟨hx.storms, htracker fun t ht => ht.requeueResolved key⟩
  | judge observers =>
    exact ⟨hx.storms, htracker fun t ht => ht.tick s.env.tracked observers s.env.now⟩
  | _ => exact ⟨hx.storms, hx.tracker⟩

theorem Timely.step (h : d.Timely now) (hnow : now ≤ s.env.now) : (d.step s).Timely s.env.now :=
  (step_performs d s).invariant (I := Timely s.env.now)
    ⟨h.storms, fun t ht => (h.tracker t ht).mono hnow⟩ fun _ _ hx hdoes => hdoes.timely hx

/-- A clock that moves forward between the steps leaves the tracker its whole capacity
    for the next one. -/
theorem Timely.run {next : Int} {steps : List Step} (h : d.Timely now)
    (hclock : (now :: (steps.map (·.env.now) ++ [next])).Pairwise (· < ·)) :
    (steps.foldl Dispatcher.step d).SoundStorms ∧
      (steps.foldl Dispatcher.step d).Roomy next maxTrackedIncidents := by
  induction steps generalizing d now with
  | nil =>
    have hlt : now < next := (List.pairwise_cons.1 hclock).1 next (List.mem_singleton.2 rfl)
    exact ⟨h.storms, fun t ht => (h.tracker t ht).roomy hlt⟩
  | cons s steps ih =>
    obtain ⟨hfirst, hrest⟩ := List.pairwise_cons.1 hclock
    exact ih (h.step (hfirst s.env.now List.mem_cons_self).le) hrest

/-- The incident of the key, while it has an entry, is filed under some storm. -/
structure Claimed (key : EventKey) (x : Dispatcher) : Prop where
  storms : x.SoundStorms
  filed : x.stormOn key ≠ some []

theorem Knows.ne_nil (h : x.Knows fp) (hx : x.SoundStorms) : fp ≠ [] := by
  obtain ⟨c, id, st, hc, hst, rfl⟩ := h
  exact (hx c hc id st hst).fingerprint

/-- No effect of a step takes the incident out of its storm, unless the step opens the
    key anew. -/
theorem Does.claimed (h : Does d s x e) (hopens : ¬d.Opens key s) (hx : x.Claimed key) :
    (x.perform e).Claimed key := by
  have hkept {c : DedupCache} (hc : c.stormOn key = x.dedup.stormOn key ∨ c.stormOn key = none) :
      c.stormOn key ≠ some [] := by
    rcases hc with hsame | hgone
    · exact hsame ▸ hx.filed
    · rw [hgone]
      exact nofun
  cases h with
  | @observe env a hs ha hd =>
    subst hs hd
    refine ⟨hx.storms, fun hnil => hx.filed (DedupCache.observeSignal_stormOn ?_ hnil)⟩
    intro hk hnew
    exact hopens ⟨ha, (hk.trans a.sig.canonical_canonicalKey).symm, hnew⟩
  | bindings hs hd =>
    exact ⟨hx.storms, hkept ((DedupCache.bindings_swept _ x.isOpen _ x.dedup).stormOn key)⟩
  | mark hnote =>
    have hby := DedupCache.step_markedBy x.dedup hnote.marks
    exact ⟨hx.storms, hkept (Or.inl (hby.stormOn (fun _ _ _ hm => hnote.storm hm) key))⟩
  | @fold o self kind candidates _ =>
    have hby := DedupCache.sessionForSibling_markedBy s.env.now o self kind candidates x.dedup
    refine ⟨hx.storms, hkept (Or.inl (hby.stormOn (fun _ _ _ hm => ?_) key))⟩
    cases hm <;> rfl
  | bind key' sid ref _ =>
    have hsame : (x.dedup.bindIncident key' sid ref).stormOn key = x.dedup.stormOn key := by
      refine DedupCache.stormOn_update _ ?_ key
      exact fun _ => rfl
    exact ⟨hx.storms, hkept (Or.inl hsame)⟩
  | @claim key' fp sid ref _ hfp =>
    refine ⟨hx.storms, fun hnil => ?_⟩
    have hstorm := DedupCache.stormOn_attachToStorm key' key sid fp ref x.dedup
    rw [show (x.dedup.attachToStorm key' sid fp ref).stormOn key = some [] from hnil] at hstorm
    split at hstorm
    · obtain ⟨_, -, hfpnil⟩ := Option.map_eq_some_iff.1 hstorm.symm
      exact hfp.ne_nil hx.storms hfpnil
    · exact hx.filed hstorm.symm
  | unbind key' _ =>
    have hsame : (x.dedup.unbind s.env.now key').stormOn key = x.dedup.stormOn key :=
      DedupCache.stormOn_update (·.unbind s.env.now) (fun _ => rfl) key
    exact ⟨hx.storms, hkept (Or.inl hsame)⟩
  | storm op => exact ⟨hx.storms.onStorm op, hx.filed⟩
  | _ => exact ⟨hx.storms, hx.filed⟩

theorem Claimed.step (h : d.Claimed key) (hopens : ¬d.Opens key s) : (d.step s).Claimed key :=
  (step_performs d s).invariant (I := Claimed key) h fun _ _ hx hdoes => hdoes.claimed hopens hx

/-- The step is the arrival of a duplicate of the key that passes the unbound-retry
    guard. -/
def Retries (key : EventKey) (d : Dispatcher) : Step → Prop
  | .signal env a => a.accepted = true ∧ a.sig.canonicalKey = key ∧
      (d.observe env a).2.kind = .duplicate ∧ (d.observe env a).2.replay = false ∧
      d.retriesOpen a.sig (d.observe env a).2 = true
  | _ => False

/-- A duplicate of a claimed incident does not pass the guard. -/
theorem Claimed.not_retries (h : d.Claimed key) : ¬d.Retries key s := by
  cases s with
  | signal env a =>
    rintro ⟨-, rfl, hkind, hreplay, hretries⟩
    obtain ⟨-, hunbound, hstorm, -⟩ := of_decide_eq_true hretries
    have hobs := DedupCache.observeSignal_observed env.now d.isOpen env.loops a.sig.canonicalKey
      (d.observation a) d.dedup
    obtain ⟨e, he, hse⟩ := hobs.storm_of_unbound hkind hreplay hunbound
    rw [Signal.canonical_canonicalKey] at he
    have hon : (d.dedup.maybeSweep env.now d.isOpen env.loops).stormOn a.sig.canonicalKey =
        some [] := by
      rw [DedupCache.stormOn, he, Option.map_some, ← hse]
      exact congrArg some hstorm
    rcases (DedupCache.maybeSweep_swept env.now d.isOpen env.loops d.dedup).stormOn
      a.sig.canonicalKey with hkept | hgone
    · exact h.filed (hkept.symm.trans hon)
    · rw [hgone] at hon
      cases hon
  | _ => exact id

/-! ## The verdict's handler -/

/-- The storm that the correlator names for a signal. -/
def stormNamed (env : Env) (sig : Signal) (d : Dispatcher) : Option StormInfo :=
  match d.verdict env sig with
  | some (_, .formed info _ _) => some info
  | some (_, .attached info _ _) => some info
  | _ => none

/-- The dispatcher as the storm stage finds it: the incident is observed and stamped with
    its kind. -/
def beforeStorm (env : Env) (a : Arrival) (d : Dispatcher) : Dispatcher :=
  ({ d with dedup := (d.observe env a).1 }).onDedup
    (·.noteIncidentKind a.sig.canonicalKey a.sig.kind)

/-- When the verdict's handler files the incident, seen from the state it starts in. -/
def FilesIncident (env : Env) (sig : Signal) (d : Dispatcher) : Prop :=
  match d.verdict env sig with
  | some (c, .formed info members _) => ({ d with storm := some c }).FormFiles env sig info members
  | some (c, .attached info member _) =>
    ({ d with storm := some c }).AttachFiles env sig (d.adoptBinding sig info) member
  | _ => True

section Verdict

variable {env : Env} {a : Arrival} {info : StormInfo}

/-- A new incident is filed nowhere yet. -/
theorem beforeStorm_stormOn (hnew : (d.observe env a).2.kind = .newIncident) :
    (d.beforeStorm env a).stormOn a.sig.canonicalKey = some [] := by
  have hobs := (DedupCache.observeSignal_observed env.now d.isOpen env.loops a.sig.canonicalKey
    (d.observation a) d.dedup).of_new hnew |>.1
  rw [Signal.canonical_canonicalKey] at hobs
  have hfresh : (d.observe env a).1.stormOn a.sig.canonicalKey = some [] := by
    exact congrArg (Option.map _) hobs
  exact (DedupCache.stormOn_update (·.noteIncidentKind a.sig.kind) (fun _ => rfl) _).trans hfresh

/-- A storm is named by the correlator when it forms the storm or attaches to it. -/
theorem stormNamed_cases (h : x.stormNamed env a.sig = some info) :
    ∃ c c', x.storm = some c ∧
      ((∃ members member, c.observe env.now env.fleet (x.topology env a.sig) a.sig =
          (c', .formed info members member)) ∨
        ∃ member update, c.observe env.now env.fleet (x.topology env a.sig) a.sig =
          (c', .attached info member update)) := by
  unfold stormNamed verdict at h
  cases hc : x.storm with
  | none =>
    rw [hc] at h
    cases h
  | some c =>
    rw [hc, Option.map_some] at h
    cases hobs : c.observe env.now env.fleet (x.topology env a.sig) a.sig with
    | mk c' v =>
      rw [hobs] at h
      cases v with
      | none => cases h
      | formed _ members member =>
        cases h
        exact ⟨c, c', rfl, .inl ⟨members, member, hobs⟩⟩
      | attached _ member update =>
        cases h
        exact ⟨c, c', rfl, .inr ⟨member, update, hobs⟩⟩

/-- A step with a new incident that the correlator names a storm for ends with the
    verdict's handler. -/
theorem step_eq_correlate (haccepted : a.accepted = true)
    (hnew : (d.observe env a).2.kind = .newIncident) (hroute : d.routesToStore a.sig = false)
    (hstorm : d.stormNamed env a.sig = some info) :
    d.step (.signal env a) = ((d.beforeStorm env a).correlateStormSignal env a.sig).1 := by
  have htaken : ((d.beforeStorm env a).correlateStormSignal env a.sig).2 = true := by
    obtain ⟨c, c', hc, hobs⟩ := stormNamed_cases (x := d.beforeStorm env a) hstorm
    unfold correlateStormSignal
    rcases hobs with ⟨members, member, hobs⟩ | ⟨member, update, hobs⟩
    · simp only [hc, hobs]
    · simp only [hc, hobs]
  change d.dispatchSignal env a = _
  unfold dispatchSignal
  rw [if_neg (by rw [haccepted]; decide)]
  dsimp only
  rw [noteActivity_new hnew, hnew]
  unfold routeNew
  rw [if_neg (by exact Bool.eq_false_iff.1 hroute)]
  dsimp only
  split
  next heq => exact (congrArg Prod.fst heq).symm
  next heq => cases htaken.symm.trans (congrArg Prod.snd heq)

theorem stormNamed_fingerprint (hsound : x.SoundStorms)
    (hstorm : x.stormNamed env a.sig = some info) : info.fingerprint ≠ [] := by
  obtain ⟨c, c', hc, ⟨members, member, hobs⟩ | ⟨member, update, hobs⟩⟩ := stormNamed_cases hstorm
  · obtain ⟨st, -, rfl, -, hst⟩ := StormCorrelator.observe_formed hobs
    exact hst.fingerprint
  · have hstep := StormCorrelator.sound_step (hsound c hc)
      (.observe env.now env.fleet (x.topology env a.sig) a.sig)
    rw [StormCorrelator.step, hobs] at hstep
    obtain ⟨st, hst, rfl⟩ := StormCorrelator.observe_attached hobs
    exact (hstep _ st hst).fingerprint

/-- The verdict's handler files the incident exactly under its condition. -/
theorem correlateStormSignal_filed_iff (hsound : x.SoundStorms)
    (hroom : x.Roomy env.now maxTrackedIncidents)
    (hnew : x.stormOn a.sig.canonicalKey = some [])
    (hstorm : x.stormNamed env a.sig = some info) :
    FiledUnder a.sig.canonicalKey info.fingerprint (x.correlateStormSignal env a.sig).1 ↔
      x.FilesIncident env a.sig := by
  have hroom' : x.Roomy env.now (2 * maxStormMembers + 1) := hroom.mono (by decide)
  have hfp := stormNamed_fingerprint hsound hstorm
  obtain ⟨c, c', hc, hobs⟩ := stormNamed_cases hstorm
  have hstep := StormCorrelator.sound_step (hsound c hc)
    (.observe env.now env.fleet (x.topology env a.sig) a.sig)
  rw [StormCorrelator.step] at hstep
  unfold FilesIncident verdict correlateStormSignal
  rcases hobs with ⟨members, member, hobs⟩ | ⟨member, update, hobs⟩
  · simp only [hc, hobs, Option.map_some]
    obtain ⟨st, -, rfl, rfl, hst⟩ := StormCorrelator.observe_formed hobs
    exact stormFormed_filed_iff hst.members hroom' hnew hfp
  · simp only [hc, hobs, Option.map_some] at hstep ⊢
    obtain ⟨-, hadopted, -⟩ := adoptBinding_frame a.sig info { x with storm := some c' }
    have hsound' : ({ x with storm := some c' }).SoundStorms := fun _ hc₀ => by
      cases hc₀
      exact hstep
    rw [← hadopted] at hfp ⊢
    exact stormAttached_filed_iff hsound' hroom' hnew hfp update

end Verdict

/-- Every stage keys an incident the same way, exactly under the handler's condition. In
    every run of a dispatcher whose clock moves forward, a new incident that a storm is
    named for is filed under the storm and tracked if and only if the condition holds in
    the state the storm stage finds; and once it is, no duplicate of it passes the
    unbound-retry guard in any later run that does not open the key anew. -/
theorem storm_files_incident (d₀ : Dispatcher) (start : Int) (steps : List Step) (env : Env)
    (a : Arrival) (info : StormInfo) (hstarts : d₀.Starts)
    (hclock : (start :: (steps.map (·.env.now) ++ [env.now])).Pairwise (· < ·))
    (haccepted : a.accepted = true)
    (hnew : ((steps.foldl step d₀).observe env a).2.kind = .newIncident)
    (hroute : (steps.foldl step d₀).routesToStore a.sig = false)
    (hstorm : (steps.foldl step d₀).stormNamed env a.sig = some info) :
    (FiledUnder a.sig.canonicalKey info.fingerprint ((steps.foldl step d₀).step (.signal env a)) ↔
      ((steps.foldl step d₀).beforeStorm env a).FilesIncident env a.sig) ∧
    (FiledUnder a.sig.canonicalKey info.fingerprint ((steps.foldl step d₀).step (.signal env a)) →
      ∀ later, Run.Steps step (fun x s => ¬x.Opens a.sig.canonicalKey s)
          ((steps.foldl step d₀).step (.signal env a)) later →
        Run.Steps step (fun x s => ¬x.Retries a.sig.canonicalKey s)
          ((steps.foldl step d₀).step (.signal env a)) later) := by
  obtain ⟨hsound, hroom⟩ := (hstarts.timely start).run hclock
  generalize steps.foldl step d₀ = d at hsound hroom hnew hroute hstorm ⊢
  have hfiled := correlateStormSignal_filed_iff (x := d.beforeStorm env a) hsound hroom
    (beforeStorm_stormOn hnew) hstorm
  rw [← step_eq_correlate haccepted hnew hroute hstorm] at hfiled
  refine ⟨hfiled, fun hunder later hlater => ?_⟩
  -- Soundness of the storms is an invariant of the step, whatever the clock says.
  have hsound' : (d.step (.signal env a)).SoundStorms :=
    (step_performs d (.signal env a)).invariant (I := SoundStorms) hsound fun y e hy hdoes => by
      cases hdoes with
      | storm op => exact hy.onStorm op
      | _ => exact hy
  have hclaimed : (d.step (.signal env a)).Claimed a.sig.canonicalKey := by
    refine ⟨hsound', ?_⟩
    rw [hunder.1]
    exact fun h => stormNamed_fingerprint hsound hstorm (Option.some.inj h)
  exact hlater.of_invariant (P := Claimed a.sig.canonicalKey) (fun _ _ hy hopens => hy.step hopens)
    (fun _ _ hy _ => hy.not_retries) hclaimed

end Dispatcher

namespace Sample

/-- Every object is on the same node. -/
def onNode (now : Int) : Env := { env now with ancestors := fun _ => [StormSample.node] }

/-- Two incidents on a node within a minute are a storm. -/
def stormy : Dispatcher :=
  { dispatcher with resolver := true, storm := some StormSample.correlator }

def failure (reason message pod : GoString) (now : Int) : Arrival :=
  { sig := { kind := kindK8sEvent, severity := .critical, key := ⟨pod, reason⟩,
             ns := bytes "default", kindOfObject := bytes "Pod", name := pod, message := message,
             firstSeen := now, lastSeen := now } }

/-- Two pods of a node crash. -/
def storm : List Step :=
  [.signal (onNode minute) (failure (bytes "CrashLoopBackOff") [] (bytes "pod-0") minute),
    .signal (onNode (minute + second))
      (failure (bytes "CrashLoopBackOff") [] (bytes "pod-1") (minute + second))]

/-- The dispatcher with the storm open. -/
def inStorm : Dispatcher := storm.foldl Dispatcher.step stormy

def late : Env := onNode (minute + 2 * second)

/-- A third pod crashes. -/
def third : Arrival :=
  failure (bytes "CrashLoopBackOff") [] (bytes "pod-2") (minute + 2 * second)

/-- A third pod cannot pull its image: the reason alone reads as a crash. -/
def pull (now : Int) : Arrival :=
  failure (bytes "BackOff") (bytes "Back-off pulling image") (bytes "pod-2") now

theorem stormy_starts : stormy.Starts := by
  refine ⟨fun t ht => ?_, fun c hc => ?_⟩
  · cases ht
    exact ⟨rfl, by decide⟩
  · cases hc
    rfl

end Sample

namespace Dispatcher

instance (key : EventKey) (fp : GoString) (d : Dispatcher) : Decidable (FiledUnder key fp d) :=
  inferInstanceAs (Decidable (_ = some fp ∧ ∀ t ∈ d.tracker, _ ≠ none))

open Watch.Sample in
theorem third_pod_filed :
    ∃ info, inStorm.stormNamed late third.sig = some info ∧
      FiledUnder third.sig.canonicalKey info.fingerprint
        (inStorm.step (.signal late third)) ∧
      ∀ later, Run.Steps step (fun x s => ¬x.Opens third.sig.canonicalKey s)
          (inStorm.step (.signal late third)) later →
        Run.Steps step (fun x s => ¬x.Retries third.sig.canonicalKey s)
          (inStorm.step (.signal late third)) later := by
  obtain ⟨hsome, hfiled⟩ :
      (inStorm.stormNamed late third.sig).isSome = true ∧
      ∀ info ∈ inStorm.stormNamed late third.sig,
        FiledUnder third.sig.canonicalKey info.fingerprint
          (inStorm.step (.signal late third)) := by decide +kernel
  obtain ⟨info, hinfo⟩ := Option.isSome_iff_exists.1 hsome
  have hboth := storm_files_incident stormy 0 Sample.storm late third info
    stormy_starts (by decide +kernel) rfl (by decide +kernel) (by decide +kernel) hinfo
  exact ⟨info, hinfo, hfiled info hinfo, hboth.2 (hfiled info hinfo)⟩

open Watch.Sample in
/-- A late arrival whose reason is told apart by its message is filed under another key.
    Its own entry stays without a storm, and the next duplicate passes the guard and opens
    a session beside the storm's. -/
theorem pull_not_filed :
    (∃ info, inStorm.stormNamed late (pull late.now).sig = some info ∧
      (inStorm.observe late (pull late.now)).2.kind = .newIncident ∧
      ¬FiledUnder (pull late.now).sig.canonicalKey info.fingerprint
        (inStorm.step (.signal late (pull late.now)))) ∧
    ∃ d, d = inStorm.step (.signal late (pull late.now)) ∧
      d.Retries (pull late.now).sig.canonicalKey
        (.signal (onNode (2 * minute)) (pull (2 * minute))) ∧
      ((d.step (.signal (onNode (2 * minute)) (pull (2 * minute)))).sent.drop
        d.sent.length).any (fun call => match call with
          | .openIncident key _ _ => key.kind = .incident
          | _ => false) = true := by
  obtain ⟨hsome, hkind, hlost⟩ :
      (inStorm.stormNamed late (pull late.now).sig).isSome = true ∧
      (inStorm.observe late (pull late.now)).2.kind = .newIncident ∧
      ∀ info ∈ inStorm.stormNamed late (pull late.now).sig,
        ¬FiledUnder (pull late.now).sig.canonicalKey info.fingerprint
          (inStorm.step (.signal late (pull late.now))) := by
    decide +kernel
  obtain ⟨info, hinfo⟩ := Option.isSome_iff_exists.1 hsome
  refine ⟨⟨info, hinfo, hkind, hlost info hinfo⟩, _, rfl, ?_, by decide +kernel⟩
  exact ⟨rfl, rfl, by decide +kernel, by decide +kernel, by decide +kernel⟩

end Dispatcher

end Lookout.Watch

/-! ## Failed folds -/

namespace Lookout.Engine.DedupCache

variable {c : DedupCache} {self root key : EventKey}

/-- The key that an entry is folded onto. -/
def parentOf (k : EventKey) (c : DedupCache) : Option EventKey :=
  (c.entries.lookup k).bind (·.parent)

theorem parentOf_update {f : DedupEntry → DedupEntry} (hf : ∀ e, (f e).parent = e.parent)
    (k : EventKey) : (c.update key f).parentOf k = c.parentOf k := by
  rw [parentOf, parentOf, lookup_update]
  split
  · cases c.entries.lookup k <;> simp [hf]
  · rfl

theorem parentOf_fold : ((c.update self (·.foldOnto root)).update root (·.countFold)).parentOf
    self = (c.entries.lookup self).map fun _ => root := by
  rw [parentOf_update fun _ => by rfl, parentOf, lookup_update, if_pos rfl]
  cases c.entries.lookup self <;> rfl

/-- Nobody else notices a fold only if its root is the incident itself or gone. -/
theorem fold_frame_iff :
    (∀ k ≠ self, ((c.update self (·.foldOnto root)).update root (·.countFold)).entries.lookup k =
      c.entries.lookup k) ↔ root = self ∨ c.entries.lookup root = none := by
  constructor
  · intro hframe
    by_contra! h
    have hroot := hframe root h.1
    rw [lookup_update, if_pos rfl, lookup_update, if_neg h.1] at hroot
    cases hr : c.entries.lookup root with
    | none => exact h.2 hr
    | some e =>
      rw [hr] at hroot
      exact Nat.succ_ne_self e.count (congrArg (·.count) (Option.some.inj hroot))
  · intro h k hk
    rw [lookup_update, lookup_update, if_neg hk]
    split
    · next hkr =>
      subst hkr
      rw [h.resolve_left hk]
      rfl
    · rfl

/-- Binding keeps a fold onto the incident itself, or onto a root of the same session. -/
theorem parentOf_bindIncident (sid : GoString) (ref : IncidentRef) :
    (c.bindIncident key sid ref).parentOf key.canonical =
      (c.parentOf key.canonical).filter fun p =>
        p = key.canonical ∨ (c.entries.lookup p).map (·.sessionID) = some sid := by
  unfold bindIncident
  rw [parentOf, parentOf, lookup_update, if_pos rfl]
  cases c.entries.lookup key.canonical with
  | none => rfl
  | some e =>
    cases hp : e.parent with
    | none => simp [DedupEntry.bindIncident, hp]
    | some p => by_cases p = key.canonical <;> simp [DedupEntry.bindIncident, Option.filter, *]

end Lookout.Engine.DedupCache

namespace Lookout.Watch

open Engine DedupCache

namespace Dispatcher

variable (env : Env) (sig : Signal) (key : EventKey) (count : Nat) (d : Dispatcher)

/-- The sibling that `foldSibling` finds for an incident. -/
def siblingFor : Option (GoString × EventKey × DedupEntry) :=
  d.dedup.sibling env.now env.siblings key.canonical sig.kind (d.siblingKeysFor env sig)

/-- A sibling is found, and its session does not take the payload. -/
def FoldFails : Prop := (d.siblingFor env sig key).isSome ∧ (d.foldSibling env sig key).2 = false

/-- The fold changes no other entry, and when the signal is done with, the incident is
    folded onto nothing. -/
def FoldUndone : Prop :=
  (∀ k ≠ key.canonical, (d.foldSibling env sig key).1.dedup.entries.lookup k =
    d.dedup.entries.lookup k) ∧
  (d.dispatchPerIncidentOpen env sig key count).dedup.parentOf key.canonical = none

/-- The sibling is folded onto a root that is not in the cache any more. -/
def RootGone : Prop :=
  ∀ found ∈ d.siblingFor env sig key,
    d.dedup.entries.lookup (found.2.2.parent.getD found.2.1) = none

/-- The session that the sink gives to the open that follows on the fold. -/
def openedAfterFold : Option (GoString × Bool) :=
  let d := (d.foldSibling env sig key).1
  (d.openSession env (d.incidentKey key) (.incident sig count)).2

/-- An open binds the incident to the session it finds. -/
theorem openIncident_parentOf : (d.openIncident env sig key count false).dedup.parentOf
    key.canonical = match (d.openSession env (d.incidentKey key) (.incident sig count)).2 with
      | none => d.dedup.parentOf key.canonical
      | some (sid, _) =>
        (d.dedup.bindIncident key sid sig.incidentRef).parentOf key.canonical := by
  have hdedup := openSession_dedup env (d.incidentKey key) (.incident sig count) d
  unfold openIncident
  generalize d.openSession env (d.incidentKey key) (.incident sig count) = opened at hdedup
  obtain ⟨x, _ | ⟨sid, failed⟩⟩ := opened
  · exact hdedup ▸ rfl
  · have hbound : (x.recordBoundSession env key sid sig true).dedup.parentOf key.canonical =
        (x.dedup.bindIncident key sid sig.incidentRef).parentOf key.canonical := by
      change (noteAncestors key _ _).parentOf _ = _
      unfold noteAncestors
      split
      · rfl
      · exact parentOf_update (fun _ => by rfl) _
    dsimp only at hdedup ⊢
    rw [← hdedup, ← hbound]
    simp only [Bool.false_eq_true]
    split
    · exact parentOf_update (fun _ => by rfl) _
    · rfl

variable {env sig key count d}

/-- The state after a fold whose payload is refused. -/
theorem FoldFails.dedup {cand : GoString} {k : EventKey} {best : DedupEntry}
    (h : d.FoldFails env sig key) (hsib : d.siblingFor env sig key = some (cand, k, best)) :
    (d.foldSibling env sig key).1.dedup =
      (d.dedup.update key.canonical (·.foldOnto (best.parent.getD k))).update
        (best.parent.getD k) (·.countFold) := by
  have hrefused := h.2
  rw [← sessionForSibling_eq hsib]
  unfold foldSibling at hrefused ⊢
  dsimp only at hrefused ⊢
  split
  · next heq => rw [heq]
  · next heq =>
    rw [heq] at hrefused ⊢
    dsimp only at hrefused ⊢
    split
    · next hsent =>
      rw [hsent] at hrefused
      cases hrefused
    · next hsent => rw [← congrArg Prod.fst hsent]; rfl

theorem FoldFails.opens (h : d.FoldFails env sig key) :
    d.dispatchPerIncidentOpen env sig key count =
      (d.foldSibling env sig key).1.openIncident env sig key count false := by
  unfold dispatchPerIncidentOpen
  split
  · next heq => cases (congrArg Prod.snd heq).symm.trans h.2
  · next heq => rw [heq]

/-- A failed fold leaves no trace just when the root it would have joined is gone, and the
    incident finds a session of its own. -/
theorem failed_fold_undone_iff (env : Env) (sig : Signal) (key : EventKey) (count : Nat)
    (d : Dispatcher) (h : d.FoldFails env sig key) :
    d.FoldUndone env sig key count ↔ d.RootGone env sig key ∧
      (d.dedup.entries.lookup key.canonical = none ∨
        (d.openedAfterFold env sig key count).isSome) := by
  obtain ⟨⟨cand, k, best⟩, hsib⟩ := Option.isSome_iff_exists.1 h.1
  have hgone : d.RootGone env sig key ↔ d.dedup.entries.lookup (best.parent.getD k) = none := by
    simp [RootGone, hsib]
  have hparent := openIncident_parentOf env sig key count (d.foldSibling env sig key).1
  rw [FoldUndone, hgone, h.opens, hparent, h.dedup hsib, fold_frame_iff]
  change _ ∧ (match d.openedAfterFold env sig key count with
    | none => _
    | some (sid, _) => _) = none ↔ _
  generalize best.parent.getD k = root
  cases he : d.dedup.entries.lookup key.canonical with
  | none =>
    have hroot : root = key.canonical ∨ d.dedup.entries.lookup root = none ↔
        d.dedup.entries.lookup root = none := or_iff_right_of_imp fun h => h ▸ he
    split <;> simp [parentOf_bindIncident, parentOf_fold, he, hroot]
  | some e =>
    cases d.openedAfterFold env sig key count with
    | none => simp [parentOf_fold, he]
    | some opened =>
      simp only [parentOf_bindIncident, parentOf_fold, he]
      constructor
      · rintro ⟨rfl | hgone, hkept⟩
        · simp at hkept
        · exact ⟨hgone, .inr rfl⟩
      · rintro ⟨hgone, -⟩
        have hne : root ≠ key.canonical := by
          rintro rfl
          cases hgone.symm.trans he
        simp [lookup_update, hgone, hne]

end Dispatcher

namespace Sample

/-- The sink opens sessions and takes nothing into one that is open. -/
def refusing (now : Int) : Env :=
  { env now with sink := { sink with append := fun _ _ _ => .failed } }

/-- A pod of the workload crashes. -/
def crashed (pod : GoString) (now : Int) : Arrival :=
  { sig := { kind := kindK8sEvent, severity := .critical, key := crashKey pod,
             ns := bytes "default", kindOfObject := bytes "Pod", name := pod, firstSeen := now,
             lastSeen := now, controllerRef := bytes "Deployment/web" } }

/-- The dispatcher as the fold finds it when the pod crashes. -/
def folding (pod : GoString) (now : Int) (d : Dispatcher) : Dispatcher :=
  d.beforeStorm (refusing now) (crashed pod now)

/-- Three pods share a session, and the entry of the root is evicted. -/
def rootless : Dispatcher :=
  (workload.foldl Dispatcher.step dispatcher).onDedup fun c =>
    { c with entries := c.entries.erase (crashKey (bytes "pod-0")) }

end Sample

namespace Dispatcher

open Watch.Sample in
theorem rootless_fold_undone :
    let now := 4 * minute
    let d := folding (bytes "pod-3") now rootless
    let sig := (crashed (bytes "pod-3") now).sig
    d.FoldFails (refusing now) sig sig.canonicalKey ∧
      d.FoldUndone (refusing now) sig sig.canonicalKey 1 := by
  intro now d sig
  have hfails : d.FoldFails (refusing now) sig sig.canonicalKey :=
    ⟨by decide +kernel, by decide +kernel⟩
  refine ⟨hfails, (failed_fold_undone_iff _ _ _ 1 _ hfails).2 ⟨?_, .inr (by decide +kernel)⟩⟩
  unfold RootGone
  decide +kernel

open Watch.Sample in
/-- The second pod of a workload is refused by the session of the first. The entry of the
    first has counted it. -/
theorem refused_fold_counted :
    let now := 2 * minute
    let d := folding (bytes "pod-1") now
      (dispatcher.step (crash (bytes "web") (bytes "pod-0") minute))
    let sig := (crashed (bytes "pod-1") now).sig
    d.FoldFails (refusing now) sig sig.canonicalKey ∧
      ¬d.FoldUndone (refusing now) sig sig.canonicalKey 1 := by
  intro now d sig
  refine ⟨⟨by decide +kernel, by decide +kernel⟩, fun h => ?_⟩
  have hframe := h.1 (crashKey (bytes "pod-0")) (by decide +kernel)
  revert hframe
  decide +kernel

end Dispatcher

end Lookout.Watch
