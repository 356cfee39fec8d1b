-- SUMMARY: The trend sources call a target deleted in every run only if a fetch missed it, just as long as no outage outlasts the stale timeout.
import Lookout.Lib.Absence
import Lookout.Lib.Run
import Lookout.Sources.Forecasts

/-!
# Outages of the trend sources

A monitor pairs the two sources with the histories of the fetches that succeeded. The
sources drop a series by its age, also in a cycle whose fetch failed, so the age of a
series has to be told apart from the absence of its target: an answer of `object_deleted`
is right only if a fetch after the target's last sample did not contain the target.
-/

namespace Lookout.Sources

open Engine Saturation.Source
open Absence (Sighting Missed Covers)

variable {readings : List Saturation.Reading}

/-- What a fetch of containers or volumes shows of a target. -/
def Saturation.sighting (readings : List Saturation.Reading) (k : Saturation.TargetKey) :
    Sighting :=
  if ∃ r ∈ readings, r.key = k ∧ 0 < r.limit then .sampled
  else if ∃ r ∈ readings, r.key = k then .listed
  else .absent

/-- What the list of sessions shows of a session. Only active ones are contained in it. -/
def TokenBurn.sighting (rows : List TokenBurn.Row) (uid : GoString) : Sighting :=
  if TokenBurn.Source.Observed rows uid then .sampled
  else if ∃ row ∈ rows, row.ref.active = true ∧ row.ref.uid = uid then .listed
  else .absent

/-- The two sources with the histories of their successful fetches, newest first. -/
structure Monitor where
  saturation : Saturation.Source
  fetches : Saturation.Resource → List (Saturation.TargetKey → Sighting) := fun _ => []
  tokenBurn : TokenBurn.Source
  sessions : List (GoString → Sighting) := []

namespace Monitor

open Saturation (TargetKey Resource)

def new (saturation : Saturation.Config) (tokenBurn : TokenBurn.Config) : Monitor where
  saturation := Saturation.new saturation
  tokenBurn := TokenBurn.new tokenBurn

/-- A cycle of the saturation source or a poll of the token-burn source. What could not be
    fetched is none. -/
inductive Event where
  | cycle (pods : Option (List Saturation.ContainerSample))
      (volumes : Option (List Saturation.VolumeSample)) (now : Int)
  | poll (rows : Option (List TokenBurn.Row)) (now : Int)

def step (m : Monitor) : Event → Monitor
  | .cycle pods volumes now =>
    { m with
      saturation := (m.saturation.sampleOnce pods volumes now).1
      fetches := fun resource => match fetchOf pods volumes resource with
        | none => m.fetches resource
        | some readings => Saturation.sighting readings :: m.fetches resource }
  | .poll rows now =>
    { m with
      tokenBurn := (m.tokenBurn.pollOnce rows now).1
      sessions := match rows with
        | none => m.sessions
        | some rows => TokenBurn.sighting rows :: m.sessions }

/-- An incident is answered with `object_deleted` only if a successful fetch after the last
    sample did not contain its target. -/
structure Honest (m : Monitor) : Prop where
  saturation : ∀ now inc c, m.saturation.clearance now inc = some c → c.cleared = true →
    c.resolution = .objectDeleted → ∃ resource,
      Saturation.resourceOf (canonicalReason inc.key.reason) = some resource ∧
        Missed (m.fetches resource) ⟨inc.key.uid, resource⟩
  tokenBurn : ∀ inc c, m.tokenBurn.clearance inc = some c → c.cleared = true →
    c.resolution = .objectDeleted → Missed m.sessions inc.key.uid

/-- A step that forgets only what has been missed. In a fetch that succeeded, no target is
    listed last without a limit. A fetch that failed is not of the first cycle, and finds no
    series older than `StaleAfter`. A session that is listed as active, but whose usage could
    not be read, has a series that is not older than that. Targets that have been missed
    already are exempt. -/
def Sound (m : Monitor) : Event → Prop
  | .cycle pods volumes now => ∀ k : TargetKey, match fetchOf pods volumes k.resource with
    | some readings => ∀ r, lastReading readings k = some r → r.limit ≤ 0 →
        Saturation.sighting readings k ≠ .sampled ∧ Missed (m.fetches k.resource) k
    | none => m.saturation.fetched = true ∧ ∀ ser, m.saturation.series.lookup k = some ser →
        m.saturation.cfg.staleAfter < since now ser.lastSample → Missed (m.fetches k.resource) k
  | .poll none _ => True
  | .poll (some rows) now => ∀ uid, TokenBurn.sighting rows uid = .listed →
      (∀ ser, m.tokenBurn.series.lookup uid = some ser →
        m.tokenBurn.cfg.staleAfter < since now ser.lastActive) → Missed m.sessions uid

/-! ## Coverage -/

/-- Every target without a series has been missed. -/
def TargetsCovered (m : Monitor) : Prop :=
  ∀ resource, Covers (·.resource = resource) (fun k => m.saturation.series.lookup k ≠ none)
    (m.fetches resource)

def SessionsCovered (m : Monitor) : Prop :=
  Covers (fun _ => True) (fun uid => m.tokenBurn.series.lookup uid ≠ none) m.sessions

/-- An incident of which only the key matters. -/
def incidentOf (uid reason : GoString) : Incident := ⟨⟨uid, reason⟩, [], 0, {}⟩

theorem resourceOf_reasonFor (resource : Resource) :
    Saturation.resourceOf (canonicalReason (Saturation.reasonFor resource)) = some resource := by
  cases resource <;> decide +kernel

/-- The answers are right just if what the sources do not know has been missed. -/
theorem honest_iff (m : Monitor) :
    m.Honest ↔ (m.saturation.fetched = true → m.TargetsCovered) ∧
      (m.tokenBurn.polled = true → m.SessionsCovered) := by
  constructor
  · intro h
    refine ⟨fun hfetched resource k hk hnone => ?_, fun hpolled uid _ hnone => ?_⟩
    · subst hk
      have hgone : m.saturation.clearance 0
          (incidentOf k.uid (Saturation.reasonFor k.resource)) = some objectGone := by
        simp [incidentOf, clearance, resourceOf_reasonFor, hfetched, not_not.1 hnone]
      obtain ⟨resource, hresource, hmissed⟩ := h.saturation _ _ _ hgone rfl rfl
      cases (resourceOf_reasonFor k.resource).symm.trans hresource
      exact hmissed
    · have hgone : m.tokenBurn.clearance (incidentOf uid TokenBurn.reason) = some objectGone := by
        have hreason : canonicalReason TokenBurn.reason = TokenBurn.reason := by decide +kernel
        simp [incidentOf, TokenBurn.Source.clearance, hreason, hpolled, not_not.1 hnone]
      exact h.tokenBurn _ _ hgone rfl rfl
  · rintro ⟨htargets, hsessions⟩
    constructor
    · intro now inc c hc hcleared hdeleted
      unfold clearance at hc
      split at hc
      · cases hc
      next resource hresource =>
        refine ⟨resource, hresource, ?_⟩
        split at hc
        · cases hc
        next hfetched =>
          refine htargets (by simpa using hfetched) resource _ rfl (not_not.2 ?_)
          split at hc
          next hnone => exact hnone
          next =>
            repeat' split at hc
            all_goals
              cases hc
              cases hdeleted
    · intro inc c hc hcleared hdeleted
      unfold TokenBurn.Source.clearance at hc
      split at hc
      · cases hc
      split at hc
      · cases hc
      next hpolled =>
        refine hsessions (by simpa using hpolled) _ trivial (not_not.2 ?_)
        split at hc
        next hnone => exact hnone
        next =>
          repeat' split at hc
          all_goals
            cases hc
            cases hdeleted

/-! ## One step -/

/-- What holds of the monitor in every run, whatever the fetches. -/
structure Orderly (m : Monitor) : Prop where
  staleAfter : 0 ≤ m.saturation.cfg.staleAfter
  staleAfterBurn : 0 ≤ m.tokenBurn.cfg.staleAfter
  unfetched : m.saturation.fetched = false →
    m.saturation.series = ∅ ∧ ∀ resource, m.fetches resource = []

theorem orderly_new (saturation : Saturation.Config) (tokenBurn : TokenBurn.Config) :
    (new saturation tokenBurn).Orderly := by
  refine ⟨?_, ?_, fun _ => ⟨rfl, fun _ => rfl⟩⟩
  · simp only [new, Saturation.new, Saturation.Config.normalize]
    split
    · decide
    next h => exact (not_le.1 h).le
  · simp only [new, TokenBurn.new, TokenBurn.Config.normalize]
    split
    · decide
    next h => exact (not_le.1 h).le

variable {m : Monitor}

theorem Orderly.step (h : m.Orderly) (e : Event) : (m.step e).Orderly := by
  cases e with
  | cycle pods volumes now =>
    have hkeeps := m.saturation.sampleOnce_keeps pods volumes now
    refine ⟨?_, h.staleAfterBurn, fun hfalse => ?_⟩
    · exact hkeeps.1.symm ▸ h.staleAfter
    · exact absurd (hkeeps.2.symm.trans hfalse) (by decide)
  | poll rows now =>
    refine ⟨h.staleAfter, ?_, h.unfetched⟩
    cases rows <;> exact h.staleAfterBurn

variable {k : TargetKey}

theorem sighting_of_lastReading_none (h : lastReading readings k = none) :
    Saturation.sighting readings k = .absent := by
  have hnone := lastReading_eq_none.1 h
  rw [Saturation.sighting, if_neg, if_neg]
  · rintro ⟨r, hr, hkey⟩
    exact hnone r hr hkey
  · rintro ⟨r, hr, hkey, -⟩
    exact hnone r hr hkey

theorem sighting_of_lastReading_some {r : Saturation.Reading} (h : lastReading readings k = some r) :
    Saturation.sighting readings k ≠ .absent := by
  have hr := List.mem_filter.1 (List.mem_of_getLast? h)
  have hlisted : ∃ r ∈ readings, r.key = k := ⟨r, hr.1, of_decide_eq_true hr.2⟩
  rw [Saturation.sighting, if_pos hlisted]
  split <;> decide

/-- A cycle leaves the targets covered just if it is sound. -/
theorem targetsCovered_cycle (h : m.Orderly)
    (hcovered : m.saturation.fetched = true → m.TargetsCovered)
    (pods : Option (List Saturation.ContainerSample))
    (volumes : Option (List Saturation.VolumeSample)) (now : Int) :
    (m.step (.cycle pods volumes now)).TargetsCovered ↔ m.Sound (.cycle pods volumes now) := by
  have hknown := m.saturation.lookup_sampleOnce pods volumes now
  constructor
  · intro hafter k
    have hk := hafter k.resource
    simp only [step] at hk
    cases hfetch : fetchOf pods volumes k.resource with
    | some readings =>
      rw [hfetch] at hk
      intro r hlast hlimit
      refine Absence.covers_cons.1 hk k rfl (mt (hknown k).1 ?_) (sighting_of_lastReading_some hlast)
      rw [hfetch]
      simp [refresh, hlast, hlimit]
    | none =>
      rw [hfetch] at hk
      constructor
      · -- A first cycle that fetches nothing would cover a target that was never looked for.
        by_contra hfirst
        obtain ⟨hempty, hnil⟩ := h.unfetched (Bool.eq_false_iff.2 hfirst)
        refine Absence.not_missed_nil (hnil k.resource ▸ hk k rfl (mt (hknown k).1 ?_))
        rw [hfetch]
        simp [refreshed, hempty]
      · intro ser hser hstale
        refine hk k rfl (mt (hknown k).1 ?_)
        rw [hfetch]
        simp [refreshed, hser, hstale]
  · intro hsound resource
    simp only [step]
    cases hfetch : fetchOf pods volumes resource with
    | some readings =>
      refine Absence.covers_cons.2 fun k hk hlost hthere => ?_
      subst hk
      have hs := hsound k
      rw [hfetch] at hs
      have hlost := mt (hknown k).2 hlost
      rw [hfetch] at hlost
      cases hlast : lastReading readings k with
      | none => exact absurd (sighting_of_lastReading_none hlast) hthere
      | some r =>
        refine hs r hlast ?_
        by_contra hlimit
        refine hlost ⟨now, ?_, ?_⟩
        · simp [refresh, hlast, hlimit]
        · rw [since_self]
          exact h.staleAfter
    | none =>
      have hfetched := hsound ⟨[], resource⟩
      rw [hfetch] at hfetched
      refine (Absence.covers_forget (hcovered hfetched.1 resource)).2 fun k hk hser hlost => ?_
      subst hk
      obtain ⟨ser, hser⟩ := Option.ne_none_iff_exists'.1 hser
      have hs := hsound k
      rw [hfetch] at hs
      refine hs.2 ser hser ?_
      have hlost := mt (hknown k).2 hlost
      rw [hfetch] at hlost
      by_contra hfresh
      exact hlost ⟨ser.lastSample, by simp [refreshed, hser], not_lt.1 hfresh⟩

/-- A poll whose list was read leaves the sessions covered just if it is sound. -/
theorem sessionsCovered_poll (h : m.Orderly) (rows : List TokenBurn.Row) (now : Int) :
    (m.step (.poll (some rows) now)).SessionsCovered ↔ m.Sound (.poll (some rows) now) := by
  have hknown := m.tokenBurn.lookup_ingest rows now
  unfold SessionsCovered
  simp only [step, TokenBurn.Source.pollOnce, Absence.covers_cons, hknown]
  constructor
  · intro hafter uid hlisted hstale
    have hunseen : ¬ TokenBurn.Source.Observed rows uid := by
      intro hseen
      rw [TokenBurn.sighting, if_pos hseen] at hlisted
      cases hlisted
    refine (hafter uid trivial ?_ (by rw [hlisted]; decide)).2
    rintro ⟨t, ht, hfresh⟩
    rw [if_neg hunseen, TokenBurn.Source.refreshed, Option.map_eq_some_iff] at ht
    obtain ⟨ser, hser, rfl⟩ := ht
    exact absurd hfresh (not_le.2 (hstale ser hser))
  · intro hsound uid _ hlost hthere
    have hunseen : ¬ TokenBurn.Source.Observed rows uid := by
      intro hseen
      refine hlost ⟨now, if_pos hseen, ?_⟩
      rw [since_self]
      exact h.staleAfterBurn
    have hunsampled : TokenBurn.sighting rows uid ≠ .sampled := by
      rw [TokenBurn.sighting, if_neg hunseen]
      split <;> decide
    have hlisted : TokenBurn.sighting rows uid = .listed := by
      cases hs : TokenBurn.sighting rows uid with
      | absent => exact absurd hs hthere
      | listed => rfl
      | sampled => exact absurd hs hunsampled
    refine ⟨hunsampled, hsound uid hlisted fun ser hser => ?_⟩
    by_contra hfresh
    refine hlost ⟨ser.lastActive, ?_, not_lt.1 hfresh⟩
    rw [if_neg hunseen, TokenBurn.Source.refreshed, hser]
    rfl

/-- A step keeps the answers right just if it is sound. -/
theorem honest_step (h : m.Orderly) (hhonest : m.Honest) (e : Event) :
    (m.step e).Honest ↔ m.Sound e := by
  obtain ⟨htargets, hsessions⟩ := m.honest_iff.1 hhonest
  rw [honest_iff]
  cases e with
  | cycle pods volumes now =>
    have hfetched := (m.saturation.sampleOnce_keeps pods volumes now).2
    rw [← targetsCovered_cycle h htargets]
    exact ⟨fun hafter => hafter.1 hfetched, fun hafter => ⟨fun _ => hafter, hsessions⟩⟩
  | poll rows now =>
    cases rows with
    | none => exact ⟨fun _ => trivial, fun _ => ⟨htargets, hsessions⟩⟩
    | some rows =>
      rw [← sessionsCovered_poll h]
      exact ⟨fun hafter => hafter.2 rfl, fun hafter => ⟨htargets, fun _ => hafter⟩⟩

/-! ## Runs -/

/-- In every run, whatever fails and whatever the clock says, the answers of
    `object_deleted` are right just if every step forgets only what has been missed. -/
theorem outage_closes_nothing_iff (saturation : Saturation.Config) (tokenBurn : TokenBurn.Config)
    (events : List Event) :
    Run.Always step Honest (new saturation tokenBurn) events ↔
      Run.Steps step Sound (new saturation tokenBurn) events := by
  have hstart : (new saturation tokenBurn).Honest :=
    (honest_iff _).2 ⟨fun hfalse => absurd hfalse Bool.false_ne_true,
      fun hfalse => absurd hfalse Bool.false_ne_true⟩
  have hkeep : ∀ m e, m.Orderly ∧ m.Honest → True → Sound m e →
      (step m e).Orderly ∧ (step m e).Honest :=
    fun m e hinv _ hsound => ⟨hinv.1.step e, (honest_step hinv.1 hinv.2 e).2 hsound⟩
  have hlose : ∀ m e, m.Orderly ∧ m.Honest → True → (step m e).Honest → Sound m e :=
    fun m e hinv _ hafter => (honest_step hinv.1 hinv.2 e).1 hafter
  exact Run.always_iff_steps_of_invariant (fun m hinv => hinv.2) hkeep hlose
    ⟨orderly_new saturation tokenBurn, hstart⟩ (Run.Steps.of_forall fun _ _ => trivial)

/-- A container near its memory limit. -/
def leaking : Saturation.ContainerSample :=
  { ns := bytes "prod", pod := bytes "web-1", podUID := bytes "u1", container := bytes "app",
    memory := true, used := 900, limit := 1000 }

def busySession : TokenBurn.SessionRef := ⟨bytes "agent", bytes "s1", bytes "active"⟩

/-- The metrics interface is down for eleven minutes after one good cycle. -/
def metricsOutage : List Event :=
  [.cycle (some [leaking]) (some []) 0, .cycle none (some []) (11 * minute)]

/-- The session stays listed as active, but its usage cannot be read for eleven minutes. -/
def usageOutage : List Event :=
  [.poll (some [⟨busySession, some ⟨100, 1⟩⟩]) 0, .poll (some [⟨busySession, none⟩]) (11 * minute)]

/-- Each of the two outages closes an incident whose target no fetch has missed. -/
theorem outage_deletes_target :
    ¬ Run.Always step Honest (new {} {}) metricsOutage ∧
      ¬ Run.Always step Honest (new {} {}) usageOutage := by
  constructor
  · intro h
    have hend := (h metricsOutage (List.prefix_refl _)).saturation (11 * minute)
      (incidentOf (bytes "u1/app") (Saturation.reasonFor .memory)) objectGone (by decide +kernel)
      rfl rfl
    obtain ⟨resource, hresource, hmissed⟩ := hend
    cases (resourceOf_reasonFor .memory).symm.trans hresource
    rcases Absence.missed_cons.1 hmissed with habsent | ⟨-, hnil⟩
    · exact absurd habsent (by decide +kernel)
    · exact Absence.not_missed_nil hnil
  · intro h
    have hend := (h usageOutage (List.prefix_refl _)).tokenBurn
      (incidentOf busySession.uid TokenBurn.reason) objectGone (by decide +kernel) rfl rfl
    rcases Absence.missed_cons.1 hend with habsent | ⟨-, hrest⟩
    · exact absurd habsent (by decide +kernel)
    · rcases Absence.missed_cons.1 hrest with habsent | ⟨-, hnil⟩
      · exact absurd habsent (by decide +kernel)
      · exact Absence.not_missed_nil hnil

end Monitor

end Lookout.Sources
