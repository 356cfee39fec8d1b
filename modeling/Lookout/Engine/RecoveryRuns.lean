-- SUMMARY: Runs of the recovery tracker: stability windows after a flap, and the order of outcomes.
import Lookout.Engine.Recovery

/-!
# Runs of the recovery tracker

A run is any sequence of `Track`, `Tick` and `RequeueResolved` calls, with
whatever the observers answer on each tick. `Round` says once what a tick can do
to one incident, and the results about runs follow from it by induction.
-/

namespace Lookout.Engine

variable {ti ti' : TrackedIncident} {now : Int} {t : RecoveryTracker}
  {next : Option TrackedIncident} {k : EventKey} {verdict : Option Clearance}

namespace RecoveryTracker

/-! ## What a tick does to one incident -/

/-- The start of the clear streak as a tick in the clearing state leaves it. -/
def streak (ti : TrackedIncident) (v : Clearance) (now : Int) : Int :=
  if v.stableSince ≠ 0 ∧ ti.stabilityStart < stabilityStart ti.inc v now
    then stabilityStart ti.inc v now else ti.stabilityStart

/-- The recovery record of an incident that a tick resolves. -/
def resolution (ti : TrackedIncident) (v : Clearance) (now : Int) : Recovery :=
  { clearedAfter := since (streak ti v now) ti.inc.firstSeen,
    observedStableFor := since now (streak ti v now), resolution := v.resolution, resolvedAt := now }

/-- Everything one tick can do to an incident, with what is left of it and what is emitted. -/
inductive Round (t : RecoveryTracker) (now : Int) (ti : TrackedIncident) :
    Option Clearance → Option TrackedIncident → Option Outcome → Prop where
  | uncovered : ti.judged = false → since now ti.trackedAt > t.uncoveredTTL →
      Round t now ti none none none
  | unjudged : Round t now ti none (some ti) none
  | ill (v : Clearance) : ti.state = .symptomatic → v.cleared = false →
      Round t now ti (some v) (some { ti with judged := true, state := .symptomatic }) none
  | clears (v : Clearance) : ti.state = .symptomatic → v.cleared = true →
      Round t now ti (some v)
        (some { ti with
          judged := true, state := .clearing, stabilityStart := stabilityStart ti.inc v now }) none
  | flaps (v : Clearance) : ti.state = .clearing → v.cleared = false →
      Round t now ti (some v) (some { ti with judged := true, state := .symptomatic }) none
  | waits (v : Clearance) : ti.state = .clearing → v.cleared = true →
      since now (streak ti v now) < t.stableFor →
      Round t now ti (some v)
        (some { ti with
          judged := true, state := .clearing, stabilityStart := streak ti v now }) none
  | resolves (v : Clearance) : ti.state = .clearing → v.cleared = true →
      since now (streak ti v now) ≥ t.stableFor →
      Round t now ti (some v)
        (some { ti with
          judged := true, state := .resolved, stabilityStart := streak ti v now,
          resolvedAt := now, recovery := resolution ti v now })
        (some ⟨.resolved, ti.inc, resolution ti v now⟩)
  | reverts (v : Clearance) : ti.state = .resolved → v.cleared = false →
      since now ti.resolvedAt ≤ t.revertWindow →
      Round t now ti (some v) (some { ti with judged := true, state := .symptomatic })
        (some ⟨.reverted, ti.inc, { ti.recovery with revertedAfter := since now ti.resolvedAt }⟩)
  | final (v : Clearance) : ti.state = .resolved → since now ti.resolvedAt > t.revertWindow →
      Round t now ti (some v) none none
  | holds (v : Clearance) : ti.state = .resolved → v.cleared = true →
      since now ti.resolvedAt ≤ t.revertWindow →
      Round t now ti (some v) (some { ti with judged := true, state := .resolved }) none

section

variable (t)

theorem tickOne_round (observers : List Observer) (now : Int) (ti : TrackedIncident) :
    Round t now ti (judge observers ti.inc) (t.tickOne observers now ti).1
      (t.tickOne observers now ti).2 := by
  unfold tickOne
  cases hj : judge observers ti.inc with
  | none =>
    dsimp only
    split
    · next h => exact .uncovered h.1 h.2
    · exact .unjudged
  | some v =>
    dsimp only
    unfold advance
    cases hs : ti.state with
    | symptomatic =>
      cases hv : v.cleared with
      | true =>
        exact .clears v hs hv
      | false =>
        exact .ill v hs hv
    | clearing =>
      cases hv : v.cleared with
      | true =>
        by_cases hlong : since now (streak ti v now) ≥ t.stableFor
        · simp only [← streak.eq_def, if_pos hlong]
          exact .resolves v hs hv hlong
        · simp only [← streak.eq_def, if_neg hlong]
          exact .waits v hs hv (not_le.1 hlong)
      | false =>
        exact .flaps v hs hv
    | resolved =>
      dsimp only
      split
      · next h => exact .reverts v hs h.1 h.2
      · next h =>
        split
        · next hlate => exact .final v hs hlate
        · next hlate =>
          have hwithin : since now ti.resolvedAt ≤ t.revertWindow := not_lt.1 hlate
          refine .holds v hs ?_ hwithin
          cases hv : v.cleared with
          | true => rfl
          | false => exact absurd ⟨hv, hwithin⟩ h

/-! ## Runs -/

/-- One call on the tracker. -/
inductive TrackerStep where
  | track (o : Map.Walk EventKey) (now : Int) (inc : Incident)
  | tick (o : Map.Walk EventKey) (observers : List Observer) (now : Int)
  | requeue (key : EventKey)

/-- The reading of the clock that a call takes. -/
def TrackerStep.time? : TrackerStep → Option Int
  | .track _ now _ => some now
  | .tick _ _ now => some now
  | .requeue _ => none

def step (t : RecoveryTracker) : TrackerStep → RecoveryTracker
  | .track o now inc => t.track o now inc
  | .tick o observers now => (t.tick o observers now).1
  | .requeue key => t.requeueResolved key

def run (t : RecoveryTracker) (steps : List TrackerStep) : RecoveryTracker := steps.foldl step t

/-- The clock of a run never goes back. -/
def Clocked (steps : List TrackerStep) : Prop :=
  (steps.filterMap TrackerStep.time?).Pairwise (· ≤ ·)

@[simp] theorem run_nil : t.run [] = t := rfl

@[simp] theorem run_cons (s : TrackerStep) (steps : List TrackerStep) :
    t.run (s :: steps) = (t.step s).run steps := rfl

@[simp] theorem run_append (steps rest : List TrackerStep) :
    t.run (steps ++ rest) = (t.run steps).run rest :=
  List.foldl_append

end

theorem stableFor_track (o : Map.Walk EventKey) (now : Int) (inc : Incident)
    (t : RecoveryTracker) : (t.track o now inc).stableFor = t.stableFor := by
  unfold track evictOne
  dsimp only
  split
  · split <;> rfl
  · rfl

@[simp] theorem stableFor_step (t : RecoveryTracker) (s : TrackerStep) :
    (t.step s).stableFor = t.stableFor := by
  cases s with
  | track o now inc => exact stableFor_track o now inc t
  | tick o observers now => rfl
  | requeue key =>
    simp only [step, requeueResolved]
    split
    · rfl
    · split <;> rfl

@[simp] theorem stableFor_run (t : RecoveryTracker) (steps : List TrackerStep) :
    (t.run steps).stableFor = t.stableFor := by
  induction steps generalizing t with
  | nil => rfl
  | cons s steps ih => rw [run_cons, ih, stableFor_step]

/-- Everything a call can leave under `k`. -/
inductive Left (t : RecoveryTracker) (k : EventKey) (ti : TrackedIncident) : TrackerStep → Prop where
  | fresh (o : Map.Walk EventKey) (now : Int) (inc : Incident) : inc.key.canonical = k →
      ti.inc.key = k → ti.state = .symptomatic → Left t k ti (.track o now inc)
  | beside (o : Map.Walk EventKey) (now : Int) (inc : Incident) : inc.key.canonical ≠ k →
      t.incidents.lookup k = some ti → Left t k ti (.track o now inc)
  | requeued (key : EventKey) (ti₀ : TrackedIncident) : key.canonical = k →
      t.incidents.lookup k = some ti₀ → ti₀.state = .resolved →
      ti = { ti₀ with state := .clearing } → Left t k ti (.requeue key)
  | idle (key : EventKey) : t.incidents.lookup k = some ti → Left t k ti (.requeue key)
  | ticked (o : Map.Walk EventKey) (observers : List Observer) (now : Int) (ti₀ : TrackedIncident) :
      t.incidents.lookup k = some ti₀ →
      Round t now ti₀ (judge observers ti₀.inc) (some ti) (t.tickOne observers now ti₀).2 →
      Left t k ti (.tick o observers now)

variable {f : Int} {out : Option Outcome} {s : TrackerStep} {v : Clearance}

theorem left_of_step (h : (t.step s).incidents.lookup k = some ti) : Left t k ti s := by
  cases s with
  | track o now inc =>
    simp only [step, track] at h
    rcases Map.of_lookup_insert h with ⟨hk, rfl⟩ | ⟨hk, h⟩
    · exact .fresh o now inc hk.symm hk.symm rfl
    · refine .beside o now inc (Ne.symm hk) ?_
      split at h
      · unfold evictOne at h
        dsimp only at h
        split at h
        · exact h
        · exact (Map.of_lookup_erase h).2
      · exact h
  | tick o observers now =>
    simp only [step] at h
    rw [lookup_tick] at h
    obtain ⟨ti₀, hti₀, hnext⟩ := Option.bind_eq_some_iff.1 h
    have hround := tickOne_round t observers now ti₀
    rw [hnext] at hround
    exact .ticked o observers now ti₀ hti₀ hround
  | requeue key =>
    simp only [step, requeueResolved] at h
    split at h
    · exact .idle key h
    · next ti₀ hti₀ =>
      split at h
      · next hres =>
        rcases Map.of_lookup_insert h with ⟨hk, rfl⟩ | ⟨-, h⟩
        · exact .requeued key ti₀ hk.symm (hk ▸ hti₀) hres rfl
        · exact .idle key h
      · exact .idle key h

/-! ## Stability windows -/

/-- The clear streak of an incident, where it has one, starts at `f` or later. -/
def StreakFrom (f : Int) (ti : TrackedIncident) : Prop :=
  ti.state ≠ .symptomatic → f ≤ ti.stabilityStart

theorem le_stabilityStart {inc : Incident} (hnow : f ≤ now)
    (hv : v.stableSince ≠ 0 → f ≤ v.stableSince) : f ≤ stabilityStart inc v now := by
  unfold stabilityStart
  dsimp only
  split <;> split <;> omega

theorem firstSeen_le_stabilityStart (inc : Incident) (v : Clearance) (now : Int) :
    inc.firstSeen ≤ stabilityStart inc v now := by
  unfold stabilityStart
  dsimp only
  split <;> omega

theorem stabilityStart_le_streak (ti : TrackedIncident) (v : Clearance) (now : Int) :
    ti.stabilityStart ≤ streak ti v now := by
  unfold streak
  split <;> omega

theorem StreakFrom.le_streak (h : StreakFrom f ti) (hs : ti.state = .clearing) (v : Clearance)
    (now : Int) : f ≤ streak ti v now :=
  (h (by rw [hs]; decide)).trans (stabilityStart_le_streak ti v now)

theorem StreakFrom.requeued (h : StreakFrom f ti) (hres : ti.state = .resolved) :
    StreakFrom f { ti with state := .clearing } := by
  have hold : f ≤ ti.stabilityStart := h (by rw [hres]; decide)
  exact fun _ => hold

/-- A tick moves a streak only forward, and starts a new one where `hstart` allows. -/
theorem Round.streakFrom (hround : Round t now ti verdict (some ti') out) (h : StreakFrom f ti)
    (hstart : ∀ v, verdict = some v → v.cleared = true → f ≤ stabilityStart ti.inc v now) :
    StreakFrom f ti' := by
  cases hround with
  | unjudged => exact h
  | ill v hs hv | flaps v hs hv | reverts v hs hv hin => exact fun hne => absurd rfl hne
  | clears v hs hv => exact fun _ => hstart v rfl hv
  | waits v hs hv hshort | resolves v hs hv hlong => exact fun _ => h.le_streak hs v now
  | holds v hs hv hin =>
    intro _
    exact h (by rw [hs]; decide)

/-- A resolution reports the streak it waited for. -/
theorem Round.resolved {out : Outcome} (hround : Round t now ti verdict next (some out))
    (hkind : out.kind = .resolved) (h : StreakFrom f ti) :
    t.stableFor ≤ out.recovery.observedStableFor ∧
      ∃ start, f ≤ start ∧ out.recovery.observedStableFor = since now start ∧
        out.recovery.clearedAfter = since start ti.inc.firstSeen := by
  cases hround with
  | resolves v hs hv hlong => exact ⟨hlong, streak ti v now, h.le_streak hs v now, rfl, rfl⟩
  | reverts v hs hv hin => cases hkind

theorem Round.inc_eq (hround : Round t now ti verdict next out) :
    (∀ ti', next = some ti' → ti'.inc = ti.inc) ∧ ∀ o, out = some o → o.inc = ti.inc := by
  cases hround <;> simp

/-- What every tracked incident keeps: its key, which names the family of its reason,
    a streak that is not older than it, and the mark of an observer once it left the
    symptomatic state. -/
structure Sound (k : EventKey) (ti : TrackedIncident) : Prop where
  key : ti.inc.key = k
  canonical : k.canonical = k
  streak : StreakFrom ti.inc.firstSeen ti
  judged : ti.state ≠ .symptomatic → ti.judged = true

theorem Round.judged (hround : Round t now ti verdict (some ti') out)
    (h : ti.state ≠ .symptomatic → ti.judged = true) :
    ti'.state ≠ .symptomatic → ti'.judged = true := by
  cases hround with
  | unjudged => exact h
  | _ => exact fun _ => rfl

/-- Every tracked incident is sound. -/
def AllSound (t : RecoveryTracker) : Prop := ∀ k ti, t.incidents.lookup k = some ti → Sound k ti

theorem sound_step (h : t.AllSound) : (t.step s).AllSound := by
  intro k ti hti
  cases left_of_step hti with
  | fresh o now inc hcan hkey hs =>
    refine ⟨hkey, ?_, fun hne => absurd hs hne, fun hne => absurd hs hne⟩
    rw [← hcan]
    exact EventKey.canonical_idem inc.key
  | beside o now inc _ hti₀ | idle key hti₀ => exact h k _ hti₀
  | requeued key ti₀ _ hti₀ hres heq =>
    subst heq
    refine ⟨(h k _ hti₀).key, (h k _ hti₀).canonical, (h k _ hti₀).streak.requeued hres, fun _ => ?_⟩
    exact (h k _ hti₀).judged (by rw [hres]; decide)
  | ticked o observers now ti₀ hti₀ hround =>
    have hinc : ti.inc = ti₀.inc := hround.inc_eq.1 ti rfl
    refine ⟨by rw [hinc]; exact (h k _ hti₀).key, (h k _ hti₀).canonical, ?_,
      hround.judged (h k _ hti₀).judged⟩
    rw [hinc]
    exact hround.streakFrom (h k _ hti₀).streak fun v _ _ => firstSeen_le_stabilityStart _ v now

theorem sound_run {stableFor : Int} (hpos : 0 < stableFor) (steps : List TrackerStep) :
    ((new stableFor hpos).run steps).AllSound := by
  induction steps using List.reverseRecOn with
  | nil => exact fun k ti hti => absurd hti (by simp [new])
  | append_singleton steps s ih =>
    rw [run_append]
    exact sound_step ih

/-- An outcome that a tick emits for `k` comes from the round of the incident under `k`. -/
theorem round_of_emitted {o : Map.Walk EventKey} {observers : List Observer} {out : Outcome}
    (hsound : t.AllSound) (h : out ∈ (t.tick o observers now).2) :
    ∃ ti, t.incidents.lookup out.inc.key = some ti ∧ out.inc = ti.inc ∧
      Round t now ti (judge observers ti.inc) (t.tickOne observers now ti).1 (some out) := by
  obtain ⟨k, ti, hti, hout⟩ := mem_tick.1 h
  have hround := tickOne_round t observers now ti
  rw [hout] at hround
  have hinc : out.inc = ti.inc := hround.inc_eq.2 out rfl
  refine ⟨ti, ?_, hinc, hround⟩
  rw [hinc, (hsound k ti hti).key]
  exact hti

/-- A tick with these observers finds the symptom of `k` present. -/
def SawSymptom (t : RecoveryTracker) (observers : List Observer) (k : EventKey) : Prop :=
  ∃ ti v, t.incidents.lookup k = some ti ∧ judge observers ti.inc = some v ∧ v.cleared = false

/-- A flap resets the window: after a tick that sees the symptom of `k`, no tick
    resolves `k` until the stability window has passed. -/
def FlapResets (t : RecoveryTracker) (steps : List TrackerStep) : Prop :=
  ∀ pre o₁ obs₁ now₁ mid o₂ obs₂ now₂ post k,
    steps = pre ++ .tick o₁ obs₁ now₁ :: (mid ++ .tick o₂ obs₂ now₂ :: post) →
    (t.run pre).SawSymptom obs₁ k →
    ∀ out ∈ ((t.run (pre ++ .tick o₁ obs₁ now₁ :: mid)).tick o₂ obs₂ now₂).2,
      out.kind = .resolved → out.inc.key = k → now₁ + t.stableFor ≤ now₂

/-- Every resolution waited for the stability window, and cleared after the incident began. -/
def StableOutcomes (t : RecoveryTracker) (steps : List TrackerStep) : Prop :=
  ∀ pre o obs now post, steps = pre ++ .tick o obs now :: post →
    ∀ out ∈ ((t.run pre).tick o obs now).2, out.kind = .resolved →
      t.stableFor ≤ out.recovery.observedStableFor ∧ 0 ≤ out.recovery.clearedAfter

/-- The observers never vouch for the absence of a symptom from before a tick that
    saw it present. -/
def Vouched (t : RecoveryTracker) (steps : List TrackerStep) : Prop :=
  ∀ pre o₁ obs₁ now₁ mid o₂ obs₂ now₂ post k,
    steps = pre ++ .tick o₁ obs₁ now₁ :: (mid ++ .tick o₂ obs₂ now₂ :: post) →
    (t.run pre).SawSymptom obs₁ k →
    ∀ ti v, (t.run (pre ++ .tick o₁ obs₁ now₁ :: mid)).incidents.lookup k = some ti →
      judge obs₂ ti.inc = some v → v.cleared = true → v.stableSince ≠ 0 → now₁ ≤ v.stableSince

theorem Clocked.le_of_mem {pre rest : List TrackerStep} {s' : TrackerStep} {n n' : Int}
    (h : Clocked (pre ++ s :: rest)) (hs : s.time? = some n) (hs' : s'.time? = some n')
    (hmem : s' ∈ rest) : n ≤ n' := by
  unfold Clocked at h
  rw [List.filterMap_append, List.filterMap_cons_some hs] at h
  exact (List.pairwise_cons.1 (List.pairwise_append.1 h).2.1).1 n'
    (List.mem_filterMap.2 ⟨s', hmem, hs'⟩)

/-- A tick that sees the symptom leaves the incident symptomatic, or drops it. -/
theorem Round.symptomatic (hround : Round t now ti (some v) (some ti') out) (hv : v.cleared = false) :
    ti'.state = .symptomatic := by
  cases hround with
  | ill => rfl
  | clears _ _ hcl | waits _ _ hcl | resolves _ _ hcl | holds _ _ hcl => rw [hv] at hcl; cases hcl
  | flaps => rfl
  | reverts => rfl

/-- From a state where the streak of `k` starts at `f` or later, a run keeps it so,
    if every tick of the run vouches from `f` on. -/
theorem streakFrom_run (steps : List TrackerStep)
    (h : ∀ ti, t.incidents.lookup k = some ti → StreakFrom f ti)
    (hclock : ∀ s ∈ steps, ∀ n, s.time? = some n → f ≤ n)
    (hvouch : ∀ m₁ o obs now m₂, steps = m₁ ++ .tick o obs now :: m₂ →
      ∀ ti v, (t.run m₁).incidents.lookup k = some ti → judge obs ti.inc = some v →
        v.cleared = true → v.stableSince ≠ 0 → f ≤ v.stableSince) :
    ∀ ti, (t.run steps).incidents.lookup k = some ti → StreakFrom f ti := by
  induction steps using List.reverseRecOn with
  | nil => exact h
  | append_singleton steps s ih =>
    intro ti hti
    have hbefore := ih (fun s' hs' => hclock s' (List.mem_append_left _ hs'))
      (fun m₁ o obs now m₂ hsplit =>
        hvouch m₁ o obs now (m₂ ++ [s]) (by rw [hsplit, List.append_assoc, List.cons_append]))
    rw [run_append] at hti
    cases left_of_step hti with
    | fresh o now inc _ _ hs => exact fun hne => absurd hs hne
    | beside o now inc _ hti₀ | idle key hti₀ => exact hbefore _ hti₀
    | requeued key ti₀ _ hti₀ hres heq =>
      rw [heq]
      exact (hbefore _ hti₀).requeued hres
    | ticked o observers now ti₀ hti₀ hround =>
      refine hround.streakFrom (hbefore _ hti₀) fun v hv hcl => ?_
      have hnow : f ≤ now := hclock (.tick o observers now) (List.mem_append_right _
        (List.mem_singleton_self _)) now rfl
      exact le_stabilityStart hnow (hvouch steps o observers now [] rfl ti₀ v hti₀ hv hcl)

end RecoveryTracker

open RecoveryTracker

/-- Whatever the observers answer, every resolution waited out the stability window.
    Where they vouch for no absence from before a tick that saw the symptom, a flap
    resets that window. -/
theorem flap_resets_window {stableFor : Int} (hpos : 0 < stableFor) {steps : List TrackerStep}
    (hclock : Clocked steps) (hvouch : Vouched (new stableFor hpos) steps) :
    FlapResets (new stableFor hpos) steps ∧ StableOutcomes (new stableFor hpos) steps := by
  constructor
  · intro pre o₁ obs₁ now₁ mid o₂ obs₂ now₂ post k hsplit hsaw out hout hkind hkey
    obtain ⟨ti₁, v₁, hti₁, hv₁, hill⟩ := hsaw
    rw [hsplit] at hclock
    have hlater : ∀ s ∈ mid ++ .tick o₂ obs₂ now₂ :: post, ∀ n, s.time? = some n → now₁ ≤ n :=
      fun s hs n hn => hclock.le_of_mem rfl hn hs
    -- Right after the flap there is no streak, and vouching keeps later ones behind it.
    have hstart : ∀ ti, (((new stableFor hpos).run pre).step (.tick o₁ obs₁ now₁)).incidents.lookup
        k = some ti → StreakFrom now₁ ti := by
      intro ti hti
      simp only [step] at hti
      rw [lookup_tick, hti₁] at hti
      have hround := tickOne_round ((new stableFor hpos).run pre) obs₁ now₁ ti₁
      rw [show (tickOne _ obs₁ now₁ ti₁).1 = some ti from hti, hv₁] at hround
      exact fun hne => absurd (hround.symptomatic hill) hne
    have hmid := streakFrom_run mid hstart
      (fun s hs => hlater s (List.mem_append_left _ hs))
      (by
        intro m₁ o obs now m₂ hm ti v hti
        refine hvouch pre o₁ obs₁ now₁ m₁ o obs now (m₂ ++ .tick o₂ obs₂ now₂ :: post) k ?_
          ⟨ti₁, v₁, hti₁, hv₁, hill⟩ ti v ?_
        · rw [hsplit, hm, List.append_assoc, List.cons_append]
        · rw [run_append, run_cons]
          exact hti)
    have hsound := sound_run hpos (pre ++ .tick o₁ obs₁ now₁ :: mid)
    obtain ⟨ti, hti, -, hround⟩ := round_of_emitted hsound hout
    rw [hkey, run_append, run_cons] at hti
    obtain ⟨hlong, start, hfrom, hobs, -⟩ := hround.resolved hkind (hmid ti hti)
    rw [hobs, stableFor_run] at hlong
    have hmin : minDuration < (new stableFor hpos).stableFor := by
      change minDuration < stableFor
      unfold minDuration
      omega
    have hdiff := sub_ge_of_since_ge hmin hlong
    omega
  · intro pre o obs now post _ out hout hkind
    have hsound := sound_run hpos pre
    obtain ⟨ti, hti, -, hround⟩ := round_of_emitted hsound hout
    obtain ⟨hlong, start, hfrom, -, hcleared⟩ := hround.resolved hkind (hsound _ ti hti).streak
    rw [stableFor_run] at hlong
    exact ⟨hlong, by rw [hcleared]; exact since_nonneg hfrom⟩

namespace Sample

/-- A crash-looping pod of a Deployment, first seen an hour into the epoch. -/
def crashLoop : Incident :=
  { key := ⟨bytes "pod-a", bytes "CrashLoopBackOff"⟩, sessionID := bytes "s1", firstSeen := hour,
    ref := { kindOfObject := bytes "Pod" } }

/-- An observer that sees the symptom. -/
def ill : List Observer := [fun _ => some ⟨false, 0, .recovered⟩]

/-- An observer that vouches for the absence of the symptom since `t`. -/
def well (t : Int) : List Observer := [fun _ => some ⟨true, t, .recovered⟩]

def fiveMinutes : RecoveryTracker := new (5 * minute) five_minutes_pos

/-- The pod is gone and its replacements crash, until a rollback makes the old
    ReplicaSet, whose pods have been Ready all along, the current one. -/
def rollbackRun : List TrackerStep :=
  [.track .listed hour crashLoop, .tick .listed ill (hour + 10 * minute),
    .tick .listed (well (hour - minute)) (hour + 10 * minute + 15 * second),
    .tick .listed (well (hour - minute)) (hour + 10 * minute + 30 * second)]

/-- The pod becomes Ready five seconds after the tick that saw it crash. -/
def steadyRun : List TrackerStep :=
  [.track .listed hour crashLoop, .tick .listed ill (hour + 10 * minute),
    .tick .listed (well (hour + 10 * minute + 5 * second)) (hour + 10 * minute + 15 * second),
    .tick .listed (well (hour + 10 * minute + 5 * second)) (hour + 16 * minute)]

end Sample

open Sample in
/-- The replacement's readiness predates the flap, and the incident is resolved
    thirty seconds after a tick that saw the symptom. -/
theorem rollback_resolves_early : Clocked rollbackRun ∧ ¬ FlapResets fiveMinutes rollbackRun := by
  refine ⟨by unfold Clocked; decide +kernel, fun h => ?_⟩
  have hout : ∃ out ∈ ((fiveMinutes.run (rollbackRun.take 3)).tick .listed (well (hour - minute))
      (hour + 10 * minute + 30 * second)).2, out.kind = .resolved ∧ out.inc.key = crashLoop.key := by
    decide +kernel
  obtain ⟨out, hmem, hkind, hkey⟩ := hout
  have hlate := h [.track .listed hour crashLoop] .listed ill (hour + 10 * minute)
    [.tick .listed (well (hour - minute)) (hour + 10 * minute + 15 * second)] .listed
    (well (hour - minute)) (hour + 10 * minute + 30 * second) [] crashLoop.key rfl
    ⟨{ inc := crashLoop, trackedAt := hour }, ⟨false, 0, .recovered⟩, by decide +kernel, rfl, rfl⟩
    out hmem hkind hkey
  exact absurd hlate (by decide +kernel)

open Sample in
theorem steadyRun_resets :
    (∃ out ∈ ((fiveMinutes.run (steadyRun.take 3)).tick .listed
      (well (hour + 10 * minute + 5 * second)) (hour + 16 * minute)).2, out.kind = .resolved) ∧
    FlapResets fiveMinutes steadyRun ∧ StableOutcomes fiveMinutes steadyRun := by
  refine ⟨by decide +kernel, flap_resets_window (by decide) (by unfold Clocked; decide +kernel) ?_⟩
  intro pre o₁ obs₁ now₁ mid o₂ obs₂ now₂ post k hsplit hsaw ti v hti hv hcl _
  have hfirst : TrackerStep.tick o₁ obs₁ now₁ ∈ steadyRun := by rw [hsplit]; simp
  have hsecond : TrackerStep.tick o₂ obs₂ now₂ ∈ steadyRun := by rw [hsplit]; simp
  simp only [steadyRun, List.mem_cons, List.not_mem_nil, or_false, reduceCtorEq, false_or] at hfirst hsecond
  obtain ⟨ti₁, v₁, -, hv₁, hill⟩ := hsaw
  -- Only the first tick sees the symptom, and only the later ones report it gone.
  rcases hfirst with ⟨-, rfl, rfl⟩ | ⟨-, rfl, -⟩ | ⟨-, rfl, -⟩
  · rcases hsecond with ⟨-, rfl, -⟩ | ⟨-, rfl, -⟩ | ⟨-, rfl, -⟩
    · cases hv
      cases hcl
    · cases hv
      decide
    · cases hv
      decide
  · cases hv₁
    cases hill
  · cases hv₁
    cases hill

/-! ## The order of outcomes -/

namespace RecoveryTracker

/-- What a call shows of the incident under one key. -/
inductive Sight where
  | tracked
  | requeued
  | outcome (now : Int) (kind : OutcomeKind)

/-- What one call shows of the incident under `k`. -/
def sights (k : EventKey) (t : RecoveryTracker) : TrackerStep → List Sight
  | .track _ _ inc => if inc.key.canonical = k then [.tracked] else []
  | .requeue key => if key.canonical = k then [.requeued] else []
  | .tick o observers now =>
    ((t.tick o observers now).2.filter fun out => out.inc.key = k).map fun out =>
      .outcome now out.kind

/-- What a run shows of the incident under `k`. -/
def history (k : EventKey) : RecoveryTracker → List TrackerStep → List Sight
  | _, [] => []
  | t, s :: steps => sights k t s ++ history k (t.step s) steps

/-- The outcomes of one incident between two `Track` calls alternate, resolved first.
    `last` is the last of them with its time, and `requeued` says whether
    `RequeueResolved` was called since. A resolved follows a resolved only then, and a
    reverted comes within the revert window of the resolved it takes back. -/
def Alternates (revertWindow : Int) : Option (OutcomeKind × Int) → Bool → List Sight → Prop
  | _, _, [] => True
  | _, _, .tracked :: rest => Alternates revertWindow none false rest
  | last, _, .requeued :: rest => Alternates revertWindow last true rest
  | last, requeued, .outcome now .resolved :: rest =>
    ((∃ at_, last = some (.resolved, at_)) → requeued = true) ∧
      Alternates revertWindow (some (.resolved, now)) false rest
  | last, _, .outcome now .reverted :: rest =>
    (∃ at_, last = some (.resolved, at_) ∧ since now at_ ≤ revertWindow) ∧
      Alternates revertWindow (some (.reverted, now)) false rest

variable {requeued : Bool}

/-- A tick emits for `k` exactly what the round of the incident under `k` emits. -/
theorem filter_emitted (o : Map.Walk EventKey) (observers : List Observer) (now : Int)
    (hsound : t.AllSound) (k : EventKey) :
    ((t.tick o observers now).2.filter fun out => out.inc.key = k) =
      ((t.incidents.lookup k).bind fun ti => (t.tickOne observers now ti).2).toList := by
  have hkey : ∀ k' out, ((t.incidents.lookup k').bind fun ti => (t.tickOne observers now ti).2) =
      some out → out.inc.key = k' := by
    intro k' out hout
    obtain ⟨ti, hti, hout⟩ := Option.bind_eq_some_iff.1 hout
    have hround := tickOne_round t observers now ti
    rw [hout] at hround
    rw [hround.inc_eq.2 out rfl]
    exact (hsound k' ti hti).key
  unfold tick
  rw [Map.filter_filterMap_of_key hkey (Map.nodup_walk o _)]
  split
  · rfl
  · next hk =>
    rw [Map.mem_walk] at hk
    rw [Finmap.lookup_eq_none.2 hk]
    rfl

/-- The last outcome and the requeue mark fit the state of an incident: a resolved one
    was the last to be resolved, and another one has no standing resolution. -/
structure Fits (last : Option (OutcomeKind × Int)) (requeued : Bool) (ti : TrackedIncident) :
    Prop where
  resolved : ti.state = .resolved → last = some (.resolved, ti.resolvedAt)
  unresolved : ti.state ≠ .resolved → (∃ at_, last = some (.resolved, at_)) → requeued = true

variable {last : Option (OutcomeKind × Int)}

theorem Fits.of_unresolved (hs : ti.state ≠ .resolved)
    (h : (∃ at_, last = some (.resolved, at_)) → requeued = true) : Fits last requeued ti :=
  ⟨fun hres => absurd hres hs, fun _ => h⟩

/-- They fit the incident under `k`, if there is one. -/
def Expects (t : RecoveryTracker) (k : EventKey) (last : Option (OutcomeKind × Int))
    (requeued : Bool) : Prop :=
  ∀ ti, t.incidents.lookup k = some ti → Fits last requeued ti

/-- A round without an outcome keeps the fit. -/
theorem Round.fits (hround : Round t now ti verdict (some ti') none) (h : Fits last requeued ti) :
    Fits last requeued ti' := by
  cases hround with
  | unjudged => exact h
  | ill v hs | clears v hs | flaps v hs | waits v hs =>
    exact .of_unresolved nofun (h.unresolved (by rw [hs]; decide))
  | holds v hs => exact ⟨fun _ => h.resolved hs, fun hne => absurd rfl hne⟩

/-- A round with an outcome keeps the order of outcomes, and the fit with the new last one. -/
theorem Round.alternates {out : Outcome} {rest : List Sight}
    (hround : Round t now ti verdict next (some out)) (h : Fits last requeued ti)
    (hrest : ∀ {last}, (∀ ti', next = some ti' → Fits last false ti') →
      Alternates t.revertWindow last false rest) :
    Alternates t.revertWindow last requeued (.outcome now out.kind :: rest) := by
  cases hround with
  | resolves v hs =>
    refine ⟨h.unresolved (by rw [hs]; decide), hrest fun ti' hti' => ?_⟩
    cases hti'
    exact ⟨fun _ => rfl, fun hne => absurd rfl hne⟩
  | reverts v hs hv hin =>
    refine ⟨⟨ti.resolvedAt, h.resolved hs, hin⟩, hrest fun ti' hti' => ?_⟩
    cases hti'
    refine .of_unresolved nofun fun hlast => ?_
    obtain ⟨at_, hat⟩ := hlast
    cases hat

@[simp] theorem revertWindow_step (t : RecoveryTracker) (s : TrackerStep) :
    (t.step s).revertWindow = t.revertWindow := by
  rw [revertWindow_eq, stableFor_step, revertWindow_eq]

theorem alternates_history (steps : List TrackerStep) (hsound : t.AllSound)
    (h : t.Expects k last requeued) :
    Alternates t.revertWindow last requeued (history k t steps) := by
  induction steps generalizing t last requeued with
  | nil => trivial
  | cons s steps ih =>
    have hsound' := sound_step (s := s) hsound
    have hih : ∀ {last requeued}, (t.step s).Expects k last requeued →
        Alternates t.revertWindow last requeued (history k (t.step s) steps) := by
      intro last requeued hexp
      rw [← revertWindow_step t s]
      exact ih hsound' hexp
    rw [history]
    cases s with
    | track o now inc =>
      rw [sights]
      split
      · next hk =>
        refine hih fun ti hti => ?_
        cases left_of_step hti with
        | fresh _ _ _ _ _ hs =>
          refine .of_unresolved (by rw [hs]; decide) fun hlast => ?_
          obtain ⟨at_, hat⟩ := hlast
          cases hat
        | beside _ _ _ hne => exact absurd hk hne
      · next hk =>
        refine hih fun ti hti => ?_
        cases left_of_step hti with
        | fresh _ _ _ heq => exact absurd heq hk
        | beside _ _ _ _ hti₀ => exact h ti hti₀
    | requeue key =>
      rw [sights]
      split
      · refine hih fun ti hti => ⟨fun hres => ?_, fun _ _ => rfl⟩
        cases left_of_step hti with
        | requeued _ ti₀ _ _ _ heq => rw [heq] at hres; cases hres
        | idle _ hti₀ => exact (h ti hti₀).resolved hres
      · next hk =>
        refine hih fun ti hti => ?_
        cases left_of_step hti with
        | requeued _ ti₀ heq => exact absurd heq hk
        | idle _ hti₀ => exact h ti hti₀
    | tick o observers now =>
      rw [sights, filter_emitted o observers now hsound]
      cases hti₀ : t.incidents.lookup k with
      | none =>
        refine hih fun ti hti => ?_
        cases left_of_step hti with
        | ticked _ _ _ ti₀ hti => rw [hti₀] at hti; cases hti
      | some ti₀ =>
        -- The round of `k` decides both what is shown and what is expected next.
        have hround := tickOne_round t observers now ti₀
        have hnext : (t.step (.tick o observers now)).incidents.lookup k =
            (t.tickOne observers now ti₀).1 := by
          simp only [step]
          rw [lookup_tick, hti₀]
          rfl
        rw [Option.bind_some]
        cases hout : (t.tickOne observers now ti₀).2 with
        | none =>
          refine hih fun ti hti => ?_
          rw [hnext] at hti
          rw [hout, hti] at hround
          exact hround.fits (h ti₀ hti₀)
        | some out =>
          rw [hout] at hround
          exact hround.alternates (h ti₀ hti₀) fun hfit => hih fun ti hti => hfit ti (hnext ▸ hti)

/-- The incident is resolved and its revert window has elapsed. -/
def Overdue (t : RecoveryTracker) (now : Int) (ti : TrackedIncident) : Prop :=
  ti.state = .resolved ∧ t.revertWindow < since now ti.resolvedAt

/-- No incident is left in the resolved state beyond its revert window. -/
def Finished (t : RecoveryTracker) (now : Int) : Prop :=
  ∀ k ti, t.incidents.lookup k = some ti → ¬ t.Overdue now ti

/-- Some observer judges every incident whose revert window has elapsed. -/
def AnswersOverdue (t : RecoveryTracker) (observers : List Observer) (now : Int) : Prop :=
  ∀ k ti, t.incidents.lookup k = some ti → t.Overdue now ti → (judge observers ti.inc).isSome

theorem finished_tick_iff (o : Map.Walk EventKey) (observers : List Observer) (now : Int)
    (hsound : t.AllSound) :
    (t.tick o observers now).1.Finished now ↔ t.AnswersOverdue observers now := by
  constructor
  · intro hfin k ti hti hover
    cases hj : judge observers ti.inc with
    | some v => rfl
    | none =>
      -- Without a verdict the incident, which was judged before, is kept as it is.
      refine absurd hover (hfin k ti ?_)
      have hround := tickOne_round t observers now ti
      rw [hj] at hround
      rw [lookup_tick, hti, Option.bind_some]
      generalize (t.tickOne observers now ti).1 = next at hround ⊢
      generalize (t.tickOne observers now ti).2 = out at hround
      cases hround with
      | unjudged => rfl
      | uncovered hnever =>
        rw [(hsound k ti hti).judged (by rw [hover.1]; decide)] at hnever
        cases hnever
  · intro hans k ti' hti' hover
    rw [lookup_tick] at hti'
    obtain ⟨ti, hti, hnext⟩ := Option.bind_eq_some_iff.1 hti'
    have hround := tickOne_round t observers now ti
    rw [hnext] at hround
    obtain ⟨hres, hlate⟩ := hover
    generalize hverdict : judge observers ti.inc = verdict at hround
    generalize (t.tickOne observers now ti).2 = out at hround
    cases hround with
    | unjudged =>
      have hjudged := hans k ti' hti ⟨hres, hlate⟩
      rw [hverdict] at hjudged
      cases hjudged
    | ill | clears | flaps | waits | reverts => cases hres
    | resolves =>
      simp only [since_self] at hlate
      have hpos := t.stableFor_pos
      have hrw : t.revertWindow < 0 := hlate
      rw [t.revertWindow_eq] at hrw
      omega
    | holds v hs hv hin => exact absurd hlate (not_lt.2 hin)

end RecoveryTracker

/-- In every run the outcomes of an incident alternate, and after a tick no incident
    stays resolved beyond its revert window, exactly if the observers still judge the
    incidents whose window has elapsed. -/
theorem outcomes_alternate_and_finish {stableFor : Int} (hpos : 0 < stableFor)
    (steps : List TrackerStep) :
    (∀ k, Alternates stableFor none false (history k (new stableFor hpos) steps)) ∧
    ∀ pre o observers now post, steps = pre ++ .tick o observers now :: post →
      ((((new stableFor hpos).run pre).tick o observers now).1.Finished now ↔
        ((new stableFor hpos).run pre).AnswersOverdue observers now) := by
  constructor
  · intro k
    refine alternates_history steps (sound_run hpos []) fun ti hti => ?_
    cases hti
  · intro pre o observers now post _
    exact finished_tick_iff o observers now (sound_run hpos pre)

open Sample in
/-- After it resolved an incident, the observer has no answer on it any more, and an
    hour later the incident is still there, in the resolved state. -/
theorem silent_observer_keeps_resolved :
    ¬ ((fiveMinutes.run (steadyRun ++ [.tick .listed [] (2 * hour)])).Finished (2 * hour)) := by
  intro h
  have hleft : ((fiveMinutes.run (steadyRun ++ [.tick .listed [] (2 * hour)])).incidents.lookup
      crashLoop.key).any (fun ti => ti.state == .resolved && 5 * minute < since (2 * hour)
        ti.resolvedAt) = true := by
    decide +kernel
  obtain ⟨ti, hti, hlate⟩ := (Option.any_eq_true _ _).1 hleft
  simp only [Bool.and_eq_true, beq_iff_eq, decide_eq_true_eq] at hlate
  refine h _ ti hti ⟨hlate.1, ?_⟩
  exact hlate.2

open Sample in
/-- An observer that still answers lets the tick drop the incident, whose revert window
    has elapsed. -/
theorem steadyRun_finishes :
    let observers := well (hour + 10 * minute + 5 * second)
    (∀ k, Alternates (5 * minute) none false
      (history k fiveMinutes (steadyRun ++ [.tick .listed observers (2 * hour)]))) ∧
    (∃ ti ∈ (fiveMinutes.run steadyRun).incidents.lookup crashLoop.key,
      (fiveMinutes.run steadyRun).Overdue (2 * hour) ti) ∧
    ((fiveMinutes.run steadyRun).tick .listed observers (2 * hour)).1.Finished (2 * hour) := by
  intro observers
  have hjudged : ∀ k ∈ (fiveMinutes.run steadyRun).incidents.keys,
      ((fiveMinutes.run steadyRun).incidents.lookup k).all
        (fun ti => (judge observers ti.inc).isSome) = true := by decide +kernel
  have hover : ∃ ti ∈ (fiveMinutes.run steadyRun).incidents.lookup crashLoop.key,
      (fiveMinutes.run steadyRun).Overdue (2 * hour) ti := by
    unfold Overdue
    decide +kernel
  have h := outcomes_alternate_and_finish five_minutes_pos
    (steadyRun ++ [.tick .listed observers (2 * hour)])
  refine ⟨h.1, hover, (h.2 steadyRun .listed observers (2 * hour) [] rfl).2 fun k ti hti _ => ?_⟩
  exact Map.forall_lookup_of_keys hjudged k ti hti

end Lookout.Engine
