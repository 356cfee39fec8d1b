-- SUMMARY: A persisted episode met with the first verdict after a restart.
import Lookout.Leeway.AlertRuns

/-!
# Reconciling a persisted episode

At a restart the machine of a subject is read back from the store and fed one fresh verdict.
The record may be damaged, written by another build, or come from a clock that has since
moved back. It is repaired first, and an episode that was waiting to resolve starts that
wait again.
-/

namespace Lookout.Leeway

open Lookout.Engine

/-- An alert state with the identity it belongs to. `updatedAt` is the store's stamp. -/
structure AlertRecord where
  cluster : GoString
  subjectKey : GoString
  topologyKey : GoString
  state : AlertState
  updatedAt : Int
  deriving DecidableEq

def notAfter (t now : Int) : Int := if now < t then now else t

/-- A decoded record made safe to run the machine on. -/
def AlertState.repair (s : AlertState) (now : Int) : AlertState :=
  match s.phase with
  | .unknown _ => {}
  | phase =>
    let firstSeenAt := notAfter s.firstSeenAt now
    let since := notAfter s.since now
    { phase
      firstSeenAt := if phase ≠ .ok ∧ firstSeenAt = 0 then now else firstSeenAt
      since := if phase.isFiring ∧ since = 0 then now else since
      clearSince := notAfter s.clearSince now
      fires := s.fires.map (notAfter · now) }

/-- The clear window of a resolving episode restarted. -/
def AlertState.rewind (s : AlertState) (now : Int) : AlertState :=
  if s.phase = .resolving then { s with clearSince := now } else s

/-- The repaired record, which waits for its full clear window. -/
def AlertState.rearm (s : AlertState) (now : Int) : AlertState := (s.repair now).rewind now

def reconcile (persisted : AlertRecord) (breached : Bool) (now : Int) (d : Dwell) :
    AlertRecord × Transition :=
  let (state, tr) := (persisted.state.rearm now).advance breached now d
  ({ persisted with state }, tr)

/-! ## What the machine is rearmed with -/

theorem notAfter_le (t now : Int) : notAfter t now ≤ now := by
  unfold notAfter
  split <;> omega

variable {now t : Int} {s : AlertState} {d : Dwell} {rs : List Reading} {w : Logged}
  {breached : Bool}

theorem notAfter_of_le (h : t ≤ now) : notAfter t now = t := by
  rw [notAfter, if_neg (by omega)]

/-- A state in which nothing is later than `now` and no phase lacks its timestamp. -/
structure Sane (s : AlertState) (now : Int) : Prop where
  known : ∀ n, s.phase ≠ .unknown n
  firstSeenAt : s.firstSeenAt ≤ now
  since : s.since ≤ now
  clearSince : s.clearSince ≤ now
  fires : ∀ t ∈ s.fires, t ≤ now
  seen : s.phase ≠ .ok → s.firstSeenAt ≠ 0
  told : s.phase.isFiring = true → s.since ≠ 0

theorem sane_zero (hnow : 0 < now) : Sane {} now :=
  ⟨by simp, hnow.le, hnow.le, hnow.le, by simp, by simp, by simp [AlertPhase.isFiring]⟩

theorem repair_sane (hnow : 0 < now) (s : AlertState) : Sane (s.repair now) now := by
  have hfires : ∀ t ∈ s.fires.map (notAfter · now), t ≤ now := by
    intro t ht
    obtain ⟨t₀, -, rfl⟩ := List.mem_map.mp ht
    exact notAfter_le t₀ now
  have hfirst := notAfter_le s.firstSeenAt now
  have hsince := notAfter_le s.since now
  have hclear := notAfter_le s.clearSince now
  unfold AlertState.repair
  split
  next => exact sane_zero hnow
  next phase hknown =>
    refine ⟨hknown, ?_, ?_, hclear, hfires, ?_, ?_⟩
    iterate 2
      simp only
      split <;> omega
    all_goals
      simp only
      intro hphase
      split
      next => omega
      next h => exact fun hzero => h ⟨hphase, hzero⟩

theorem Sane.rewind (h : Sane s now) : Sane (s.rewind now) now := by
  unfold AlertState.rewind
  split
  next => exact ⟨h.known, h.firstSeenAt, h.since, le_refl now, h.fires, h.seen, h.told⟩
  next => exact h

theorem rearm_sane (hnow : 0 < now) (s : AlertState) : Sane (s.rearm now) now :=
  (repair_sane hnow s).rewind

@[simp] theorem rewind_phase (s : AlertState) (now : Int) : (s.rewind now).phase = s.phase := by
  unfold AlertState.rewind
  split <;> rfl

/-- A resolving episode starts its clear window again. -/
theorem rearm_clearSince (h : (s.rearm now).phase = .resolving) :
    (s.rearm now).clearSince = now := by
  rw [AlertState.rearm, rewind_phase] at h
  rw [AlertState.rearm, AlertState.rewind, if_pos h]

theorem rearm_phase : (s.rearm now).phase = .resolving ↔ s.phase = .resolving := by
  rw [AlertState.rearm, rewind_phase, AlertState.repair]
  cases s.phase <;> simp

/-- A verdict at or before `now` keeps a sane state sane. -/
theorem Sane.move {s' : AlertState} {move : Transition} (h : Sane s now) (ht : 0 < t)
    (hle : t ≤ now) (hmove : Move s t d breached s' move) : Sane s' now := by
  have hzero : 0 ≤ now := by omega
  have hfires : ∀ t' ∈ recent t d.flapWindow s.fires ++ [t], t' ≤ now :=
    forall_mem_concat (fun t' ht' => h.fires t' (List.mem_of_mem_filter ht')) hle
  cases hmove with
  | breach hphase =>
    exact ⟨by simp, hle, h.since, h.clearSince, h.fires, fun _ => ht.ne', by
      simp [AlertPhase.isFiring]⟩
  | abandon hphase | resolve hphase _ =>
    exact ⟨by simp [AlertState.reset], hzero, hzero, hzero, h.fires, by simp [AlertState.reset],
      by simp [AlertState.reset, AlertPhase.isFiring]⟩
  | ignite hphase hdwell =>
    exact ⟨by simp [AlertState.fire], h.firstSeenAt, hle, h.clearSince, hfires,
      fun _ => h.seen (by simp [hphase]), fun _ => ht.ne'⟩
  | clear hphase =>
    exact ⟨by simp, h.firstSeenAt, h.since, hle, h.fires,
      fun _ => h.seen (by simp [hphase]), fun _ => h.told (by simp [hphase, AlertPhase.isFiring])⟩
  | recur hphase =>
    exact ⟨by simp [AlertState.fire], h.firstSeenAt, h.since, hzero, hfires,
      fun _ => h.seen (by simp [hphase]), fun _ => h.told (by simp [hphase, AlertPhase.isFiring])⟩
  | idle _ | dwell _ _ | hold _ | wait _ _ | stuck _ => exact h

/-- There is nothing to repair in a sane state. -/
theorem Sane.repair_eq (h : Sane s now) : s.repair now = s := by
  have hfires : s.fires.map (notAfter · now) = s.fires := by
    have hid : ∀ t ∈ s.fires, notAfter t now = id t := fun t ht => notAfter_of_le (h.fires t ht)
    rw [List.map_congr_left hid, List.map_id]
  unfold AlertState.repair
  split
  next n hphase => exact absurd hphase (h.known n)
  next =>
    have hseen : ¬(s.phase ≠ .ok ∧ s.firstSeenAt = 0) := fun hzero => h.seen hzero.1 hzero.2
    have htold : ¬(s.phase.isFiring = true ∧ s.since = 0) := fun hzero => h.told hzero.1 hzero.2
    simp only [notAfter_of_le h.firstSeenAt, notAfter_of_le h.since, notAfter_of_le h.clearSince,
      hfires, if_neg hseen, if_neg htold]

theorem Sane.rearm_eq (h : Sane s now) : s.rearm now = s.rewind now := by
  rw [AlertState.rearm, h.repair_eq]

/-- A state the machine can have left behind, fed at instants up to `now`. -/
inductive Written (now : Int) : AlertState → Prop where
  | zero : Written now {}
  | step {s : AlertState} {t : Int} (breached : Bool) (d : Dwell) (h : Written now s)
      (hpos : 0 < t) (hle : t ≤ now) : Written now (s.advance breached t d).1

theorem Written.sane (hnow : 0 < now) (h : Written now s) : Sane s now := by
  induction h with
  | zero => exact sane_zero hnow
  | step breached d _ hpos hle ih => exact ih.move hpos hle (AlertState.advance_move _ _ _ d)

/-! ## Progress -/

theorem Logged.step_state (d : Dwell) (w : Logged) (r : Reading) :
    Move w.state r.now d.normalize r.breached (w.step d r).state (w.next d r) :=
  w.state.advance_move r.breached r.now d

/-- The machine fed further readings, logged from here on. -/
def Logged.resume (d : Dwell) (s : AlertState) (rs : List Reading) : Logged :=
  rs.foldl (step d) { state := s }

theorem log_subset {e : LogEntry} (h : e ∈ w.log) : e ∈ (rs.foldl (Logged.step d) w).log := by
  induction rs generalizing w with
  | nil => exact h
  | cons r rs ih => exact ih (List.mem_append_left _ h)

theorem firing_stays (h : w.state.phase = .firing) (hbreached : ∀ r ∈ rs, r.breached = true) :
    (rs.foldl (Logged.step d) w).state.phase = .firing := by
  induction rs generalizing w with
  | nil => exact h
  | cons r rs ih =>
    have hmove := w.step_state d r
    rw [hbreached r List.mem_cons_self] at hmove
    have hnext : (w.step d r).state.phase = .firing := by
      generalize (w.step d r).state = s' at hmove ⊢
      generalize w.next d r = move at hmove
      cases hmove with
      | hold _ => exact h
      | ignite _ _ | recur _ => rfl
      | _ => simp_all
    exact ih hnext fun r' hr' => hbreached r' (List.mem_cons_of_mem r hr')

/-- An episode that is breached for the dwell from `now` on is firing. -/
theorem fires_of_breached (hknown : ∀ n, w.state.phase ≠ .unknown n) (hactive : w.state.phase ≠ .ok)
    (hseen : w.state.firstSeenAt ≤ now) (hbreached : ∀ r ∈ rs, r.breached = true)
    (hlong : ∃ r ∈ rs, now + d.normalize.for_.1 ≤ r.now) :
    (rs.foldl (Logged.step d) w).state.phase = .firing := by
  induction rs generalizing w with
  | nil =>
    obtain ⟨r, hr, -⟩ := hlong
    cases hr
  | cons r rs ih =>
    have hmove := w.step_state d r
    rw [hbreached r List.mem_cons_self] at hmove
    have hrest : ∀ r' ∈ rs, r'.breached = true :=
      fun r' hr' => hbreached r' (List.mem_cons_of_mem r hr')
    rw [List.foldl_cons]
    generalize w.step d r = w' at hmove ⊢
    generalize hs' : w'.state = s' at hmove
    generalize w.next d r = move at hmove
    cases hmove with
    | breach hphase => exact absurd hphase hactive
    | ignite _ _ | recur _ => exact firing_stays (by rw [hs']; rfl) hrest
    | hold hphase => exact firing_stays (by rw [hs', hphase]) hrest
    | stuck hphase => exact absurd hphase (hknown _)
    | dwell hphase hshort =>
      -- The reading that is late enough is still to come.
      obtain ⟨r', hr', hlate⟩ := hlong
      rcases List.mem_cons.mp hr' with rfl | hmem
      · have hdwell : since r'.now w.state.firstSeenAt ≥ d.normalize.for_.1 :=
          since_ge_of_sub_ge (by omega)
        omega
      · exact ih (hs' ▸ hknown) (hs' ▸ hactive) (hs' ▸ hseen) hrest ⟨r', hmem, hlate⟩

/-- An episode that stays clear for the resolve dwell is resolved. -/
theorem resolves_of_clear (hphase : w.state.phase = .resolving)
    (hclear : ∀ r ∈ rs, r.breached = false)
    (hlong : ∃ r ∈ rs, w.state.clearSince + d.normalize.resolve.1 ≤ r.now) :
    ∃ e ∈ (rs.foldl (Logged.step d) w).log, e.move = .resolved := by
  induction rs generalizing w with
  | nil =>
    obtain ⟨r, hr, -⟩ := hlong
    cases hr
  | cons r rs ih =>
    have hmove := w.step_state d r
    rw [hclear r List.mem_cons_self] at hmove
    have hlogged : { toReading := r, move := w.next d r } ∈ (w.step d r).log :=
      List.mem_append_right _ (List.mem_singleton_self _)
    rw [List.foldl_cons]
    generalize w.step d r = w' at hmove hlogged ⊢
    generalize hs' : w'.state = s' at hmove
    generalize hmv : w.next d r = move at hmove hlogged
    cases hmove with
    | resolve _ _ => exact ⟨_, log_subset hlogged, rfl⟩
    | wait _ hshort =>
      obtain ⟨r', hr', hlate⟩ := hlong
      rcases List.mem_cons.mp hr' with rfl | hmem
      · have hdwell : since r'.now w.state.clearSince ≥ d.normalize.resolve.1 :=
          since_ge_of_sub_ge (by omega)
        omega
      · exact ih (hs' ▸ hphase) (fun r'' hr'' => hclear r'' (List.mem_cons_of_mem r hr''))
          ⟨r', hmem, hs' ▸ hlate⟩
    | _ => simp_all

/-! ## Reconciling -/

/-- What a restart owes every record it meets. -/
structure Sound (rec : AlertRecord) (breached : Bool) (now : Int) (d : Dwell) : Prop where
  /-- No finding is closed on the first verdict. -/
  unresolved : (reconcile rec breached now d).2 ≠ .resolved
  /-- No timestamp is in the future, and no phase lacks one. -/
  sane : Sane (reconcile rec breached now d).1.state now
  /-- Breaches for the dwell from here on leave the episode firing. -/
  fires : (reconcile rec breached now d).1.state.phase ≠ .ok → ∀ rs : List Reading,
    (∀ r ∈ rs, r.breached = true) → (∃ r ∈ rs, now + d.normalize.for_.1 ≤ r.now) →
    (Logged.resume d (reconcile rec breached now d).1.state rs).state.phase = .firing
  /-- An episode found clear is resolved once it stays so for the resolve dwell. -/
  resolves : (reconcile rec breached now d).1.state.phase = .resolving → ∀ rs : List Reading,
    (∀ r ∈ rs, r.breached = false) → (∃ r ∈ rs, now + d.normalize.resolve.1 ≤ r.now) →
    ∃ e ∈ (Logged.resume d (reconcile rec breached now d).1.state rs).log, e.move = .resolved
  /-- One found firing is resolved that long after its first clear reading. -/
  drops : (reconcile rec breached now d).1.state.phase = .firing →
    ∀ (first : Reading) (rs : List Reading), first.breached = false →
    (∀ r ∈ rs, r.breached = false) → (∃ r ∈ rs, first.now + d.normalize.resolve.1 ≤ r.now) →
    ∃ e ∈ (Logged.resume d (reconcile rec breached now d).1.state (first :: rs)).log,
      e.move = .resolved
  /-- A record the machine left behind before `now` is advanced as if nothing happened. -/
  agrees : Written now rec.state → rec.state.phase ≠ .resolving →
    reconcile rec breached now d =
      ({ rec with state := (rec.state.advance breached now d).1 },
        (rec.state.advance breached now d).2)

theorem reconcile_move (rec : AlertRecord) (breached : Bool) (now : Int) (d : Dwell) :
    Move (rec.state.rearm now) now d.normalize breached (reconcile rec breached now d).1.state
      (reconcile rec breached now d).2 :=
  (rec.state.rearm now).advance_move breached now d

/-- A resolving episode left by the first verdict has its window starting now. -/
theorem reconcile_clearSince {rec : AlertRecord}
    (h : (reconcile rec breached now d).1.state.phase = .resolving) :
    (reconcile rec breached now d).1.state.clearSince = now := by
  have hmove := reconcile_move rec breached now d
  generalize (reconcile rec breached now d).1.state = s' at hmove h ⊢
  generalize (reconcile rec breached now d).2 = move at hmove
  cases hmove with
  | clear _ => rfl
  | wait hphase _ => exact rearm_clearSince hphase
  | _ => simp_all [AlertState.reset, AlertState.fire]

theorem drops_of_firing {first : Reading} (hphase : s.phase = .firing)
    (hfirst : first.breached = false) (hclear : ∀ r ∈ rs, r.breached = false)
    (hlong : ∃ r ∈ rs, first.now + d.normalize.resolve.1 ≤ r.now) :
    ∃ e ∈ (Logged.resume d s (first :: rs)).log, e.move = .resolved := by
  have hmove := Logged.step_state d { state := s } first
  rw [hfirst] at hmove
  rw [Logged.resume, List.foldl_cons]
  generalize Logged.step d { state := s } first = w at hmove ⊢
  generalize hw : w.state = s' at hmove
  generalize Logged.next d { state := s } first = move at hmove
  cases hmove with
  | clear _ => exact resolves_of_clear (by rw [hw]) hclear (by rw [hw]; exact hlong)
  | _ => simp_all

/-- A restart never closes a finding and never wedges an episode, unless the resolve dwell
    is not positive and a resolving record meets a clear verdict. -/
theorem reconcile_sound_iff {rec : AlertRecord} {breached : Bool} {now : Int} {d : Dwell}
    (hnow : 0 < now) : Sound rec breached now d ↔
      ¬(rec.state.phase = .resolving ∧ breached = false ∧ d.normalize.resolve.1 ≤ 0) := by
  have hsane := (rearm_sane hnow rec.state).move hnow le_rfl (reconcile_move rec breached now d)
  constructor
  · rintro hsound ⟨hphase, rfl, hdwell⟩
    have hres : (rec.state.rearm now).phase = .resolving := rearm_phase.mpr hphase
    apply hsound.unresolved
    rw [reconcile, AlertState.advance.eq_def, hres, rearm_clearSince hres, since_self]
    simp [hdwell]
  · intro hcond
    refine ⟨?_, hsane, ?_, ?_, ?_, ?_⟩
    · intro hresolved
      obtain ⟨hphase, hclear, hdwell⟩ := (reconcile_move rec breached now d).of_resolve hresolved
      rw [rearm_clearSince hphase, since_self] at hdwell
      exact hcond ⟨rearm_phase.mp hphase, hclear, hdwell⟩
    · intro hactive rs hbreached hlong
      exact fires_of_breached hsane.known hactive hsane.firstSeenAt hbreached hlong
    · intro hphase rs hclear hlong
      exact resolves_of_clear hphase hclear (by rwa [reconcile_clearSince hphase])
    · intro hphase first rs hfirst hclear hlong
      exact drops_of_firing hphase hfirst hclear hlong
    · intro hwritten hphase
      rw [reconcile, (hwritten.sane hnow).rearm_eq, AlertState.rewind, if_neg hphase]

namespace RestartSample

/-- A finding that went clear an hour before the restart. -/
def record : AlertRecord :=
  { cluster := bytes "c", subjectKey := bytes "Deployment/shop/web"
    topologyKey := bytes "topology.kubernetes.io/zone"
    state := { phase := .resolving, firstSeenAt := hour, since := 2 * hour, clearSince := 3 * hour
               fires := [2 * hour] }
    updatedAt := 3 * hour }

end RestartSample

open RestartSample in
theorem resolving_record_waits_again : Sound record false (4 * hour) defaultDwell :=
  (reconcile_sound_iff (by decide)).mpr (by decide)

open RestartSample in
/-- With a dwell of a million hours and no resolve dwell, three times the dwell wraps
    around to a negative number, and the finding is closed on the first verdict. -/
theorem long_dwell_resolves_at_once :
    (reconcile record false (4 * hour) { for_ := .wrap (1000000 * hour) }).2 = .resolved := by
  decide +kernel

end Lookout.Leeway
