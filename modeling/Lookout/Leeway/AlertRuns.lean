-- SUMMARY: The alert machine of one subject on one axis, and its runs against the whole history of verdicts and moves.
import Lookout.Engine.Signal
import Lookout.Lib.Run

/-!
# The alert machine

A verdict says whether a subject is over threshold right now. The machine turns a sequence
of verdicts into episodes. A breach has to hold for a dwell before it becomes a finding,
and a finding has to stay clear for a longer one before it resolves. The instants at
which a subject fired are kept past the end of an episode, to tell a subject that flaps.

The laws of the machine speak about whole histories. It is run here beside a log of every
verdict and every move, and an invariant says what its fields know about the log.
-/

namespace Lookout.Leeway

open Lookout.Engine

variable {now t : Int}

/-! ## Durations -/

/-- A `time.Duration`: nanoseconds that fit an int64. -/
abbrev Duration := { d : Int // minDuration ≤ d ∧ d ≤ maxDuration }

/-- The duration that 64-bit arithmetic makes of a number of nanoseconds. -/
def Duration.wrap (d : Int) : Duration :=
  ⟨wrap64 d, by unfold wrap64 minDuration maxDuration; omega⟩

/-- Since a duration is at most the largest one, saturation does not hide that it elapsed. -/
theorem since_ge_of_sub_ge {u : Int} {d : Duration} (h : d.1 ≤ t - u) : since t u ≥ d.1 := by
  unfold since
  omega

/-! ## Phases, transitions, timing -/

/-- Where an episode is. `unknown` is a phase number this build has no rule for. -/
inductive AlertPhase where
  | ok
  | pending
  | firing
  | resolving
  | unknown (n : Nat)
  deriving DecidableEq, Repr

/-- `Firing()`: a finding for the subject is outstanding. -/
def AlertPhase.isFiring : AlertPhase → Bool
  | .firing | .resolving => true
  | _ => false

/-- What one verdict did. -/
inductive Transition where
  | none
  | pending
  | firing
  | clearing
  | resolved
  | abandoned
  deriving DecidableEq, Repr

/-- The timing of the machine. Zero and below mean unset. -/
structure Dwell where
  for_ : Duration := .wrap 0
  resolve : Duration := .wrap 0
  flapCount : Int := 0
  flapWindow : Duration := .wrap 0
  deriving DecidableEq

def defaultDwell : Dwell :=
  { for_ := .wrap (10 * minute)
    resolve := .wrap (30 * minute)
    flapCount := 3
    flapWindow := .wrap hour }

def Dwell.normalize (d : Dwell) : Dwell :=
  let for_ := if d.for_.1 ≤ 0 then defaultDwell.for_ else d.for_
  { for_ := for_
    -- The product wraps around for a dwell of more than 97 years.
    resolve := if d.resolve.1 ≤ 0 then .wrap (3 * for_.1) else d.resolve
    flapCount := if d.flapCount ≤ 0 then defaultDwell.flapCount else d.flapCount
    flapWindow := if d.flapWindow.1 ≤ 0 then defaultDwell.flapWindow else d.flapWindow }

theorem Dwell.normalize_for_pos (d : Dwell) : 0 < d.normalize.for_.1 := by
  simp only [normalize]
  split
  next => decide
  next h => omega

/-! ## The state and its step -/

/-- The position of one subject on one axis. Zero timestamps are unset. -/
structure AlertState where
  phase : AlertPhase := .ok
  /-- When the breach of the current episode was first seen. -/
  firstSeenAt : Int := 0
  /-- When the episode fired. A recurrence does not move it. -/
  since : Int := 0
  /-- When the subject last dropped under threshold. -/
  clearSince : Int := 0
  /-- When the subject entered the firing phase, newest last. -/
  fires : List Int := []
  deriving DecidableEq, Repr

variable {d : Dwell} {s : AlertState}

/-- The instants inside the flap window that ends at `now`. -/
def recent (now : Int) (window : Duration) (fires : List Int) : List Int :=
  fires.filter (now - window.1 < ·)

namespace AlertState

/-- Back to the first phase. The fire history survives. -/
def reset (s : AlertState) : AlertState := { fires := s.fires }

/-- An entry into the firing phase, with the history pruned to the window. -/
def fire (s : AlertState) (now : Int) (d : Dwell) : AlertState :=
  { s with phase := .firing, fires := recent now d.flapWindow s.fires ++ [now] }

/-- One verdict fed to the machine. -/
def advance (s : AlertState) (breached : Bool) (now : Int) (dwell : Dwell) :
    AlertState × Transition :=
  let d := dwell.normalize
  match s.phase with
  | .ok =>
    if !breached then (s, .none)
    else ({ s with phase := .pending, firstSeenAt := now }, .pending)
  | .pending =>
    if !breached then (s.reset, .abandoned)
    else if Engine.since now s.firstSeenAt ≥ d.for_.1 then
      ({ s.fire now d with since := now }, .firing)
    else (s, .none)
  | .firing =>
    if breached then (s, .none)
    else ({ s with phase := .resolving, clearSince := now }, .clearing)
  | .resolving =>
    -- A recurrence serves no second dwell and keeps the time the episode fired.
    if breached then ({ s.fire now d with clearSince := 0 }, .firing)
    else if Engine.since now s.clearSince ≥ d.resolve.1 then (s.reset, .resolved)
    else (s, .none)
  | .unknown _ => (s, .none)

/-- The firings inside the window, less the one that started the sequence. -/
def recurrences (s : AlertState) (now : Int) (d : Dwell) : Int :=
  let n := (recent now d.normalize.flapWindow s.fires).length
  if n = 0 then 0 else n - 1

def flapping (s : AlertState) (now : Int) (d : Dwell) : Bool :=
  s.recurrences now d > d.normalize.flapCount

/-- The doublings of `DeliveryBackoff`, capped at the window. -/
def doubled (window : Duration) : Nat → Duration → Duration
  | 0, backoff => backoff
  | n + 1, backoff =>
    let next := Duration.wrap (2 * backoff.1)
    if next.1 ≥ window.1 then window else doubled window n next

/-- How long a consumer waits before it delivers the finding again. -/
def deliveryBackoff (s : AlertState) (now : Int) (dwell : Dwell) : Duration :=
  let d := dwell.normalize
  let excess := s.recurrences now d - d.flapCount
  if excess ≤ 0 then .wrap 0 else doubled d.flapWindow (excess - 1).toNat d.for_

end AlertState

/-! ## What a verdict can do -/

/-- Everything one verdict can do to the machine, for a normalised timing. -/
inductive Move (s : AlertState) (now : Int) (d : Dwell) :
    Bool → AlertState → Transition → Prop where
  | idle (hphase : s.phase = .ok) : Move s now d false s .none
  | breach (hphase : s.phase = .ok) :
      Move s now d true { s with phase := .pending, firstSeenAt := now } .pending
  | abandon (hphase : s.phase = .pending) : Move s now d false s.reset .abandoned
  | ignite (hphase : s.phase = .pending) (hdwell : since now s.firstSeenAt ≥ d.for_.1) :
      Move s now d true { s.fire now d with since := now } .firing
  | dwell (hphase : s.phase = .pending) (hdwell : since now s.firstSeenAt < d.for_.1) :
      Move s now d true s .none
  | hold (hphase : s.phase = .firing) : Move s now d true s .none
  | clear (hphase : s.phase = .firing) :
      Move s now d false { s with phase := .resolving, clearSince := now } .clearing
  | recur (hphase : s.phase = .resolving) :
      Move s now d true { s.fire now d with clearSince := 0 } .firing
  | resolve (hphase : s.phase = .resolving) (hdwell : since now s.clearSince ≥ d.resolve.1) :
      Move s now d false s.reset .resolved
  | wait (hphase : s.phase = .resolving) (hdwell : since now s.clearSince < d.resolve.1) :
      Move s now d false s .none
  | stuck {n : Nat} {breached : Bool} (hphase : s.phase = .unknown n) :
      Move s now d breached s .none

theorem AlertState.advance_move (s : AlertState) (breached : Bool) (now : Int) (d : Dwell) :
    Move s now d.normalize breached (s.advance breached now d).1 (s.advance breached now d).2 := by
  rw [advance.eq_def]
  cases hphase : s.phase with
  | ok =>
    cases breached
    · exact .idle hphase
    · exact .breach hphase
  | pending =>
    cases breached
    · exact .abandon hphase
    · simp only [Bool.not_true, Bool.false_eq_true, if_false]
      split
      next hdwell => exact .ignite hphase hdwell
      next hdwell => exact .dwell hphase (not_le.mp hdwell)
  | firing =>
    cases breached
    · exact .clear hphase
    · exact .hold hphase
  | resolving =>
    cases breached
    · simp only [Bool.false_eq_true, if_false]
      split
      next hdwell => exact .resolve hphase hdwell
      next hdwell => exact .wait hphase (not_le.mp hdwell)
    · exact .recur hphase
  | unknown n => exact .stuck hphase

namespace Move

variable {s' : AlertState} {breached : Bool} {move : Transition}

section

variable (h : Move s now d breached s' move)

include h

theorem of_ignite (hphase : s.phase = .pending) (hfiring : move = .firing) :
    breached = true ∧ since now s.firstSeenAt ≥ d.for_.1 := by
  cases h with
  | ignite _ hdwell => exact ⟨rfl, hdwell⟩
  | recur hresolving => simp [hphase] at hresolving
  | _ => cases hfiring

theorem of_resolve (hresolved : move = .resolved) :
    s.phase = .resolving ∧ breached = false ∧ since now s.clearSince ≥ d.resolve.1 := by
  cases h with
  | resolve hphase hdwell => exact ⟨hphase, rfl, hdwell⟩
  | _ => cases hresolved

theorem of_pending (hpending : move = .pending) : s.phase = .ok := by
  cases h with
  | breach hphase => exact hphase
  | _ => cases hpending

theorem of_none (hnone : move = .none) : s' = s := by
  cases h with
  | idle _ | dwell _ _ | hold _ | wait _ _ | stuck _ => rfl
  | _ => cases hnone

/-- An episode that ends leaves nothing but its history. -/
theorem of_rest (hactive : s.phase ≠ .ok) (hrest : s'.phase = .ok) : s' = s.reset := by
  cases h with
  | abandon _ | resolve _ _ => rfl
  | _ => simp_all [AlertState.fire]

/-- Only a firing changes the history. -/
theorem fires :
    s'.fires = if move = .firing then recent now d.flapWindow s.fires ++ [now] else s.fires := by
  cases h <;> rfl

end

end Move

/-! ## Delivery backoff -/

theorem Dwell.normalize_flap_pos (d : Dwell) :
    0 < d.normalize.flapCount ∧ 0 < d.normalize.flapWindow.1 := by
  simp only [normalize]
  constructor
  · split
    next => decide
    next h => omega
  · split
    next => decide
    next h => omega

namespace AlertState

variable {window start : Duration}

/-- Every doubling that the loop takes fits an int64. -/
def Fits (window start : Int) : Prop :=
  ∀ i : Nat, i = 0 ∨ start * 2 ^ i < window → start * 2 ^ i < 2 ^ 62

theorem wrap_double (hpos : 0 < start.1) (hlt : start.1 < 2 ^ 62) :
    (Duration.wrap (2 * start.1)).1 = 2 * start.1 := by
  change wrap64 _ = _
  unfold wrap64
  omega

theorem mul_two_pow_succ (b : Int) (i : Nat) : b * 2 ^ (i + 1) = 2 * b * 2 ^ i := by
  rw [pow_succ', mul_left_comm, mul_assoc]

/-- Doublings that fit go up, as far as the window. -/
theorem Fits.doubled (h : Fits window.1 start.1) (hpos : 0 < start.1) (hle : start.1 ≤ window.1)
    (n : Nat) : 0 < (doubled window n start).1 ∧ (doubled window n start).1 ≤ window.1 ∧
      (doubled window n start).1 ≤ (doubled window (n + 1) start).1 := by
  induction n generalizing start with
  | zero =>
    have hnext := wrap_double hpos (by simpa using h 0 (Or.inl rfl))
    refine ⟨hpos, hle, ?_⟩
    simp only [AlertState.doubled]
    split <;> omega
  | succ n ih =>
    have hnext := wrap_double hpos (by simpa using h 0 (Or.inl rfl))
    rw [AlertState.doubled, AlertState.doubled.eq_def window (n + 2)]
    dsimp only
    split
    · omega
    · next hbelow =>
      refine ih (fun i hi => ?_) (by omega) (by omega)
      rw [hnext, ← mul_two_pow_succ] at hi ⊢
      refine h (i + 1) (Or.inr (hi.elim ?_ id))
      rintro rfl
      omega

/-- A backoff that doubling does not lower leaves room for the doubling. -/
theorem lt_of_doubled (hle : start.1 ≤ window.1)
    (h : (doubled window 0 start).1 ≤ (doubled window 1 start).1) : start.1 < 2 ^ 62 := by
  by_contra hbig
  have hmax := start.2.2
  -- The first doubling turns negative.
  have hneg : (Duration.wrap (2 * start.1)).1 < 0 := by
    change wrap64 _ < 0
    unfold wrap64
    unfold maxDuration at hmax
    omega
  simp only [doubled] at h
  split at h <;> omega

/-- Where the backoff never goes down, every doubling fits. -/
theorem fits_of_mono (hpos : 0 < start.1) (hle : start.1 ≤ window.1)
    (hmono : ∀ n, (doubled window n start).1 ≤ (doubled window (n + 1) start).1) :
    Fits window.1 start.1 := by
  intro i hi
  have hlt := lt_of_doubled hle (hmono 0)
  induction i generalizing start with
  | zero => rwa [pow_zero, mul_one]
  | succ i ih =>
    have hnext := wrap_double hpos hlt
    have hbelow : start.1 * 2 ^ (i + 1) < window.1 := hi.resolve_left (Nat.succ_ne_zero i)
    rw [mul_two_pow_succ] at hbelow ⊢
    have hone : (1 : Int) ≤ 2 ^ i := Int.pow_pos (by decide)
    have hcap : 2 * start.1 < window.1 := by
      have hle' := Int.mul_le_mul_of_nonneg_left hone (by omega : 0 ≤ 2 * start.1)
      omega
    have hstep (n : Nat) :
        doubled window (n + 1) start = doubled window n (Duration.wrap (2 * start.1)) := by
      rw [doubled, if_neg (by omega)]
    have hmono' (n : Nat) : (doubled window n (Duration.wrap (2 * start.1))).1 ≤
        (doubled window (n + 1) (Duration.wrap (2 * start.1))).1 := by
      rw [← hstep, ← hstep]
      exact hmono (n + 1)
    rw [← hnext] at hbelow hcap ⊢
    have hpos' : 0 < (Duration.wrap (2 * start.1)).1 := by omega
    exact ih hpos' hcap.le hmono' (Or.inr hbelow) (lt_of_doubled hcap.le (hmono' 0))

theorem deliveryBackoff_eq : s.deliveryBackoff now d =
    if s.recurrences now d ≤ d.normalize.flapCount then .wrap 0
    else doubled d.normalize.flapWindow (s.recurrences now d - d.normalize.flapCount - 1).toNat
      d.normalize.for_ := by
  have hidem : d.normalize.normalize.flapWindow = d.normalize.flapWindow :=
    if_neg (not_le.2 d.normalize_flap_pos.2)
  have hsame : s.recurrences now d.normalize = s.recurrences now d := by
    rw [recurrences, hidem, recurrences]
  simp only [deliveryBackoff, hsame, sub_nonpos]

theorem deliveryBackoff_of_excess {n : Nat}
    (h : s.recurrences now d = d.normalize.flapCount + 1 + n) :
    s.deliveryBackoff now d = doubled d.normalize.flapWindow n d.normalize.for_ := by
  have hn : (s.recurrences now d - d.normalize.flapCount - 1).toNat = n := by omega
  rw [deliveryBackoff_eq, if_neg (by omega), hn]

/-- One more firing inside the window is one more recurrence, unless it is the first. -/
theorem recurrences_insert {before after : List Int} (hs : s.fires = before ++ after)
    (ht : now - d.normalize.flapWindow.1 < t) :
    recurrences { s with fires := before ++ t :: after } now d = s.recurrences now d + 1 ∨
      recurrences { s with fires := before ++ t :: after } now d = 0 ∧ s.recurrences now d = 0 := by
  simp only [recurrences, recent, hs, List.filter_append, List.filter_cons, ht, decide_true, if_true,
    List.length_append, List.length_cons]
  split <;> omega

end AlertState

/-- What a consumer relies on: no wait unless the subject flaps, never more than the
    window, and no shorter after one more firing inside the window. -/
structure SoundBackoff (d : Dwell) (s : AlertState) (now : Int) : Prop where
  zero : (s.deliveryBackoff now d).1 = 0 ↔ s.flapping now d = false
  le : (s.deliveryBackoff now d).1 ≤ d.normalize.flapWindow.1
  mono : ∀ before after t, s.fires = before ++ after → now - d.normalize.flapWindow.1 < t →
    (s.deliveryBackoff now d).1 ≤
      (AlertState.deliveryBackoff { s with fires := before ++ t :: after } now d).1

/-- The backoff is what it should be just if the dwell is not longer than the window and
    the doublings on the way to the window fit an int64. -/
theorem delivery_backoff_sound_iff (d : Dwell) : (∀ s now, SoundBackoff d s now) ↔
    d.normalize.for_.1 ≤ d.normalize.flapWindow.1 ∧
      AlertState.Fits d.normalize.flapWindow.1 d.normalize.for_.1 := by
  have hfor := d.normalize_for_pos
  obtain ⟨hcount, hwindow⟩ := d.normalize_flap_pos
  constructor
  · intro h
    have hin : (0 : Int) - d.normalize.flapWindow.1 < 0 := by omega
    -- A subject that fired at one instant, `n` times more than the allowance.
    have hat (n : Nat) : ∃ fires : List Int,
        AlertState.recurrences { fires := fires } 0 d = d.normalize.flapCount + 1 + n := by
      refine ⟨List.replicate (d.normalize.flapCount.toNat + 2 + n) 0, ?_⟩
      simp only [AlertState.recurrences, recent, List.filter_replicate, hin, decide_true, if_true,
        List.length_replicate]
      split <;> omega
    have hle : d.normalize.for_.1 ≤ d.normalize.flapWindow.1 := by
      obtain ⟨fires, hfires⟩ := hat 0
      have hbound := (h { fires := fires } 0).le
      rwa [AlertState.deliveryBackoff_of_excess hfires] at hbound
    refine ⟨hle, AlertState.fits_of_mono hfor hle fun n => ?_⟩
    obtain ⟨fires, hfires⟩ := hat n
    have hmono := (h { fires := fires } 0).mono [] fires 0 rfl hin
    rcases AlertState.recurrences_insert (s := { fires }) (List.nil_append fires).symm hin with
      hnext | ⟨-, hzero⟩
    · rw [hfires, add_assoc] at hnext
      rwa [AlertState.deliveryBackoff_of_excess hfires,
        AlertState.deliveryBackoff_of_excess hnext] at hmono
    · omega
  · rintro ⟨hle, hfits⟩ s now
    have hd := hfits.doubled hfor hle
    have hnonneg (s : AlertState) : 0 ≤ (s.deliveryBackoff now d).1 := by
      rw [AlertState.deliveryBackoff_eq]
      split
      · decide
      · exact (hd _).1.le
    by_cases hcalm : s.recurrences now d ≤ d.normalize.flapCount
    · have hzero : s.deliveryBackoff now d = .wrap 0 := by
        rw [AlertState.deliveryBackoff_eq, if_pos hcalm]
      refine ⟨iff_of_true ?_ ?_, ?_, fun before after t hs ht => ?_⟩
      · rw [hzero]
        decide
      · exact decide_eq_false (not_lt.2 hcalm)
      · rw [hzero]
        exact hwindow.le
      · rw [hzero]
        exact hnonneg _
    · obtain ⟨n, hn⟩ : ∃ n : Nat, s.recurrences now d = d.normalize.flapCount + 1 + n :=
        ⟨(s.recurrences now d - d.normalize.flapCount - 1).toNat, by omega⟩
      obtain ⟨hpos, hcap, hup⟩ := hd n
      rw [← AlertState.deliveryBackoff_of_excess hn] at hpos hcap hup
      refine ⟨iff_of_false hpos.ne' ?_, hcap, fun before after t hs ht => ?_⟩
      · rw [Bool.not_eq_false]
        exact decide_eq_true (not_le.1 hcalm)
      · rcases AlertState.recurrences_insert hs ht with hnext | ⟨-, hzero⟩
        · rw [hn, add_assoc] at hnext
          rw [AlertState.deliveryBackoff_of_excess hnext]
          exact hup
        · omega

/-- A dwell of two hours and the default window of one: after five firings, a minute apart,
    the backoff is the dwell. -/
theorem deliveryBackoff_exceeds_window : ¬ SoundBackoff { for_ := .wrap (2 * hour) }
    { fires := [1, 2, 3, 4, 5].map (· * minute) } (5 * minute) := by
  intro h
  exact absurd h.le (by decide +kernel)

open AlertState (fire)

/-! ## The machine beside its log -/

/-- What the machine is fed. -/
structure Reading where
  breached : Bool
  now : Int
  deriving DecidableEq, Repr

/-- A reading with the move it caused. -/
structure LogEntry extends Reading where
  move : Transition
  deriving DecidableEq, Repr

/-- The move ends an episode. -/
def LogEntry.ends (e : LogEntry) : Prop := e.move = .resolved ∨ e.move = .abandoned

/-- The machine with everything it was fed and did, newest last. -/
structure Logged where
  state : AlertState := {}
  log : List LogEntry := []
  deriving DecidableEq

def Logged.step (d : Dwell) (w : Logged) (r : Reading) : Logged :=
  let (state, move) := w.state.advance r.breached r.now d
  { state, log := w.log ++ [{ toReading := r, move }] }

/-- The machine run from the zero state. -/
def Logged.run (d : Dwell) (rs : List Reading) : Logged := rs.foldl (step d) {}

/-- The instants at which the log fires. -/
def firings (log : List LogEntry) : List Int :=
  (log.filter (·.move = .firing)).map (·.now)

theorem firings_append (log : List LogEntry) (e : LogEntry) :
    firings (log ++ [e]) = firings log ++ if e.move = .firing then [e.now] else [] := by
  unfold firings
  by_cases h : e.move = .firing <;> simp [h]

/-! ## Episodes in a log -/

/-- Every episode of the log has ended. -/
def Closed (log : List LogEntry) : Prop :=
  ∀ before opener rest, log = before ++ opener :: rest → opener.move = .pending →
    ∃ e ∈ rest, e.ends

/-- The log ends inside the episode that `opener` began. -/
structure Opened (log : List LogEntry) (opener : LogEntry) (rest : List LogEntry) : Prop where
  split : ∃ before, log = before ++ opener :: rest
  begins : opener.move = .pending
  inside : ∀ e ∈ rest, e.move ≠ .pending ∧ ¬e.ends

variable {log : List LogEntry} {e : LogEntry} {d : Dwell} {w : Logged}

theorem Closed.quiet (hclosed : Closed log) (hquiet : e.move ≠ .pending) : Closed (log ++ [e]) := by
  intro before opener rest hsplit hbegins
  rcases Run.append_singleton_split hsplit with ⟨-, rfl, -⟩ | ⟨rest, rfl, hlog⟩
  · exact absurd hbegins hquiet
  · obtain ⟨e₀, hmem, hends⟩ := hclosed before opener rest hlog hbegins
    exact ⟨e₀, List.mem_append_left _ hmem, hends⟩

theorem closed_of_ends (hends : e.ends) : Closed (log ++ [e]) := by
  intro before opener rest hsplit hbegins
  rcases Run.append_singleton_split hsplit with ⟨-, rfl, -⟩ | ⟨rest, rfl, -⟩
  · rcases hends with h | h <;> rw [h] at hbegins <;> cases hbegins
  · exact ⟨e, by simp, hends⟩

theorem forall_mem_concat {α : Type} {P : α → Prop} {l : List α} {a : α} (hl : ∀ x ∈ l, P x)
    (ha : P a) : ∀ x ∈ l ++ [a], P x :=
  List.forall_mem_append.2 ⟨hl, List.forall_mem_singleton.2 ha⟩

variable {rest : List LogEntry} {opener : LogEntry} {s' : AlertState}

theorem Opened.continue (h : Opened log opener rest) (hbegins : e.move ≠ .pending) (hends : ¬e.ends) :
    Opened (log ++ [e]) opener (rest ++ [e]) := by
  obtain ⟨before, rfl⟩ := h.split
  exact ⟨⟨before, by simp⟩, h.begins, forall_mem_concat h.inside ⟨hbegins, hends⟩⟩

/-! ## What the fields know about the log -/

/-- The first firing of an episode was at `since`. -/
def FiredAt (since : Int) (rest : List LogEntry) : Prop :=
  ∃ quiet igniter tail, rest = quiet ++ igniter :: tail ∧ igniter.move = .firing ∧
    igniter.now = since ∧ ∀ e ∈ quiet, e.move ≠ .firing

theorem FiredAt.continue {since : Int} (h : FiredAt since rest) (e : LogEntry) :
    FiredAt since (rest ++ [e]) := by
  obtain ⟨quiet, igniter, tail, rfl, hrest⟩ := h
  exact ⟨quiet, igniter, tail ++ [e], by simp, hrest⟩

/-- An episode as the fields record it, by the phase the machine is in. -/
structure Recorded (s : AlertState) (opener : LogEntry) (rest : List LogEntry) : Prop where
  firstSeen : opener.now = s.firstSeenAt
  held : s.phase = .pending → ∀ e ∈ opener :: rest, e.breached = true
  unfired : s.phase = .pending → ∀ e ∈ rest, e.move ≠ .firing
  fired : s.phase.isFiring = true → FiredAt s.since rest

/-- The readings since the subject last dropped under threshold are all clear. -/
def ClearedAt (clearSince : Int) (log : List LogEntry) : Prop :=
  ∃ before clearer rest, log = before ++ clearer :: rest ∧ clearer.move = .clearing ∧
    clearer.now = clearSince ∧ ∀ e ∈ clearer :: rest, e.breached = false

theorem ClearedAt.continue {clearSince : Int} (h : ClearedAt clearSince log)
    (hclear : e.breached = false) : ClearedAt clearSince (log ++ [e]) := by
  obtain ⟨before, clearer, rest, rfl, hmove, hnow, hrest⟩ := h
  refine ⟨before, clearer, rest ++ [e], by simp, hmove, hnow, ?_⟩
  exact forall_mem_concat hrest hclear

/-- The machine's fields say what happened. -/
structure Faithful (d : Dwell) (w : Logged) : Prop where
  known : ∀ n, w.state.phase ≠ .unknown n
  idle : w.state.phase = .ok → Closed w.log
  active : w.state.phase ≠ .ok →
    ∃ opener rest, Opened w.log opener rest ∧ Recorded w.state opener rest
  cleared : w.state.phase = .resolving → ClearedAt w.state.clearSince w.log
  window : ∀ now, (∀ e ∈ w.log, e.now ≤ now) →
    recent now d.normalize.flapWindow w.state.fires =
      recent now d.normalize.flapWindow (firings w.log)

theorem faithful_start (d : Dwell) : Faithful d {} where
  known n h := by cases h
  idle _ before opener rest hsplit _ := by simp at hsplit
  active h := absurd rfl h
  cleared h := by cases h
  window _ _ := rfl

/-- Pruning to a window at one instant loses nothing that a later window still counts. -/
theorem recent_recent {now later : Int} (window : Duration) (hlater : now ≤ later)
    (fires : List Int) : recent later window (recent now window fires) =
      recent later window fires := by
  unfold recent
  rw [List.filter_filter]
  apply List.filter_congr
  intro t _
  have himp : later - window.1 < t → now - window.1 < t := by omega
  simpa using himp

theorem recent_append (now : Int) (window : Duration) (fires fires' : List Int) :
    recent now window (fires ++ fires') = recent now window fires ++ recent now window fires' :=
  List.filter_append _ _

theorem Move.window {r : Reading} {move : Transition}
    (hmove : Move w.state r.now d.normalize r.breached s' move)
    (h : ∀ now, (∀ e ∈ w.log, e.now ≤ now) → recent now d.normalize.flapWindow w.state.fires =
      recent now d.normalize.flapWindow (firings w.log)) (now : Int)
    (hnow : ∀ e ∈ w.log ++ [{ toReading := r, move }], e.now ≤ now) :
    recent now d.normalize.flapWindow s'.fires =
      recent now d.normalize.flapWindow (firings (w.log ++ [{ toReading := r, move }])) := by
  have hlog := h now fun e he => hnow e (List.mem_append_left _ he)
  have hlast : r.now ≤ now := hnow { toReading := r, move } (by simp)
  rw [hmove.fires, firings_append]
  by_cases hfiring : move = .firing
  · rw [if_pos hfiring, if_pos hfiring, recent_append, recent_append, recent_recent _ hlast, hlog]
  · rw [if_neg hfiring, if_neg hfiring, List.append_nil, hlog]

/-- The episode goes on, in the phase the move leaves. -/
theorem Faithful.carry (h : Faithful d w) (hactive : w.state.phase ≠ .ok)
    (hbegins : e.move ≠ .pending) (hends : ¬e.ends)
    (hrecorded : ∀ opener rest, Recorded w.state opener rest → Recorded s' opener (rest ++ [e])) :
    ∃ opener rest, Opened (w.log ++ [e]) opener rest ∧ Recorded s' opener rest := by
  obtain ⟨opener, rest, hopened, hold⟩ := h.active hactive
  exact ⟨opener, rest ++ [e], hopened.continue hbegins hends, hrecorded opener rest hold⟩

theorem Faithful.carry_firing (h : Faithful d w) (hfiring : w.state.phase.isFiring = true)
    (hbegins : e.move ≠ .pending) (hends : ¬e.ends) (hphase : s'.phase ≠ .pending)
    (hfirst : s'.firstSeenAt = w.state.firstSeenAt) (hsince : s'.since = w.state.since) :
    ∃ opener rest, Opened (w.log ++ [e]) opener rest ∧ Recorded s' opener rest := by
  refine h.carry (fun hok => by simp [hok, AlertPhase.isFiring] at hfiring) hbegins hends ?_
  intro opener rest hold
  exact ⟨hfirst ▸ hold.firstSeen, fun hpending => absurd hpending hphase,
    fun hpending => absurd hpending hphase, fun _ => hsince ▸ (hold.fired hfiring).continue e⟩

theorem faithful_step (h : Faithful d w) (r : Reading) : Faithful d (w.step d r) := by
  have hmove := w.state.advance_move r.breached r.now d
  unfold Logged.step
  generalize w.state.advance r.breached r.now d = res at hmove ⊢
  obtain ⟨s', move⟩ := res
  obtain ⟨breached, now⟩ := r
  have hwindow := hmove.window h.window
  -- One case per line of the machine. The window is the same argument in all of them.
  cases hmove with
  | idle hphase =>
    exact ⟨h.known, fun _ => (h.idle hphase).quiet (by simp), fun hne => absurd hphase hne,
      fun hres => by simp [hphase] at hres, hwindow⟩
  | breach hphase =>
    refine ⟨by simp, by simp, fun _ => ?_, by simp, hwindow⟩
    exact ⟨⟨⟨true, now⟩, .pending⟩, [], ⟨⟨w.log, rfl⟩, rfl, by simp⟩, ⟨rfl, by simp, by simp,
      by simp [AlertPhase.isFiring]⟩⟩
  | abandon hphase =>
    exact ⟨by simp, fun _ => closed_of_ends (Or.inr rfl),
      fun hne => absurd rfl hne, by simp, hwindow⟩
  | ignite hphase hdwell =>
    refine ⟨by simp [fire], by simp [fire], fun _ => ?_,
      by simp [fire], hwindow⟩
    refine h.carry (by simp [hphase]) (by simp) (by simp [LogEntry.ends]) ?_
    intro opener rest hold
    exact ⟨hold.firstSeen, by simp [fire], by simp [fire],
      fun _ => ⟨rest, _, [], rfl, rfl, rfl, hold.unfired hphase⟩⟩
  | dwell hphase hdwell =>
    refine ⟨h.known, by simp [hphase], fun hne => ?_, by simp [hphase], hwindow⟩
    refine h.carry hne (by simp) (by simp [LogEntry.ends]) ?_
    intro opener rest hold
    refine ⟨hold.firstSeen, fun _ => ?_, fun _ => ?_, by simp [hphase, AlertPhase.isFiring]⟩
    · rw [← List.cons_append]
      exact forall_mem_concat (hold.held hphase) rfl
    · exact forall_mem_concat (hold.unfired hphase) (by simp)
  | hold hphase =>
    refine ⟨h.known, by simp [hphase], fun _ => ?_, by simp [hphase], hwindow⟩
    exact h.carry_firing (by simp [hphase, AlertPhase.isFiring]) (by simp) (by simp [LogEntry.ends])
      (by simp [hphase]) rfl rfl
  | clear hphase =>
    refine ⟨by simp, by simp, fun _ => ?_, fun _ => ?_, hwindow⟩
    · exact h.carry_firing (by simp [hphase, AlertPhase.isFiring]) (by simp)
        (by simp [LogEntry.ends]) (by simp) rfl rfl
    · exact ⟨w.log, _, [], rfl, rfl, rfl, by simp⟩
  | recur hphase =>
    refine ⟨by simp [fire], by simp [fire], fun _ => ?_,
      by simp [fire], hwindow⟩
    exact h.carry_firing (by simp [hphase, AlertPhase.isFiring]) (by simp) (by simp [LogEntry.ends])
      (by simp [fire]) rfl rfl
  | resolve hphase hdwell =>
    exact ⟨by simp, fun _ => closed_of_ends (Or.inl rfl),
      fun hne => absurd rfl hne, by simp, hwindow⟩
  | wait hphase hdwell =>
    refine ⟨h.known, by simp [hphase], fun _ => ?_, fun _ => ?_, hwindow⟩
    · exact h.carry_firing (by simp [hphase, AlertPhase.isFiring]) (by simp)
        (by simp [LogEntry.ends]) (by simp [hphase]) rfl rfl
    · exact (h.cleared hphase).continue rfl
  | stuck hphase => exact absurd hphase (h.known _)

theorem faithful_run (d : Dwell) (rs : List Reading) : Faithful d (Logged.run d rs) := by
  induction rs using List.reverseRecOn with
  | nil => exact faithful_start d
  | append_singleton rs r ih =>
    rw [Logged.run, List.foldl_append]
    exact faithful_step ih r

/-! ## Dwell and hysteresis -/

theorem log_readings {rs : List Reading} (he : e ∈ (Logged.run d rs).log) :
    e.now ∈ rs.map (·.now) := by
  induction rs using List.reverseRecOn with
  | nil => cases he
  | append_singleton rs r ih =>
    rw [Logged.run, List.foldl_append] at he
    rw [List.map_append, List.mem_append]
    rcases List.mem_append.mp he with hold | hnew
    · exact Or.inl (ih hold)
    · rw [List.mem_singleton.mp hnew]
      exact Or.inr (by simp)

/-- The move a reading causes. -/
def Logged.next (d : Dwell) (w : Logged) (r : Reading) : Transition :=
  (w.state.advance r.breached r.now d).2

/-- What the history so far says about the next move. -/
structure Disciplined (d : Dwell) (w : Logged) (r : Reading) : Prop where
  /-- A pending breach fires only if it held from the first sight of it, for the dwell. -/
  fires : w.state.phase = .pending → w.next d r = .firing →
    ∃ opener rest, Opened w.log opener rest ∧ opener.now = w.state.firstSeenAt ∧
      (∀ e ∈ opener :: rest, e.breached = true) ∧ r.breached = true ∧
      d.normalize.for_.1 ≤ r.now - w.state.firstSeenAt
  /-- A finding resolves only if it stayed clear from the drop on, for the resolve dwell. -/
  resolves : w.next d r = .resolved → ClearedAt w.state.clearSince w.log ∧ r.breached = false ∧
    d.normalize.resolve.1 ≤ r.now - w.state.clearSince
  /-- An end closes the one open episode, as resolved just if the episode fired. -/
  closes : w.next d r = .resolved ∨ w.next d r = .abandoned →
    ∃ opener rest, Opened w.log opener rest ∧
      (w.next d r = .resolved ↔ ∃ e ∈ rest, e.move = .firing)
  /-- An episode begins only where every earlier one has ended. -/
  opens : w.next d r = .pending → Closed w.log
  /-- Inside an episode the timestamps are those of its first breach and first firing. -/
  origin : w.state.phase ≠ .ok → ∃ opener rest, Opened w.log opener rest ∧
    opener.now = w.state.firstSeenAt ∧ (w.state.phase.isFiring = true → FiredAt w.state.since rest)
  /-- The flap count is that of the whole history: the firings in the window but one. -/
  recurrences : ∀ now, (∀ e ∈ w.log, e.now ≤ now) → w.state.recurrences now d =
    (((firings w.log).filter fun t => now - d.normalize.flapWindow.1 < t).length - 1 : ℕ)

theorem Faithful.closes (h : Faithful d w) (r : Reading)
    (hend : w.next d r = .resolved ∨ w.next d r = .abandoned) :
    ∃ opener rest, Opened w.log opener rest ∧
      (w.next d r = .resolved ↔ ∃ e ∈ rest, e.move = .firing) := by
  have hmove := w.state.advance_move r.breached r.now d
  rw [Logged.next] at *
  generalize w.state.advance r.breached r.now d = res at hmove hend ⊢
  obtain ⟨s', move⟩ := res
  obtain ⟨breached, now⟩ := r
  cases hmove with
  | abandon hphase =>
    obtain ⟨opener, rest, hopened, hrecorded⟩ := h.active (by simp [hphase])
    refine ⟨opener, rest, hopened, iff_of_false (by simp) ?_⟩
    rintro ⟨e, hmem, hfiring⟩
    exact hrecorded.unfired hphase e hmem hfiring
  | resolve hphase hdwell =>
    obtain ⟨opener, rest, hopened, hrecorded⟩ := h.active (by simp [hphase])
    obtain ⟨quiet, igniter, tail, hrest, hfiring, -, -⟩ :=
      hrecorded.fired (by simp [hphase, AlertPhase.isFiring])
    exact ⟨opener, rest, hopened, iff_of_true rfl ⟨igniter, by simp [hrest], hfiring⟩⟩
  | _ => simp at hend

/-- Along every run on a clock that does not go back, findings wait out their dwell,
    resolutions wait out theirs, the two pair up, and the flap count is exact. -/
theorem disciplined_run (d : Dwell) (rs : List Reading) (r : Reading)
    (hclock : ((rs ++ [r]).map (·.now)).Pairwise (· ≤ ·)) :
    Disciplined d (Logged.run d rs) r := by
  have hf := faithful_run d rs
  have hpast : ∀ e ∈ (Logged.run d rs).log, e.now ≤ r.now := by
    rw [List.map_append, List.pairwise_append] at hclock
    intro e he
    exact hclock.2.2 e.now (log_readings he) r.now (by simp)
  generalize Logged.run d rs = w at hf hpast ⊢
  have hmove := w.state.advance_move r.breached r.now d
  refine ⟨?_, ?_, hf.closes r, ?_, ?_, ?_⟩
  · intro hphase hnext
    obtain ⟨opener, rest, hopened, hrecorded⟩ := hf.active (by simp [hphase])
    refine ⟨opener, rest, hopened, hrecorded.firstSeen, hrecorded.held hphase, ?_⟩
    obtain ⟨hbreached, hdwell⟩ := hmove.of_ignite hphase hnext
    have hpos := d.normalize_for_pos
    exact ⟨hbreached, sub_ge_of_since_ge (by unfold minDuration; omega) hdwell⟩
  · intro hnext
    obtain ⟨hphase, hclear, hdwell⟩ := hmove.of_resolve hnext
    have hcleared := hf.cleared hphase
    obtain ⟨before, clearer, rest, hlog, -, hnow, -⟩ := id hcleared
    -- The drop is in the past, so the difference is not below what saturation shows.
    have hle : w.state.clearSince ≤ r.now := hnow ▸ hpast clearer (by simp [hlog])
    refine ⟨hcleared, hclear, ?_⟩
    unfold since at hdwell
    have hmin := d.normalize.resolve.2.1
    unfold minDuration at *
    omega
  · intro hnext
    exact hf.idle (hmove.of_pending hnext)
  · intro hactive
    obtain ⟨opener, rest, hopened, hrecorded⟩ := hf.active hactive
    exact ⟨opener, rest, hopened, hrecorded.firstSeen, hrecorded.fired⟩
  · intro now hnow
    rw [AlertState.recurrences, hf.window now hnow, recent]
    split <;> omega

namespace FlapSample

/-- An episode that fires, drops, comes back and drops for good, and a second one. -/
def readings : List Reading :=
  [⟨true, minute⟩, ⟨true, 11 * minute⟩, ⟨false, 12 * minute⟩, ⟨true, 13 * minute⟩,
    ⟨false, 14 * minute⟩, ⟨false, 44 * minute⟩, ⟨true, 45 * minute⟩]

end FlapSample

open FlapSample in
theorem second_episode_disciplined :
    (Logged.run defaultDwell readings).next defaultDwell ⟨true, 55 * minute⟩ = .firing ∧
      Disciplined defaultDwell (Logged.run defaultDwell readings) ⟨true, 55 * minute⟩ :=
  ⟨by decide +kernel, disciplined_run _ _ _ (by decide +kernel)⟩

end Lookout.Leeway
