-- SUMMARY: The activations of a CronJob schedule: how many were missed, and whether the first is overdue.
import Lookout.Engine.Signal
import Mathlib.Data.Int.Interval
import Mathlib.Data.Set.Card

/-!
# Missed activations

`MissedSince` walks over the activations after an anchor, and `Overdue` looks at the
first one only. The cron library gives the next activation, and the zero time where
there is none. An activation at the zero time is therefore taken for the end.
-/

namespace Lookout.Cronsched

open Engine (minute)

/-- A parsed schedule. Only the zero value lacks the library's schedule. -/
structure Schedule where
  inner : Option (Int → Int)

namespace Schedule

def next (s : Schedule) (t : Int) : Int :=
  match s.inner with
  | none => 0
  | some next => next t

def maxWalk : Nat := 10000

/-- The loop of `MissedSince`, with `fuel` rounds left and `n` activations counted. -/
def walk (s : Schedule) (now : Int) : Nat → Nat → Int → Nat × Bool
  | 0, n, _ => (n, true)
  | fuel + 1, n, t =>
    if s.next t = 0 ∨ now < s.next t then (n, false) else walk s now fuel (n + 1) (s.next t)

/-- `MissedSince`: the count, and whether it is only a floor. -/
def missedSince (s : Schedule) (anchor now : Int) : Nat × Bool :=
  if s.inner.isNone ∨ anchor = 0 ∨ now ≤ anchor then (0, false) else s.walk now maxWalk 0 anchor

/-- `Overdue`: the first activation after the anchor, and whether its grace is over. -/
def overdue (s : Schedule) (anchor now grace : Int) : Int × Bool :=
  if s.inner.isNone ∨ anchor = 0 then (0, false)
  else if s.next anchor = 0 then (0, false)
  else (s.next anchor, s.next anchor + grace ≤ now)

/-- What the library promises about a schedule with the activations `A`. -/
structure Activates (s : Schedule) (A : Set Int) : Prop where
  least : ∀ t, (∃ a ∈ A, t < a) → IsLeast {a ∈ A | t < a} (s.next t)
  last : ∀ t, (∀ a ∈ A, a ≤ t) → s.next t = 0

/-- The activations in `(anchor, now]`. -/
def due (A : Set Int) (anchor now : Int) : Set Int := {a ∈ A | anchor < a ∧ a ≤ now}

variable {s : Schedule} {A : Set Int} {t anchor now : Int}

theorem finite_due : (due A t now).Finite :=
  (Set.finite_Ioc t now).subset fun _ ha => ha.2

namespace Activates

variable (hs : s.Activates A)
include hs

/-- Either nothing is due and the walk stops, or the next activation is due first. -/
theorem next_spec (hzero : 0 ∉ due A t now) :
    (s.next t = 0 ∨ now < s.next t) ∧ due A t now = ∅ ∨
      ¬(s.next t = 0 ∨ now < s.next t) ∧
        due A t now = insert (s.next t) (due A (s.next t) now) := by
  by_cases hafter : ∃ a ∈ A, t < a
  · obtain ⟨⟨hmem, hlt⟩, hleast⟩ := hs.least t hafter
    by_cases hle : s.next t ≤ now
    · refine Or.inr ⟨?_, Set.ext fun a => ⟨fun ha => ?_, ?_⟩⟩
      · rintro (heq | hgt)
        · exact hzero (heq ▸ ⟨hmem, hlt, hle⟩)
        · exact absurd hle (not_le.2 hgt)
      · exact (hleast ⟨ha.1, ha.2.1⟩).eq_or_lt.imp Eq.symm fun h => ⟨ha.1, h, ha.2.2⟩
      · rintro (rfl | ha)
        · exact ⟨hmem, hlt, hle⟩
        · exact ⟨ha.1, hlt.trans ha.2.1, ha.2.2⟩
    · refine Or.inl ⟨Or.inr (not_le.1 hle), Set.eq_empty_iff_forall_notMem.2 fun a ha => hle ?_⟩
      exact (hleast ⟨ha.1, ha.2.1⟩).trans ha.2.2
  · refine Or.inl ⟨Or.inl (hs.last t fun a ha => ?_), Set.eq_empty_iff_forall_notMem.2 fun a ha => ?_⟩
    · exact not_lt.1 fun hlt => hafter ⟨a, ha, hlt⟩
    · exact hafter ⟨a, ha.1, ha.2.1⟩

theorem walk_eq (hzero : 0 ∉ due A t now) (fuel n : Nat) :
    (s.walk now fuel n t).1 = n + min fuel (due A t now).ncard := by
  induction fuel generalizing n t with
  | zero => simp [walk]
  | succ fuel ih =>
    rcases hs.next_spec hzero with ⟨hstop, hnone⟩ | ⟨hgo, hfirst⟩
    · simp [walk, hstop, hnone]
    · rw [walk, if_neg hgo, ih fun h => hzero (hfirst ▸ Or.inr h), hfirst,
        Set.ncard_insert_of_notMem (fun h => lt_irrefl _ h.2.1) finite_due]
      omega

end Activates

/-- Unless the zero time is an activation that is due, the count is that of the
    activations due, up to the cap, and the first is overdue just if one is counted. -/
theorem missedSince_eq (hs : s.Activates A) (hanchor : anchor ≠ 0) (hzero : 0 ∉ due A anchor now) :
    (s.missedSince anchor now).1 = min maxWalk (due A anchor now).ncard ∧
      ((s.overdue anchor now 0).2 = true ↔ 1 ≤ (s.missedSince anchor now).1) := by
  rcases hs.next_spec hzero with ⟨hstop, hnone⟩ | ⟨hgo, hfirst⟩
  · have hmissed : (s.missedSince anchor now).1 = 0 := by
      unfold missedSince
      split
      · rfl
      · simp [maxWalk, walk, hstop]
    have hoverdue : (s.overdue anchor now 0).2 = false := by
      unfold overdue
      rcases hstop with heq | hlt
      · simp [heq]
      · split_ifs <;> simp [hlt]
    simp [hmissed, hoverdue, hnone]
  · obtain ⟨hne, hle⟩ := not_or.1 hgo
    have hnext : s.next anchor ∈ due A anchor now := hfirst ▸ Or.inl rfl
    have hlt : anchor < now := hnext.2.1.trans_le hnext.2.2
    have hinner : s.inner ≠ none := fun heq => hne (by rw [next, heq])
    have hmissed : (s.missedSince anchor now).1 = min maxWalk (due A anchor now).ncard := by
      rw [missedSince, if_neg (by simp [hinner, hanchor, hlt]), hs.walk_eq hzero, Nat.zero_add]
    have hcount := Set.ncard_ne_zero_of_mem hnext finite_due
    refine ⟨hmissed, iff_of_true ?_ ?_⟩
    · simpa [overdue, hinner, hanchor, hne] using hle
    · rw [hmissed, maxWalk]
      omega

/-- The schedule that activates at every full minute. -/
def everyMinute : Schedule := ⟨some fun t => (t / minute + 1) * minute⟩

theorem everyMinute_activates : everyMinute.Activates {a | minute ∣ a} where
  least t _ := by
    have hpos : 0 < minute := by decide
    refine ⟨⟨Int.dvd_mul_left _ _, Int.lt_ediv_add_one_mul_self t hpos⟩, ?_⟩
    rintro a ⟨⟨k, rfl⟩, hlt⟩
    rw [Int.mul_comm] at hlt ⊢
    exact Int.mul_le_mul_of_nonneg_right (Int.ediv_lt_of_lt_mul hpos hlt) hpos.le
  last t hall := absurd (hall _ (Int.dvd_mul_left (t / minute + 1) minute))
    (not_le.2 (Int.lt_ediv_add_one_mul_self t (by decide)))

/-- Two activations are missed in two minutes. -/
theorem two_minutes_missed : (everyMinute.missedSince 1 (2 * minute)).1 = 2 ∧
    (everyMinute.missedSince 1 (2 * minute)).1 =
      min maxWalk (due {a | minute ∣ a} 1 (2 * minute)).ncard :=
  ⟨by decide +kernel, (missedSince_eq everyMinute_activates one_ne_zero fun h =>
    absurd h.2.1 (by decide)).1⟩

/-- Just before the zero time, an activation at the zero time ends the walk. -/
theorem zero_time_not_counted : everyMinute.Activates {a | minute ∣ a} ∧
    (everyMinute.missedSince (-1) 0).1 ≠ min maxWalk (due {a | minute ∣ a} (-1) 0).ncard := by
  have hdue : (due {a | minute ∣ a} (-1) 0).ncard ≠ 0 :=
    Set.ncard_ne_zero_of_mem (a := 0) ⟨dvd_zero _, by decide, le_rfl⟩ finite_due
  have hmissed : (everyMinute.missedSince (-1) 0).1 = 0 := by decide +kernel
  refine ⟨everyMinute_activates, ?_⟩
  rw [hmissed, maxWalk]
  omega

end Schedule

end Lookout.Cronsched
