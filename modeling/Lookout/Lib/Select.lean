-- SUMMARY: The loop that keeps the best element seen so far.
import Mathlib.Data.List.Basic
import Mathlib.Data.List.Induction
import Mathlib.Data.List.MinMax
import Mathlib.Order.Basic
import Mathlib.Tactic.Common

/-!
# Selecting loops

Many loops walk a collection and keep one element: the first one visited, until a
later one is strictly better. `select` is that loop.
-/

namespace Select

variable {α : Type}

/-- One round: keep `best` unless `x` is better. -/
def round (better : α → α → Bool) (best : Option α) (x : α) : Option α :=
  match best with
  | none => some x
  | some b => if better x b then some x else some b

/-- The element kept at the end, none when nothing was visited. -/
def select (better : α → α → Bool) (l : List α) : Option α := l.foldl (round better) none

variable {better : α → α → Bool} {l : List α} {a x : α}

theorem foldl_round_mem {best : Option α} (h : l.foldl (round better) best = some a) :
    best = some a ∨ a ∈ l := by
  induction l generalizing best with
  | nil => exact Or.inl h
  | cons x l ih =>
    rcases ih h with hround | hmem
    · cases best with
      | none =>
        cases hround
        exact Or.inr List.mem_cons_self
      | some b =>
        rw [round] at hround
        split at hround
        · cases hround
          exact Or.inr List.mem_cons_self
        · exact Or.inl hround
    · exact Or.inr (List.mem_cons_of_mem x hmem)

theorem select_mem (h : select better l = some a) : a ∈ l := by
  rcases foldl_round_mem h with hnone | hmem
  · cases hnone
  · exact hmem

/-- The loop is the one of Mathlib's `argmin`. -/
theorem select_eq_foldl (better : α → α → Bool) (l : List α) :
    select better l = l.foldl (List.argAux fun x b => better x b = true) none := by
  rw [select]
  congr 1
  funext best x
  cases best <;> rfl

/-- The loop keeps something as soon as it visits something. -/
theorem select_eq_none : select better l = none ↔ l = [] := by
  rw [select_eq_foldl, List.foldl_argAux_eq_none, and_iff_left rfl]

/-- Nothing that was visited is better than what the loop keeps. -/
theorem select_best (hirr : ∀ x, ¬better x x)
    (htrans : ∀ {x y z}, better x y → better y z → better x z) (h : select better l = some a)
    (hx : x ∈ l) : ¬better x a := by
  rw [select_eq_foldl] at h
  exact List.not_of_mem_foldl_argAux (fun x b => better x b = true) ⟨hirr⟩ ⟨fun _ _ _ => htrans⟩ hx h

/-! ## The only best element

A loop may also note whether what it keeps has been equalled since. -/

variable {ρ : Type} [LinearOrder ρ] {rank : α → ρ}

/-- One round: keep `b`, and whether another element has its rank. -/
def crown (rank : α → ρ) (best : Option (α × Bool)) (x : α) : Option (α × Bool) :=
  match best with
  | none => some (x, false)
  | some (b, tie) =>
    if rank b < rank x then some (x, false)
    else if rank x = rank b then some (b, true)
    else some (b, tie)

/-- The element of the highest rank, none when no element has that rank alone. -/
def top (rank : α → ρ) (l : List α) : Option α :=
  match l.foldl (crown rank) none with
  | some (a, false) => some a
  | _ => none

/-- What the loop knows after the elements of `l`. -/
structure Crowned (rank : α → ρ) (l : List α) (b : α) (tie : Bool) : Prop where
  mem : b ∈ l
  le : ∀ x ∈ l, rank x ≤ rank b
  tie : tie = true ↔ ∃ x ∈ l, x ≠ b ∧ rank x = rank b

theorem Crowned.crown {b : α} {tie : Bool} (h : Crowned rank l b tie) (hx : x ∉ l) :
    match crown rank (some (b, tie)) x with
    | none => l ++ [x] = []
    | some (b', tie') => Crowned rank (l ++ [x]) b' tie' := by
  have hmem : ∀ y, y ∈ l ++ [x] ↔ y ∈ l ∨ y = x := by
    intro y
    rw [List.mem_append, List.mem_singleton]
  rw [Select.crown]
  by_cases hlt : rank b < rank x
  · rw [if_pos hlt]
    refine ⟨(hmem x).2 (Or.inr rfl), fun y hy => ?_, ?_⟩
    · rcases (hmem y).1 hy with hyl | rfl
      · exact (h.le y hyl).trans hlt.le
      · exact le_rfl
    · refine iff_of_false Bool.false_ne_true ?_
      rintro ⟨y, hy, hne, heq⟩
      rcases (hmem y).1 hy with hyl | rfl
      · exact absurd (heq ▸ h.le y hyl) (not_le.2 hlt)
      · exact hne rfl
  · rw [if_neg hlt]
    have hle : ∀ y ∈ l ++ [x], rank y ≤ rank b := by
      intro y hy
      rcases (hmem y).1 hy with hyl | rfl
      · exact h.le y hyl
      · exact not_lt.1 hlt
    by_cases heq : rank x = rank b
    · rw [if_pos heq]
      refine ⟨(hmem b).2 (Or.inl h.mem), hle, iff_of_true rfl ?_⟩
      exact ⟨x, (hmem x).2 (Or.inr rfl), fun hxb => hx (hxb ▸ h.mem), heq⟩
    · rw [if_neg heq]
      refine ⟨(hmem b).2 (Or.inl h.mem), hle, h.tie.trans ?_⟩
      constructor
      · rintro ⟨y, hy, hy'⟩
        exact ⟨y, (hmem y).2 (Or.inl hy), hy'⟩
      · rintro ⟨y, hy, hy'⟩
        rcases (hmem y).1 hy with hyl | rfl
        · exact ⟨y, hyl, hy'⟩
        · exact absurd hy'.2 heq

theorem foldl_crown (rank : α → ρ) (hl : l.Nodup) :
    match l.foldl (crown rank) none with
    | none => l = []
    | some (b, tie) => Crowned rank l b tie := by
  induction l using List.reverseRecOn with
  | nil => rfl
  | append_singleton l x ih =>
    obtain ⟨hl, -, hx⟩ := List.nodup_append.1 hl
    specialize ih hl
    rw [List.foldl_append, List.foldl_cons, List.foldl_nil]
    cases hbest : l.foldl (crown rank) none with
    | none =>
      rw [hbest] at ih
      subst ih
      exact ⟨List.mem_singleton_self x, by simp, by simp⟩
    | some p =>
      obtain ⟨b, tie⟩ := p
      rw [hbest] at ih
      exact ih.crown fun hxl => hx x hxl x (List.mem_singleton_self x) rfl

/-- The loop finds the element that every other one ranks below. -/
theorem top_eq_some_iff (hl : l.Nodup) :
    top rank l = some a ↔ a ∈ l ∧ ∀ x ∈ l, x ≠ a → rank x < rank a := by
  have hbest := foldl_crown rank hl
  unfold top
  cases hfold : l.foldl (crown rank) none with
  | none =>
    rw [hfold] at hbest
    subst hbest
    simp
  | some p =>
    obtain ⟨b, tie⟩ := p
    rw [hfold] at hbest
    have hunique : (∀ x ∈ l, x ≠ b → rank x < rank b) ↔ tie = false := by
      rw [← Bool.not_eq_true, hbest.tie]
      constructor
      · rintro h ⟨x, hx, hne, heq⟩
        exact absurd heq (h x hx hne).ne
      · intro h x hx hne
        exact lt_of_le_of_ne (hbest.le x hx) fun heq => h ⟨x, hx, hne, heq⟩
    cases tie with
    | false =>
      constructor
      · intro h
        cases h
        exact ⟨hbest.mem, hunique.2 rfl⟩
      · rintro ⟨ha, hrest⟩
        -- Two elements cannot both rank above the other.
        by_contra hne
        have hba : b ≠ a := fun hba => hne (congrArg some hba)
        exact lt_asymm (hrest b hbest.mem hba) (hunique.2 rfl a ha hba.symm)
    | true =>
      refine iff_of_false (Option.some_ne_none a).symm ?_
      rintro ⟨ha, hrest⟩
      obtain ⟨x, hx, hne, heq⟩ := hbest.tie.1 rfl
      by_cases hba : b = a
      · subst hba
        exact absurd heq (hrest x hx hne).ne
      · exact absurd (hbest.le a ha) (not_le.2 (hrest b hbest.mem hba))

end Select
