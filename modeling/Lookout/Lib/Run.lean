-- SUMMARY: Runs of a step function: conditions on every step, properties of every state.
import Mathlib.Data.List.Infix

/-!
# Runs

A run folds a step function over a list of inputs. A condition on the steps is met
where each input finds a state that satisfies it, and a property holds always when it
holds in every state the run passes through.
-/

namespace Run

variable {σ ι : Type} (step : σ → ι → σ)

/-- Every input meets the condition in the state it finds. -/
def Steps (cond : σ → ι → Prop) : σ → List ι → Prop
  | _, [] => True
  | s, i :: is => cond s i ∧ Steps cond (step s i) is

instance instDecidableSteps {cond : σ → ι → Prop} [∀ s i, Decidable (cond s i)] :
    (s : σ) → (is : List ι) → Decidable (Steps step cond s is)
  | _, [] => isTrue trivial
  | s, i :: is =>
    @instDecidableAnd (cond s i) (Steps step cond (step s i) is) inferInstance
      (instDecidableSteps (step s i) is)

/-- The property holds in every state of the run, the first one included. -/
def Always (P : σ → Prop) (s : σ) (is : List ι) : Prop := ∀ pre, pre <+: is → P (pre.foldl step s)

variable {step} {cond : σ → ι → Prop} {P : σ → Prop} {s : σ} {is : List ι}

/-- What no step changes, no run changes. -/
theorem foldl_keeps {γ : Type} {f : σ → ι → σ} {g : σ → γ} (h : ∀ s i, g (f s i) = g s)
    (is : List ι) (s : σ) : g (is.foldl f s) = g s := by
  induction is generalizing s with
  | nil => rfl
  | cons i is ih => rw [List.foldl_cons, ih, h]

variable {i : ι} {cond' : σ → ι → Prop}

/-- A decomposition of `is ++ [x]` is at `x`, or one of `is`. -/
theorem append_singleton_split {x : ι} {before after : List ι}
    (h : is ++ [x] = before ++ i :: after) :
    (before = is ∧ i = x ∧ after = []) ∨
      ∃ rest, after = rest ++ [x] ∧ is = before ++ i :: rest := by
  rcases List.eq_nil_or_concat' after with rfl | ⟨rest, y, rfl⟩
  · obtain ⟨rfl, hx⟩ := List.append_inj' h rfl
    cases hx
    exact Or.inl ⟨rfl, rfl, rfl⟩
  · rw [← List.cons_append, ← List.append_assoc] at h
    obtain ⟨rfl, hx⟩ := List.append_inj' h rfl
    cases hx
    exact Or.inr ⟨rest, rfl, rfl⟩

theorem always_nil : Always step P s [] ↔ P s := by
  constructor
  · exact fun h => h [] (List.prefix_refl [])
  · intro h pre hpre
    rw [List.prefix_nil.1 hpre]
    exact h

theorem always_cons : Always step P s (i :: is) ↔ P s ∧ Always step P (step s i) is := by
  constructor
  · intro h
    exact ⟨h [] List.nil_prefix, fun pre hpre => h (i :: pre) (List.cons_prefix_cons.2 ⟨rfl, hpre⟩)⟩
  · rintro ⟨hfirst, hrest⟩ pre hpre
    cases pre with
    | nil => exact hfirst
    | cons i' pre =>
      obtain ⟨rfl, hpre'⟩ := List.cons_prefix_cons.1 hpre
      exact hrest pre hpre'

theorem steps_append {is' : List ι} :
    Steps step cond s (is ++ is') ↔ Steps step cond s is ∧ Steps step cond (is.foldl step s) is' := by
  induction is generalizing s with
  | nil => exact (true_and _).symm ▸ Iff.rfl
  | cons i is ih =>
    rw [List.cons_append, Steps, Steps, ih, List.foldl_cons, and_assoc]

/-- A condition that every input meets in every state. -/
theorem Steps.of_forall (h : ∀ s i, cond s i) : Steps step cond s is := by
  induction is generalizing s with
  | nil => exact trivial
  | cons i is ih => exact ⟨h s i, ih⟩

/-- Two conditions that are both met. -/
theorem Steps.and (h : Steps step cond s is) (h' : Steps step cond' s is) :
    Steps step (fun s i => cond s i ∧ cond' s i) s is := by
  induction is generalizing s with
  | nil => exact trivial
  | cons i is ih => exact ⟨⟨h.1, h'.1⟩, ih h.2 h'.2⟩

/-- What holds of every input may be added to the condition. -/
theorem Steps.and_forall {Q : ι → Prop} (h : Steps step cond s is) (hQ : ∀ i ∈ is, Q i) :
    Steps step (fun s i => Q i ∧ cond s i) s is := by
  induction is generalizing s with
  | nil => exact trivial
  | cons i is ih =>
    exact ⟨⟨hQ i List.mem_cons_self, h.1⟩, ih h.2 fun j hj => hQ j (List.mem_cons_of_mem i hj)⟩

/-- What every step keeps under the condition holds always. -/
theorem Steps.always (hstep : ∀ s i, P s → cond s i → P (step s i)) (h : P s)
    (hcond : Steps step cond s is) : Always step P s is := by
  induction is generalizing s with
  | nil => exact always_nil.2 h
  | cons i is ih => exact always_cons.2 ⟨h, ih (hstep s i h hcond.1) hcond.2⟩

/-- What every step keeps under the condition holds at the end. -/
theorem invariant (hstep : ∀ s i, P s → cond s i → P (step s i)) (h : P s)
    (hcond : Steps step cond s is) : P (is.foldl step s) :=
  hcond.always hstep h is List.prefix_rfl

/-- What the property says of each step under the condition holds along a run that keeps
    the property. -/
theorem Steps.of_invariant (hstep : ∀ s i, P s → cond s i → P (step s i))
    (hcond' : ∀ s i, P s → cond s i → cond' s i) (h : P s) (hcond : Steps step cond s is) :
    Steps step cond' s is := by
  induction is generalizing s with
  | nil => exact trivial
  | cons i is ih => exact ⟨hcond' s i h hcond.1, ih (hstep s i h hcond.1) hcond.2⟩

/-- A condition that implies another one on every step. -/
theorem Steps.mono (himp : ∀ s i, cond s i → cond' s i) (h : Steps step cond s is) :
    Steps step cond' s is :=
  h.of_invariant (P := fun _ => True) (fun _ _ _ _ => trivial) (fun s i _ => himp s i) trivial

/-- A property holds always just if every step meets the condition, in runs that keep a
    law, if an invariant that implies it is kept where the condition is met, and it is lost
    where not. -/
theorem always_iff_steps_of_invariant {inv : σ → Prop} {law : σ → ι → Prop}
    (himp : ∀ s, inv s → P s) (hkeep : ∀ s i, inv s → law s i → cond s i → inv (step s i))
    (hlose : ∀ s i, inv s → law s i → P (step s i) → cond s i) (h : inv s)
    (hlaw : Steps step law s is) : Always step P s is ↔ Steps step cond s is := by
  induction is generalizing s with
  | nil => exact ⟨fun _ => trivial, fun _ => always_nil.2 (himp s h)⟩
  | cons i is ih =>
    rw [always_cons, Steps]
    constructor
    · rintro ⟨-, hrest⟩
      have hi : cond s i := hlose s i h hlaw.1 (hrest [] List.nil_prefix)
      exact ⟨hi, (ih (hkeep s i h hlaw.1 hi) hlaw.2).1 hrest⟩
    · rintro ⟨hi, hrest⟩
      exact ⟨himp s h, (ih (hkeep s i h hlaw.1 hi) hlaw.2).2 hrest⟩

/-- The same for a property that a step keeps just when it meets the condition. -/
theorem always_iff_steps (hstep : ∀ s i, P s → (P (step s i) ↔ cond s i)) (h : P s) :
    Always step P s is ↔ Steps step cond s is := by
  have hlaw : Steps step (fun _ _ => True) s is := Steps.of_forall fun _ _ => trivial
  exact always_iff_steps_of_invariant (fun _ => id) (fun s i h _ => (hstep s i h).2)
    (fun s i h _ => (hstep s i h).1) h hlaw

end Run
