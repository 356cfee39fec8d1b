-- SUMMARY: Histories of fetches: when a target has been missing since it was last sampled.
import Mathlib.Data.List.Basic

/-!
# Absence

A fetch that succeeded shows of every target whether it was sampled, only listed, or not
there at all. From the history of the fetches, newest first, one can tell whether a target
was absent from a fetch after its last sample. A register that forgets targets is covered
by the history while it has forgotten only such targets.
-/

namespace Absence

/-- What a fetch shows of a target. -/
inductive Sighting where
  | absent
  | listed
  | sampled
  deriving DecidableEq

variable {κ : Type} {scope known : κ → Prop} {f : κ → Sighting} {history : List (κ → Sighting)}
  {k : κ}

/-- Some fetch after the last sample of the target did not contain it. -/
def Missed (history : List (κ → Sighting)) (k : κ) : Prop :=
  ∃ newer f older, history = newer ++ f :: older ∧ f k = .absent ∧ ∀ g ∈ newer, g k ≠ .sampled

theorem not_missed_nil : ¬ Missed [] k := by
  rintro ⟨newer, f, older, h, -⟩
  exact absurd h.symm (List.append_ne_nil_of_right_ne_nil newer (List.cons_ne_nil f older))

theorem missed_cons :
    Missed (f :: history) k ↔ f k = .absent ∨ f k ≠ .sampled ∧ Missed history k := by
  constructor
  · rintro ⟨newer, g, older, h, habsent, hnewer⟩
    cases newer with
    | nil =>
      obtain ⟨rfl, -⟩ := List.cons.inj h
      exact Or.inl habsent
    | cons f' newer =>
      obtain ⟨rfl, hrest⟩ := List.cons.inj h
      exact Or.inr ⟨hnewer f List.mem_cons_self, newer, g, older, hrest, habsent,
        fun g' hg' => hnewer g' (List.mem_cons_of_mem f hg')⟩
  · rintro (habsent | ⟨hf, newer, g, older, rfl, habsent, hnewer⟩)
    · exact ⟨[], f, history, rfl, habsent, fun g hg => absurd hg List.not_mem_nil⟩
    · refine ⟨f :: newer, g, older, rfl, habsent, fun g' hg' => ?_⟩
      rcases List.mem_cons.1 hg' with rfl | hg'
      · exact hf
      · exact hnewer g' hg'

/-- Every target of the scope that the register does not know has been missed. -/
def Covers (scope known : κ → Prop) (history : List (κ → Sighting)) : Prop :=
  ∀ k, scope k → ¬ known k → Missed history k

/-- After one more fetch only the targets that it contained are in question. -/
theorem covers_cons :
    Covers scope known (f :: history) ↔
      ∀ k, scope k → ¬ known k → f k ≠ .absent → f k ≠ .sampled ∧ Missed history k := by
  refine forall_congr' fun k => imp_congr_right fun _ => imp_congr_right fun _ => ?_
  rw [missed_cons, or_iff_not_imp_left]

/-- A register that forgets without a fetch has to have missed what it forgets. -/
theorem covers_forget {kept : κ → Prop} (h : Covers scope known history) :
    Covers scope kept history ↔ ∀ k, scope k → known k → ¬ kept k → Missed history k := by
  constructor
  · exact fun hcov k hscope _ hlost => hcov k hscope hlost
  · intro hcov k hscope hlost
    by_cases hknown : known k
    · exact hcov k hscope hknown hlost
    · exact h k hscope hknown

end Absence
