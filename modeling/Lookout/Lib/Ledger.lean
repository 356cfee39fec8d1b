-- SUMMARY: Ledgers of groups with settled and unsettled members, and who owns a member.
import Lookout.Lib.Map
import Mathlib.Data.Set.Basic

/-!
# Membership ledgers

Items wait until a group takes them. A group knows each of its members as settled
or not, and an index names for every member one group that owns it. The index is
one for all groups, so it can only be right about a member that one group has.

`Owned` is that rule. It takes the members that count as a parameter: the unsettled
ones for an index that only has to find open work, all of them for an index through
which settled members come back.
-/

variable {γ κ : Type}

/-- The groups' view of their members, the index of owners, and the waiting items.
    A closed group has no members. -/
structure Ledger (γ κ : Type) where
  status : γ → κ → Option Bool
  owner : κ → Option γ
  waiting : Set κ

namespace Ledger

variable {g : γ} {k : κ} {counts : Bool → Prop} {b : Bool}

@[ext] theorem ext' {L L' : Ledger γ κ} (hs : ∀ g k, L.status g k = L'.status g k)
    (ho : ∀ k, L.owner k = L'.owner k) (hw : ∀ k, k ∈ L.waiting ↔ k ∈ L'.waiting) : L = L' := by
  obtain ⟨s, o, w⟩ := L
  obtain ⟨s', o', w'⟩ := L'
  obtain rfl : s = s' := funext fun g => funext (hs g)
  obtain rfl : o = o' := funext ho
  obtain rfl : w = w' := Set.ext hw
  rfl

/-- Every member that counts is owned by the group that has it, and none is waiting. -/
structure Owned (counts : Bool → Prop) (L : Ledger γ κ) : Prop where
  indexed : ∀ {g k b}, L.status g k = some b → counts b → L.owner k = some g
  taken : ∀ {k}, k ∈ L.waiting → ∀ {g b}, L.status g k = some b → ¬counts b

/-- A member that counts has one group. -/
theorem Owned.unique {L : Ledger γ κ} (h : L.Owned counts) {g' : γ} {b' : Bool}
    (hb : L.status g k = some b) (hc : counts b) (hb' : L.status g' k = some b') (hc' : counts b') :
    g = g' :=
  Option.some.inj ((h.indexed hb hc).symm.trans (h.indexed hb' hc'))

/-! ## Operations -/

section Operations

open Classical

/-- Close the groups in `closed`, and keep `waiting` of the waiting items. -/
noncomputable def narrow (closed : γ → Prop) (waiting : Set κ) (L : Ledger γ κ) : Ledger γ κ where
  status g k := if closed g then none else L.status g k
  owner k := (L.owner k).filter fun g => ¬closed g
  waiting := waiting

/-- Let the item wait. -/
def wait (k : κ) (L : Ledger γ κ) : Ledger γ κ := { L with waiting := insert k L.waiting }

/-- Make `k` an unsettled member of `g`, owned by it. -/
noncomputable def join (g : γ) (k : κ) (L : Ledger γ κ) : Ledger γ κ where
  status g' k' := if g' = g ∧ k' = k then some false else L.status g' k'
  owner k' := if k' = k then some g else L.owner k'
  waiting := L.waiting

/-- Open the group `g` with the waiting items `ks`. -/
noncomputable def gather (g : γ) (ks : Set κ) (L : Ledger γ κ) : Ledger γ κ where
  status g' k := if g' = g then (if k ∈ ks then some false else none) else L.status g' k
  owner k := if k ∈ ks then some g else L.owner k
  waiting := L.waiting \ ks

/-- Mark the member `k` of `g`. -/
noncomputable def mark (g : γ) (k : κ) (b : Bool) (L : Ledger γ κ) : Ledger γ κ :=
  { L with status := fun g' k' => if g' = g ∧ k' = k then some b else L.status g' k' }

theorem status_narrow (closed : γ → Prop) (waiting : Set κ) (L : Ledger γ κ) (g : γ) (k : κ) :
    (L.narrow closed waiting).status g k = if closed g then none else L.status g k := rfl

theorem status_join (g : γ) (k : κ) (L : Ledger γ κ) (g' : γ) (k' : κ) :
    (L.join g k).status g' k' = if g' = g ∧ k' = k then some false else L.status g' k' := rfl

theorem status_gather (g : γ) (ks : Set κ) (L : Ledger γ κ) (g' : γ) (k : κ) :
    (L.gather g ks).status g' k =
      if g' = g then (if k ∈ ks then some false else none) else L.status g' k := rfl

theorem status_mark (g : γ) (k : κ) (b : Bool) (L : Ledger γ κ) (g' : γ) (k' : κ) :
    (L.mark g k b).status g' k' = if g' = g ∧ k' = k then some b else L.status g' k' := rfl

variable {L : Ledger γ κ}

section

variable (h : L.Owned counts)

include h

theorem Owned.narrow {closed : γ → Prop} {waiting : Set κ} (hsub : waiting ⊆ L.waiting) :
    (L.narrow closed waiting).Owned counts where
  indexed := by
    intro g k b hs hc
    simp only [Ledger.narrow] at hs ⊢
    split at hs
    · cases hs
    · next hopen => simp [h.indexed hs hc, hopen]
  taken := by
    intro k hk g b hs
    simp only [Ledger.narrow] at hs
    split at hs
    · cases hs
    · exact h.taken (hsub hk) hs

theorem Owned.wait (hk : ∀ {g b}, L.status g k = some b → ¬counts b) :
    (L.wait k).Owned counts where
  indexed := h.indexed
  taken := by
    intro k' hk' g b hs
    rcases hk' with rfl | hk'
    · exact hk hs
    · exact h.taken hk' hs

theorem Owned.join (hwait : k ∉ L.waiting)
    (honly : ∀ {g' b}, L.status g' k = some b → counts b → g' = g) :
    (L.join g k).Owned counts where
  indexed := by
    intro g' k' b hs hc
    simp only [Ledger.join] at hs ⊢
    split at hs
    · next hgk => rw [if_pos hgk.2, hgk.1]
    · next hgk =>
      split
      · next hk =>
        subst hk
        exact absurd ⟨honly hs hc, rfl⟩ hgk
      · exact h.indexed hs hc
  taken := by
    intro k' hk' g' b hs
    simp only [Ledger.join] at hk' hs
    split at hs
    · next hgk => exact absurd (hgk.2 ▸ hk') hwait
    · exact h.taken hk' hs

theorem Owned.gather {ks : Set κ} (hwait : ks ⊆ L.waiting) :
    (L.gather g ks).Owned counts where
  indexed := by
    intro g' k b hs hc
    simp only [Ledger.gather] at hs ⊢
    split at hs
    · next hg =>
      split at hs
      · next hk => rw [if_pos hk, hg]
      · cases hs
    · split
      · next hk => exact absurd hc (h.taken (hwait hk) hs)
      · exact h.indexed hs hc
  taken := by
    intro k hk g' b hs
    simp only [Ledger.gather] at hs
    split at hs
    · rw [if_neg hk.2] at hs
      cases hs
    · exact h.taken hk.1 hs

theorem Owned.mark (howner : L.owner k = some g) (hwait : k ∉ L.waiting) :
    (L.mark g k b).Owned counts where
  indexed := by
    intro g' k' b' hs hc
    simp only [Ledger.mark] at hs ⊢
    split at hs
    · next hgk => rw [hgk.1, hgk.2, howner]
    · exact h.indexed hs hc
  taken := by
    intro k' hk' g' b' hs
    simp only [Ledger.mark] at hk' hs
    split at hs
    · next hgk => exact absurd (hgk.2 ▸ hk') hwait
    · exact h.taken hk' hs

end

end Operations

/-! ## Counting the unsettled members of a group -/

section Counting

variable [DecidableEq κ]

/-- The unsettled members of a group. -/
def unsettled (m : Map κ Bool) : Finset κ := m.keys.filter fun k => m.lookup k = some false

variable {m : Map κ Bool}

theorem mem_unsettled : k ∈ unsettled m ↔ m.lookup k = some false := by
  rw [unsettled, Finset.mem_filter, Finmap.mem_keys, Map.mem_iff_ne_none]
  constructor
  · exact And.right
  · intro h
    rw [h]
    exact ⟨Option.some_ne_none _, rfl⟩

theorem card_unsettled_insert_false (h : m.lookup k ≠ some false) :
    (unsettled (m.insert k false)).card = (unsettled m).card + 1 := by
  have hset : unsettled (m.insert k false) = insert k (unsettled m) := by
    ext k'
    rw [Finset.mem_insert, mem_unsettled, mem_unsettled, Map.lookup_insert]
    split <;> simp_all
  rw [hset, Finset.card_insert_of_notMem (mem_unsettled.not.2 h)]

theorem card_unsettled_insert_true (h : m.lookup k = some false) :
    (unsettled (m.insert k true)).card + 1 = (unsettled m).card := by
  have hset : unsettled (m.insert k true) = (unsettled m).erase k := by
    ext k'
    rw [Finset.mem_erase, mem_unsettled, mem_unsettled, Map.lookup_insert]
    split <;> simp_all
  rw [hset, Finset.card_erase_add_one (mem_unsettled.2 h)]

theorem card_keys_insert_of_mem (h : m.lookup k ≠ none) :
    (m.insert k b).keys.card = m.keys.card := by
  rw [Map.keys_insert, Finset.insert_eq_of_mem (Finmap.mem_keys.2 (Map.mem_iff_ne_none.2 h))]

theorem card_keys_insert_of_notMem (h : m.lookup k = none) :
    (m.insert k b).keys.card = m.keys.card + 1 := by
  rw [Map.keys_insert, Finset.card_insert_of_notMem]
  rw [Finmap.mem_keys, Map.mem_iff_ne_none, h]
  simp

end Counting

end Ledger
