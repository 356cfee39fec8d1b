-- SUMMARY: Binary search, insertion, and deletion in strictly sorted lists.
import Mathlib.Data.List.Sort
import Mathlib.Tactic.Common

/-!
# Strictly sorted lists

A slice kept strictly sorted by an order `r` is searched by bisection. `search`
is the bisection itself, over an arbitrary predicate. `find`, `insert` and
`delete` are the slice operations built on it. They are total on every list.
Their lemmas need the list sorted, because bisection does.
-/

namespace SortedList

/-- The list in ascending order. -/
def sort {α : Type} (r : α → α → Prop) [DecidableRel r] (l : List α) : List α :=
  l.insertionSort fun a b => ¬ r b a

/-- Bisect `[i, j)` for the first index at which `f` holds. Each round at least
    halves the interval, so `fuel = j - i` rounds always suffice. -/
def bisect (f : Nat → Bool) : Nat → Nat → Nat → Nat
  | 0, i, _ => i
  | fuel + 1, i, j =>
    if i < j then
      let h := (i + j) / 2
      if f h then bisect f fuel i h else bisect f fuel (h + 1) j
    else i

/-- The first index below `n` at which the monotone predicate `f` holds, or `n`. -/
def search (n : Nat) (f : Nat → Bool) : Nat := bisect f n 0 n

variable {n : Nat} {f : Nat → Bool}

theorem bisect_spec (hmono : ∀ a b, a ≤ b → b < n → f a = true → f b = true) {fuel i j : Nat}
    (hfuel : j - i ≤ fuel) (hij : i ≤ j) (hjn : j ≤ n) (hlow : ∀ a < i, f a = false)
    (hhigh : j < n → f j = true) :
    bisect f fuel i j ≤ j ∧ (∀ a < bisect f fuel i j, f a = false) ∧
      (bisect f fuel i j < n → f (bisect f fuel i j) = true) := by
  fun_induction bisect f fuel i j with
  | case1 i j =>
    obtain rfl : j = i := by omega
    exact ⟨le_rfl, hlow, hhigh⟩
  | case2 fuel i j hlt h hf ih =>
    obtain ⟨hle, hspec⟩ := ih (by omega) (by omega) (by omega) hlow fun _ => hf
    exact ⟨by omega, hspec⟩
  | case3 fuel i j hlt h hf ih =>
    -- Everything up to the midpoint fails, or monotonicity would make the midpoint hold.
    refine ih (by omega) (by omega) hjn (fun a ha => ?_) hhigh
    by_contra hne
    exact hf (hmono a h (by omega) (by omega) (by simpa using hne))
  | case4 fuel i j hlt =>
    obtain rfl : j = i := by omega
    exact ⟨le_rfl, hlow, hhigh⟩

theorem search_spec (hmono : ∀ a b, a ≤ b → b < n → f a = true → f b = true) :
    search n f ≤ n ∧ (∀ a < search n f, f a = false) ∧
      (search n f < n → f (search n f) = true) := by
  exact bisect_spec hmono le_rfl n.zero_le le_rfl (fun a ha => absurd ha a.not_lt_zero) fun h =>
    absurd h (lt_irrefl n)

variable {α : Type} [DecidableEq α] (r : α → α → Prop) [DecidableRel r] {s : List α} {e : α}

/-- The insertion index of `e` in `s`, and whether `e` is there already. -/
def find (s : List α) (e : α) : Nat × Bool :=
  let i := search s.length fun i => s[i]?.all fun x => !decide (r x e)
  (i, s[i]? = some e)

/-- `s` with `e` inserted in order, and whether that changed it. -/
def insert (s : List α) (e : α) : List α × Bool :=
  let p := find r s e
  if p.2 then (s, false) else (s.take p.1 ++ e :: s.drop p.1, true)

/-- `s` without `e`, and whether that changed it. -/
def delete (s : List α) (e : α) : List α × Bool :=
  let p := find r s e
  if p.2 then (s.take p.1 ++ s.drop (p.1 + 1), true) else (s, false)

variable {r} [IsStrictTotalOrder α r]

section

variable (hs : s.Pairwise r)

include hs

/-- In a sorted list, bisection splits off exactly the elements below `e`. -/
theorem find_spec (e : α) :
    (∀ x ∈ s.take (find r s e).1, r x e) ∧ (∀ x ∈ s.drop (find r s e).1, ¬ r x e) := by
  have hmono : ∀ a b, a ≤ b → b < s.length →
      (s[a]?.all fun x => !decide (r x e)) = true → (s[b]?.all fun x => !decide (r x e)) = true := by
    intro a b hab hb ha
    have hal : a < s.length := by omega
    rw [List.getElem?_eq_getElem hal] at ha
    rw [List.getElem?_eq_getElem hb]
    simp only [Option.all_some, Bool.not_eq_true', decide_eq_false_iff_not] at ha ⊢
    rcases Nat.eq_or_lt_of_le hab with rfl | hlt
    · exact ha
    · intro hbe
      exact ha (IsTrans.trans _ _ _ (List.pairwise_iff_getElem.1 hs a b hal hb hlt) hbe)
  obtain ⟨hle, hlow, hhigh⟩ := search_spec hmono
  constructor
  · intro x hx
    obtain ⟨i, hi, rfl⟩ := List.mem_take_iff_getElem.1 hx
    have hilt : i < s.length := by omega
    have := hlow i (by change i < (find r s e).1; omega)
    rw [List.getElem?_eq_getElem hilt] at this
    simpa using this
  · intro x hx
    obtain ⟨i, hi, rfl⟩ := List.mem_drop_iff_getElem.1 hx
    have hlt : (find r s e).1 + i < s.length := by omega
    have hpos : (find r s e).1 < s.length := by omega
    have hfirst := hmono (find r s e).1 ((find r s e).1 + i) (by omega) hlt (hhigh hpos)
    rw [List.getElem?_eq_getElem hlt] at hfirst
    simpa using hfirst

theorem find_present (e : α) : (find r s e).2 = true ↔ e ∈ s := by
  obtain ⟨hlow, hhigh⟩ := find_spec hs e
  have hdef : (find r s e).2 = decide (s[(find r s e).1]? = some e) := rfl
  rw [hdef, decide_eq_true_iff]
  constructor
  · exact List.mem_of_getElem?
  · intro he
    rw [← List.take_append_drop (find r s e).1 s] at he
    rcases List.mem_append.1 he with he | he
    · exact absurd (hlow e he) (irrefl e)
    · -- `e` lies in the upper part, whose first element is not below `e` and not above it either.
      obtain ⟨y, t, hy⟩ := List.exists_cons_of_ne_nil (List.ne_nil_of_mem he)
      have hsorted : (y :: t).Pairwise r := hy ▸ hs.drop
      have hye : ¬ r y e := hhigh y (by rw [hy]; exact List.mem_cons_self)
      have hfirst : y = e := by
        rw [hy] at he
        rcases List.mem_cons.1 he with rfl | he
        · rfl
        · exact absurd ((List.pairwise_cons.1 hsorted).1 e he) hye
      rw [← List.head?_drop, hy, hfirst]
      rfl

omit [DecidableEq α] [DecidableRel r] in
theorem nodup : s.Nodup := by
  refine hs.imp ?_
  intro a b hab heq
  subst heq
  exact irrefl a hab

theorem mem_insert (e x : α) : x ∈ (insert r s e).1 ↔ x = e ∨ x ∈ s := by
  unfold insert
  cases hp : (find r s e).2 with
  | true =>
    have he : e ∈ s := (find_present hs e).1 hp
    simp only [hp]
    exact ⟨Or.inr, fun h => h.elim (fun h => h ▸ he) id⟩
  | false =>
    simp only [hp, Bool.false_eq_true, if_false, List.mem_append, List.mem_cons]
    conv_rhs => rw [← List.take_append_drop (find r s e).1 s, List.mem_append]
    tauto

theorem pairwise_insert (e : α) : (insert r s e).1.Pairwise r := by
  unfold insert
  cases hp : (find r s e).2 with
  | true => simpa only [hp, if_true] using hs
  | false =>
    obtain ⟨hlow, hhigh⟩ := find_spec hs e
    have he : e ∉ s := fun h => by simp [(find_present hs e).2 h] at hp
    simp only [hp]
    have habove : ∀ y ∈ s.drop (find r s e).1, r e y := by
      intro y hy
      rcases trichotomous_of r e y with h | h | h
      · exact h
      · exact absurd (h ▸ List.mem_of_mem_drop hy) he
      · exact absurd h (hhigh y hy)
    refine List.pairwise_append.2 ⟨hs.take, List.pairwise_cons.2 ⟨habove, hs.drop⟩, ?_⟩
    intro x hx y hy
    rcases List.mem_cons.1 hy with rfl | hy
    · exact hlow x hx
    · exact IsTrans.trans _ _ _ (hlow x hx) (habove y hy)

theorem insert_added (e : α) : (insert r s e).2 = true ↔ e ∉ s := by
  rw [← find_present hs e]
  simp only [insert]
  split <;> simp_all

end

omit [IsStrictTotalOrder α r] in
theorem length_insert (h : (insert r s e).2 = true) : (insert r s e).1.length = s.length + 1 := by
  unfold insert at h ⊢
  cases hp : (find r s e).2 with
  | true => simp [hp] at h
  | false =>
    simp only [hp, Bool.false_eq_true, if_false, List.length_append, List.length_cons]
    conv_rhs => rw [← List.take_append_drop (find r s e).1 s, List.length_append]
    omega

theorem delete_removed (hs : s.Pairwise r) (e : α) : (delete r s e).2 = true ↔ e ∈ s := by
  rw [← find_present hs e]
  simp only [delete]
  split <;> simp_all

omit [IsStrictTotalOrder α r] in
theorem getElem?_find (h : (find r s e).2 = true) : s[(find r s e).1]? = some e :=
  of_decide_eq_true h

/-- Deleting a present element removes it and keeps the rest in order. -/
theorem delete_eq_filter (hs : s.Pairwise r) (e : α) :
    (delete r s e).1 = s.filter fun x => x ≠ e := by
  have hne : ∀ l : List α, e ∉ l → l.filter (fun x => x ≠ e) = l := by
    intro l he
    refine List.filter_eq_self.2 fun x hx => ?_
    simp only [decide_not, Bool.not_eq_eq_eq_not, Bool.not_true, decide_eq_false_iff_not]
    rintro rfl
    exact he hx
  unfold delete
  cases hp : (find r s e).2 with
  | false =>
    have he : e ∉ s := fun h => by simp [(find_present hs e).2 h] at hp
    simpa only [hp, Bool.false_eq_true, if_false] using (hne s he).symm
  | true =>
    obtain ⟨hlt, hval⟩ := List.getElem?_eq_some_iff.1 (getElem?_find hp)
    have hsplit : s = s.take (find r s e).1 ++ e :: s.drop ((find r s e).1 + 1) := by
      conv_lhs => rw [← List.take_append_drop (find r s e).1 s, List.drop_eq_getElem_cons hlt, hval]
    have hnodup : s.Nodup := nodup hs
    rw [hsplit, List.nodup_append, List.nodup_cons] at hnodup
    obtain ⟨-, ⟨hdrop, -⟩, hdisj⟩ := hnodup
    have htake : e ∉ s.take (find r s e).1 := fun h => hdisj e h e List.mem_cons_self rfl
    simp only [hp]
    conv_rhs => rw [hsplit, List.filter_append, List.filter_cons]
    rw [hne _ htake, hne _ hdrop]
    simp

theorem mem_delete (hs : s.Pairwise r) (e x : α) : x ∈ (delete r s e).1 ↔ x ∈ s ∧ x ≠ e := by
  rw [delete_eq_filter hs]
  simp

theorem pairwise_delete (hs : s.Pairwise r) (e : α) : (delete r s e).1.Pairwise r := by
  rw [delete_eq_filter hs]
  exact hs.filter _

omit [IsStrictTotalOrder α r] in
theorem length_delete (h : (delete r s e).2 = true) : (delete r s e).1.length + 1 = s.length := by
  unfold delete at h ⊢
  cases hp : (find r s e).2 with
  | false => simp [hp] at h
  | true =>
    obtain ⟨hlt, -⟩ := List.getElem?_eq_some_iff.1 (getElem?_find hp)
    simp only [hp, if_true, List.length_append, List.length_take, List.length_drop]
    omega

omit [DecidableEq α] [IsStrictTotalOrder α r] in
theorem perm_sort (l : List α) : (sort r l).Perm l := List.perm_insertionSort ..

omit [DecidableEq α] in
/-- Sorting a list without duplicates sorts it strictly. -/
theorem pairwise_sort {l : List α} (h : l.Nodup) : (sort r l).Pairwise r := by
  have htotal : Std.Total fun a b => ¬ r b a := by
    refine ⟨fun a b => ?_⟩
    by_cases hab : r a b
    · exact .inl (asymm hab)
    · exact .inr hab
  have htrans : IsTrans α fun a b => ¬ r b a := by
    refine ⟨fun a b c hba hcb hca => ?_⟩
    rcases trichotomous_of r a b with hlt | rfl | hgt
    · exact hcb (IsTrans.trans _ _ _ hca hlt)
    · exact hcb hca
    · exact hba hgt
  have hle : (sort r l).Pairwise fun a b => ¬ r b a :=
    List.pairwise_insertionSort (fun a b => ¬ r b a) l
  have hne : (sort r l).Pairwise (· ≠ ·) := (perm_sort l).nodup_iff.2 h
  refine (hle.and hne).imp ?_
  rintro a b ⟨hba, hab⟩
  rcases trichotomous_of r a b with hlt | heq | hgt
  · exact hlt
  · exact absurd heq hab
  · exact absurd hgt hba

end SortedList
