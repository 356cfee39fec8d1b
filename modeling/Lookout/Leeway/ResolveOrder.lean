-- SUMMARY: The exact candidates whose resolution neither depends on order nor drops an enforced bound.
import Lookout.Leeway.Precedence

/-!
# The order of candidates

A permutation that keeps each source's candidates in their order may put any prefix of
each source first. `front` and `lift` build such permutations, over one key and over a
whole list of candidates. From them follows that the fold is steady for exactly the
candidates that `Settled` describes.
-/

namespace Lookout.Leeway

open Intent IntentSource

/-! ## Building orders -/

variable {l m : List Intent} {k : TopologyKey} {w h r : Intent} {s : IntentSource}

theorem ofSource_of_source {t : IntentSource} (h : ∀ c ∈ l, c.source = t) (s : IntentSource) :
    ofSource s l = if s = t then l else [] := by
  split
  next hs => exact List.filter_eq_self.mpr fun c hc => by simp [h c hc, hs]
  next hs => exact ofSource_eq_nil fun c hc => h c hc ▸ Ne.symm hs

theorem ofSource_ofSource (t : IntentSource) (l : List Intent) (s : IntentSource) :
    ofSource s (ofSource t l) = if s = t then ofSource t l else [] :=
  ofSource_of_source (fun _ hc => (mem_ofSource.mp hc).2) s

theorem ofSource_bySource (p : IntentSource → Bool) (s : IntentSource) (l : List Intent) :
    ofSource s (l.filter (p ·.source)) = if p s then ofSource s l else [] := by
  rw [ofSource_filter]
  split
  next hp => exact List.filter_eq_self.mpr fun c hc => by rw [(mem_ofSource.mp hc).2, hp]
  next hp => exact List.filter_eq_nil_iff.mpr fun c hc => by rwa [(mem_ofSource.mp hc).2]

theorem ofSource_flatMap {f : IntentSource → List Intent} (hf : ∀ t, ∀ c ∈ f t, c.source = t)
    (s : IntentSource) {ts : List IntentSource} (hnodup : ts.Nodup) :
    ofSource s (ts.flatMap f) = if s ∈ ts then f s else [] := by
  induction ts with
  | nil => rfl
  | cons t ts ih =>
    obtain ⟨hnot, hrest⟩ := List.nodup_cons.mp hnodup
    rw [List.flatMap_cons, ofSource_append, ih hrest, ofSource_of_source (hf t)]
    by_cases hst : s = t
    · subst hst
      rw [if_pos rfl, if_neg hnot, if_pos List.mem_cons_self, List.append_nil]
    · simp [hst]

/-- Any list that takes a prefix of each source may come first. -/
theorem front {pre : List Intent} (h : ∀ s, ofSource s pre <+: ofSource s l) :
    ∃ post, SameBySource l (pre ++ post) ∧
      ∀ s, ofSource s post = (ofSource s l).drop (ofSource s pre).length := by
  let rest := fun s => (ofSource s l).drop (ofSource s pre).length
  have hrest : ∀ t, ∀ c ∈ rest t, c.source = t := fun t c hc =>
    (mem_ofSource.mp (List.mem_of_mem_drop hc)).2
  have hpost : ∀ s, ofSource s (all.flatMap rest) = rest s := by
    intro s
    rw [ofSource_flatMap hrest s (by decide), if_pos]
    revert s
    decide
  refine ⟨all.flatMap rest, fun s => ?_, hpost⟩
  rw [ofSource_append, hpost]
  obtain ⟨tail, htail⟩ := h s
  have hdrop : rest s = tail := by
    show (ofSource s l).drop _ = tail
    rw [← htail, List.drop_left]
  rw [hdrop, htail]

theorem onKey_append (k : TopologyKey) (l l' : List Intent) :
    onKey k (l ++ l') = onKey k l ++ onKey k l' := List.filter_append _ _

theorem onKey_ofSource (k : TopologyKey) (s : IntentSource) (l : List Intent) :
    onKey k (ofSource s l) = ofSource s (onKey k l) := (ofSource_filter s _ l).symm

/-- An order of one key's candidates extends to an order of all. -/
theorem lift (h : SameBySource (onKey k l) m) : ∃ l', SameBySource l l' ∧ onKey k l' = m := by
  induction m generalizing l with
  | nil =>
    refine ⟨l, fun _ => rfl, List.eq_nil_iff_forall_not_mem.mpr fun c hc => ?_⟩
    exact List.not_mem_nil (h.perm.mem_iff.mpr hc)
  | cons c m ih =>
    -- Up to `c`, its source has candidates of other keys only.
    have hc := h c.source
    rw [← onKey_ofSource] at hc
    have hhead : ofSource c.source (c :: m) = c :: ofSource c.source m := by simp [ofSource]
    rw [hhead, onKey] at hc
    obtain ⟨A, B, hsplit, hA, hck, hB⟩ := List.filter_eq_cons_iff.mp hc.symm
    have hsrc : ∀ x ∈ A ++ [c], x.source = c.source := by
      intro x hx
      have hmem : x ∈ ofSource c.source l := by
        rw [hsplit, List.append_cons]
        exact List.mem_append_left _ hx
      exact (mem_ofSource.mp hmem).2
    have hpre := ofSource_of_source hsrc
    -- So these may come first.
    obtain ⟨post, hl, hpost⟩ := front (l := l) fun s => by
      rw [hpre]
      split
      next hs => exact ⟨B, by rw [hs, hsplit, ← List.append_cons]⟩
      next => exact List.nil_prefix
    have hsame : SameBySource (onKey k post) m := by
      intro s
      rw [← onKey_ofSource, hpost, hpre]
      by_cases hs : s = c.source
      · rw [if_pos hs, hs, hsplit, List.append_cons A c B, List.drop_left]
        exact hB.symm
      · rw [if_neg hs, List.length_nil, List.drop_zero, onKey_ofSource, ← h]
        simp [ofSource, Ne.symm hs]
    obtain ⟨l', hl', hm⟩ := ih hsame
    refine ⟨A ++ [c] ++ l', fun s => ?_, ?_⟩
    · rw [ofSource_append, hl', ← ofSource_append, hl]
    · have hAnil : onKey k A = [] := List.filter_eq_nil_iff.mpr fun x hx => hA x hx
      have hc : onKey k [c] = [c] := by simp [onKey, of_decide_eq_true hck]
      rw [onKey_append, onKey_append, hAnil, hc, hm]
      rfl

/-! ## Candidates whose resolution is steady -/

/-- The candidates of one key are such that no order loses the best enforced bound: the
    winner has it, or takes it over, with nothing at or above its source that swallows
    bounds, and no other enforced bound can reach the winner before it. -/
def Settled (l : List Intent) : Prop :=
  ∀ w ∈ top l, w.mode ≠ .ignore → ∀ h ∈ top (enforced l),
    w.hardSkewContract = true ∨
      w.accepts = true ∧ ClearTo l h.source ∧ BoundsAgree l h.maxSkew

/-- `l'` is a permutation of `l` that keeps each source's candidates in their order. -/
def Reordered (l l' : List Intent) : Prop := l'.Perm l ∧ SameBySource l l'

/-- On key `k`, every order of the candidates gives the winner of least source, the first
    among equals, with the same bound. If the winner is not `Ignore` and some bound is
    enforced, the winner's is, and it is that of the best such candidate. -/
def Steady (l : List Intent) (k : TopologyKey) : Prop :=
  ∀ l', Reordered l l' →
    match top (onKey k l) with
    | none => (resolveIntents l').lookup k = none
    | some w => ∃ r r', (resolveIntents l).lookup k = some r ∧
        (resolveIntents l').lookup k = some r' ∧ r.bare = w.bare ∧ r'.bare = w.bare ∧
        r'.maxSkew = r.maxSkew ∧ r'.whenUnsatisfiable = r.whenUnsatisfiable ∧
        (w.mode ≠ .ignore → ∀ h ∈ top (enforced (onKey k l)),
          r'.hardSkewContract = true ∧ r'.maxSkew = h.maxSkew)

theorem SameBySource.settled {l' : List Intent} (h : SameBySource l l') (hs : Settled l) :
    Settled l' := by
  have henf : top (enforced l') = top (enforced l) := (h.filter _).top_eq
  have hclear : ∀ s, ClearTo l s → ClearTo l' s := by
    intro s hcl t ht x hx
    rw [h] at hx
    exact hcl t ht x hx
  intro w hw hmode e he
  rw [h.top_eq] at hw
  rw [henf] at he
  refine (hs w hw hmode e he).imp_right fun ⟨hacc, hcl, hag⟩ => ⟨hacc, hclear _ hcl, fun s => ?_⟩
  rw [h]
  exact ⟨(hag s).1, (hag s).2.imp_left (hclear s)⟩

theorem top_enforced_of_hard (hw : top l = some w) (hhard : w.hardSkewContract = true) :
    top (enforced l) = some w := by
  obtain ⟨hhead, hleast⟩ := top_iff.mp hw
  refine top_iff.mpr ⟨?_, fun c hc => hleast c (List.mem_filter.mp hc).1⟩
  rw [enforced, ofSource_filter]
  exact enforced_head? hhead hhard

/-- With settled candidates the winner ends with its own bound or the best enforced one. -/
theorem Settled.meet_bound (hs : Settled l) (hw : top l = some w) (hr : meet l = some r) :
    (w.mode = .ignore ∨ top (enforced l) = none → r.bound = w.bound) ∧
      (w.mode ≠ .ignore → ∀ h ∈ top (enforced l),
        r.hardSkewContract = true ∧ r.maxSkew = h.maxSkew) := by
  constructor
  · rintro (hign | hnone)
    · exact meet_own hw hr (Or.inl (by simp [accepts, hign]))
    · refine meet_own hw hr (Or.inr fun c hc => ?_)
      have hnil : enforced l = [] := Select.select_eq_none.mp hnone
      rw [← Bool.not_eq_true]
      intro hhard
      have hmem : c ∈ enforced l := List.mem_filter.mpr ⟨hc, hhard⟩
      rw [hnil] at hmem
      cases hmem
  · intro hmode h hh
    rcases hs w hw hmode h hh with hhard | ⟨hacc, hclear, hagree⟩
    · have hown : w.accepts = false := by
        rw [← Bool.not_eq_true]
        intro hacc
        rw [not_hard_of_accepts hacc] at hhard
        cases hhard
      cases (top_enforced_of_hard hw hhard).symm.trans hh
      exact ⟨(meet_own_hard hw hr (Or.inl hown)).trans hhard,
        (Prod.mk.inj (meet_own hw hr (Or.inl hown))).1⟩
    · have hmem := List.mem_filter.mp (Select.select_mem hh)
      have hkeeps := @meet_keeps _ [] _ _ (by rwa [List.append_nil]) hr
      have hhard := hkeeps.2 h hmem.1 hmem.2 (by rwa [List.append_nil])
      exact ⟨hhard, hkeeps.1 hhard⟩

theorem steady_of_settled (hs : Settled (onKey k l)) : Steady l k := by
  rintro l' ⟨-, hsame⟩
  have hkey : SameBySource (onKey k l) (onKey k l') := hsame.filter _
  have hs' := hkey.settled hs
  have htop' := hkey.top_eq
  have henf' : top (enforced (onKey k l')) = top (enforced (onKey k l)) := (hkey.filter _).top_eq
  cases hw : top (onKey k l) with
  | none =>
    rw [hw] at htop'
    rw [lookup_resolveIntents, Select.select_eq_none.mp htop']
    rfl
  | some w =>
    rw [hw] at htop'
    obtain ⟨r, hr, hbare⟩ := meet_isSome hw
    obtain ⟨r', hr', hbare'⟩ := meet_isSome htop'
    obtain ⟨hown, hbest⟩ := hs.meet_bound hw hr
    obtain ⟨hown', hbest'⟩ := hs'.meet_bound htop' hr'
    rw [henf'] at hown' hbest'
    have hbound : r'.bound = r.bound := by
      by_cases hcase : w.mode = .ignore ∨ top (enforced (onKey k l)) = none
      · rw [hown hcase, hown' hcase]
      · obtain ⟨hmode, hsome⟩ := not_or.mp hcase
        obtain ⟨h, hh⟩ := Option.ne_none_iff_exists'.mp hsome
        obtain ⟨hhard, hskew⟩ := hbest hmode h hh
        obtain ⟨hhard', hskew'⟩ := hbest' hmode h hh
        refine Prod.ext (hskew'.trans hskew.symm) ?_
        exact (hardSkewContract_iff.mp hhard').2.2.trans (hardSkewContract_iff.mp hhard).2.2.symm
    refine ⟨r, r', by rw [lookup_resolveIntents, hr], by rw [lookup_resolveIntents, hr'], hbare,
      hbare', (Prod.mk.inj hbound).1, (Prod.mk.inj hbound).2, hbest'⟩

/-- What steadiness says about an order of the candidates of the key. -/
theorem Steady.meet_hard (hst : Steady l k) (hw : top (onKey k l) = some w)
    (hmode : w.mode ≠ .ignore) (hh : top (enforced (onKey k l)) = some h)
    (hm : SameBySource (onKey k l) m) :
    ∃ r, meet m = some r ∧ r.hardSkewContract = true ∧ r.maxSkew = h.maxSkew := by
  obtain ⟨l', hsame, rfl⟩ := lift hm
  have hl' := hst l' ⟨hsame.perm, hsame⟩
  rw [hw] at hl'
  obtain ⟨-, r', -, hr', -, -, -, -, hbest⟩ := hl'
  rw [lookup_resolveIntents] at hr'
  exact ⟨r', hr', hbest hmode h hh⟩

/-- The candidates that come after a source's own are no better than the source. -/
theorem soft_of_swallowing_top {x : Intent} (hx : top l = some x) (hsw : x.swallows = true)
    (hr : meet l = some r) : r.hardSkewContract = false := by
  rw [swallows, Bool.and_eq_true, Bool.not_eq_true', Bool.not_eq_true'] at hsw
  rw [meet_own_hard hx hr (Or.inl hsw.1), hsw.2]

section

variable (hst : Steady l k) (hw : top (onKey k l) = some w) (hmode : w.mode ≠ .ignore)

include hst hw hmode

/-- A steady key has nothing above the best enforced bound that swallows it. -/
theorem Steady.clearTo (hh : top (enforced (onKey k l)) = some h) :
    ClearTo (onKey k l) h.source := by
  intro t ht x hx
  rw [← Bool.not_eq_true]
  intro hsw
  set K := onKey k l
  have hxt : x ∈ K ∧ x.source = t := mem_ofSource.mp (List.mem_of_mem_head? hx)
  -- Visit the swallowing source and everything below it first.
  let low : IntentSource → Bool := fun s => t.rank ≤ s.rank
  have hsame : SameBySource K (K.filter (low ·.source) ++ K.filter (!low ·.source)) := by
    intro s
    rw [ofSource_append, ofSource_bySource low, ofSource_bySource (!low ·)]
    cases low s <;> simp
  have htoppre : top (K.filter (low ·.source)) = some x := by
    refine top_iff.mpr ⟨?_, fun c hc => ?_⟩
    · rw [hxt.2, ofSource_bySource low, if_pos (decide_eq_true le_rfl)]
      exact hx
    · rw [hxt.2]
      exact of_decide_eq_true (List.mem_filter.mp hc).2
  -- What is left comes from above and has no enforced bound.
  have hnone : ∀ c ∈ K.filter (!low ·.source), c.hardSkewContract = false := by
    intro c hc
    rw [← Bool.not_eq_true]
    intro hchard
    obtain ⟨hcK, hhigh⟩ := List.mem_filter.mp hc
    have hrank := (top_iff.mp hh).2 c (List.mem_filter.mpr ⟨hcK, hchard⟩)
    simp [low, ht.trans hrank] at hhigh
  obtain ⟨r, hr, hhard, -⟩ := hst.meet_hard hw hmode hh hsame
  rw [meet_stays_soft (fun q hq => soft_of_swallowing_top htoppre hsw hq) hnone hr] at hhard
  cases hhard

/-- Put `X` and what precedes `e` in its source first, then the winner, then `e`. If
    nothing before the winner passes a bound on, the winner ends with the bound of `e`. -/
theorem Steady.bound_eq (hacc : w.accepts = true) (hh : top (enforced (onKey k l)) = some h)
    {X T₁ T₂ : List Intent} {e : Intent} (hT : ofSource e.source (onKey k l) = T₁ ++ e :: T₂)
    (hhard : e.hardSkewContract = true) (hne : e.source ≠ w.source)
    (hX : ∀ s, ofSource s X <+: ofSource s (onKey k l)) (hXe : ofSource e.source X = [])
    (hXw : ofSource w.source X = [])
    (hsoft : ∀ q, meet (X ++ T₁) = some q → q.hardSkewContract = false) :
    e.maxSkew = h.maxSkew := by
  set K := onKey k l
  obtain ⟨hhead, hleast⟩ := top_iff.mp hw
  have hTs : ∀ c ∈ T₁ ++ e :: T₂, c ∈ K ∧ c.source = e.source := fun c hc =>
    mem_ofSource.mp (hT ▸ hc)
  have hT₁ : ∀ c ∈ T₁, c.source = e.source := fun c hc => (hTs c (List.mem_append_left _ hc)).2
  have hprefix : ∀ s, ofSource s (X ++ T₁ ++ [w, e]) <+: ofSource s K := by
    intro s
    rw [ofSource_append, ofSource_append, ofSource_of_source hT₁]
    by_cases hse : s = e.source
    · have hone : ofSource e.source [w, e] = [e] := by simp [ofSource, hne.symm]
      rw [if_pos hse, hse, hXe, hone, hT]
      exact ⟨T₂, by simp⟩
    · rw [if_neg hse, List.append_nil]
      by_cases hsw : s = w.source
      · have hone : ofSource w.source [w, e] = [w] := by simp [ofSource, hne]
        obtain ⟨W, hW⟩ := List.head?_eq_some_iff.mp hhead
        rw [hsw, hXw, hone, hW]
        exact ⟨W, rfl⟩
      · have hnone : ofSource s [w, e] = [] := by simp [ofSource, Ne.symm hse, Ne.symm hsw]
        rw [hnone, List.append_nil]
        exact hX s
  obtain ⟨post, hsame, -⟩ := front hprefix
  obtain ⟨r, hr, -, hskew⟩ := hst.meet_hard hw hmode hh hsame
  have hpre : ∀ c ∈ X ++ T₁, w.source.rank < c.source.rank := by
    intro c hc
    have hcK : c ∈ K := hsame.perm.mem_iff.mp (List.mem_append_left _ (List.mem_append_left _ hc))
    refine lt_of_le_of_ne (hleast c hcK) fun heq => ?_
    have hcw : c.source = w.source := (rank_injective heq).symm
    rcases List.mem_append.mp hc with hc | hc
    · have hmem : c ∈ ofSource w.source X := mem_ofSource.mpr ⟨hc, hcw⟩
      rw [hXw] at hmem
      cases hmem
    · exact hne ((hT₁ c hc).symm.trans hcw)
  have hpost : ∀ c ∈ e :: post, w.source.rank ≤ c.source.rank := by
    intro c hc
    refine hleast c (hsame.perm.mem_iff.mp ?_)
    rcases List.mem_cons.mp hc with rfl | hc
    · simp
    · exact List.mem_append_right _ hc
  rw [← hskew]
  exact (meet_first_bound hacc hhard hpre hsoft hpost hr).symm

/-- On a steady key every enforced bound that can come first is the best one's. -/
theorem Steady.boundsAgree (hacc : w.accepts = true) (hh : top (enforced (onKey k l)) = some h) :
    BoundsAgree (onKey k l) h.maxSkew := by
  set K := onKey k l
  obtain ⟨hhead, hleast⟩ := top_iff.mp hw
  intro s
  constructor
  · intro e he
    have hmem := List.mem_of_mem_head? he
    obtain ⟨heS, hhard⟩ := List.mem_filter.mp hmem
    obtain ⟨heK, hes⟩ := mem_ofSource.mp heS
    by_cases hsw : e.source = w.source
    · -- The winner's own source has the best enforced bound first.
      obtain ⟨hhh, hhleast⟩ := top_iff.mp hh
      have hhK : h ∈ K := (List.mem_filter.mp (Select.select_mem hh)).1
      have hsrc : h.source = e.source := by
        refine rank_injective (le_antisymm ?_ ?_)
        · exact hhleast e (List.mem_filter.mpr ⟨heK, hhard⟩)
        · rw [hsw]
          exact hleast h hhK
      rw [enforced, ofSource_filter, hsrc, hes] at hhh
      have heq : h = e := Option.some.inj (hhh.symm.trans he)
      rw [heq]
    · obtain ⟨T₁, T₂, hT, hnone, -, -⟩ := List.filter_eq_cons_iff.mp (List.eq_cons_of_mem_head? he)
      refine hst.bound_eq hw hmode hacc hh (X := []) (hes ▸ hT) hhard hsw (fun s => List.nil_prefix)
        rfl rfl fun q hq => ?_
      have hsoft : ∀ c ∈ T₁, c.hardSkewContract = false := fun c hc => by simpa using hnone c hc
      exact meet_stays_soft (fun _ hr => by cases hr) hsoft hq
  · by_cases hclear : ClearTo K s
    · exact Or.inl hclear
    · right
      intro e he
      obtain ⟨heS, hhard⟩ := List.mem_filter.mp (List.mem_of_mem_tail he)
      obtain ⟨heK, hes⟩ := mem_ofSource.mp heS
      -- Some source at or above `s` is led by a candidate that swallows bounds.
      simp only [ClearTo, not_forall] at hclear
      obtain ⟨t, hts, x, hx, hsw⟩ := hclear
      rw [Bool.not_eq_false] at hsw
      obtain ⟨hxK, hxt⟩ := mem_ofSource.mp (List.mem_of_mem_head? hx)
      have htw : t ≠ w.source := by
        rintro rfl
        have hxw : x = w := Option.some.inj (hx.symm.trans hhead)
        rw [hxw, swallows, hacc] at hsw
        cases hsw
      have hwt : w.source.rank < t.rank := by
        refine lt_of_le_of_ne (hxt ▸ hleast x hxK) fun heq => htw ?_
        exact (rank_injective heq).symm
      have hesw : e.source ≠ w.source := by
        rintro heq
        rw [← hes, heq] at hts
        omega
      obtain ⟨T₁, T₂, hT⟩ := List.append_of_mem heS
      have hTs : ∀ c ∈ T₁, c.source = s := fun c hc =>
        (mem_ofSource.mp (hT ▸ List.mem_append_left _ hc)).2
      by_cases hteq : t = s
      · refine hst.bound_eq hw hmode hacc hh (X := []) (hes ▸ hT) hhard hesw
          (fun s => List.nil_prefix) rfl rfl fun q hq => ?_
        rw [List.nil_append] at hq
        refine soft_of_swallowing_top (top_iff.mpr ⟨?_, fun c hc => ?_⟩) hsw hq
        · rw [hxt, hteq, ofSource_of_source hTs, if_pos rfl]
          rw [hteq, hT] at hx
          cases T₁ with
          | nil =>
            cases hx
            rw [swallows, hhard] at hsw
            simp at hsw
          | cons c T₁ => exact hx
        · rw [hTs c hc, hxt, hteq]
      · refine hst.bound_eq hw hmode hacc hh (X := ofSource t K) (hes ▸ hT) hhard hesw
          (fun s' => ?_) ?_ ?_ fun q hq => ?_
        · rw [ofSource_ofSource]
          split
          next hs' => rw [hs']
          next => exact List.nil_prefix
        · rw [hes, ofSource_ofSource, if_neg (Ne.symm hteq)]
        · rw [ofSource_ofSource, if_neg (Ne.symm htw)]
        · refine soft_of_swallowing_top (top_iff.mpr ⟨?_, fun c hc => ?_⟩) hsw hq
          · rw [hxt, ofSource_append, ofSource_ofSource, if_pos rfl, List.head?_append, hx]
            rfl
          · rcases List.mem_append.mp hc with hc | hc
            · rw [(mem_ofSource.mp hc).2, hxt]
            · rw [hTs c hc, hxt]
              exact hts

end

/-- On a key, the resolution of the candidates is the same in every order and keeps the
    best enforced bound, exactly when they are settled. -/
theorem resolveIntents_steady_iff (l : List Intent) (k : TopologyKey) :
    Steady l k ↔ Settled (onKey k l) := by
  refine ⟨fun hst w hw hmode h hh => ?_, steady_of_settled⟩
  by_cases hhard : w.hardSkewContract = true
  · exact Or.inl hhard
  · right
    have hacc : w.accepts = true := by
      by_contra hacc
      obtain ⟨r, hr, hrhard, -⟩ := hst.meet_hard hw hmode hh (fun _ => rfl)
      rw [meet_own_hard hw hr (Or.inl (by simpa using hacc))] at hrhard
      exact hhard hrhard
    exact ⟨hacc, hst.clearTo hw hmode hh, hst.boundsAgree hw hmode hacc hh⟩

namespace ResolveSample

/-- The advisory one of two declared cluster defaults on the zone. -/
def advisory : Intent :=
  { topologyKey := zone, source := .clusterDefaultDeclared, maxSkew := some 5,
    whenUnsatisfiable := .scheduleAnyway }

/-- The one the scheduler enforces. -/
def strict : Intent :=
  { topologyKey := zone, source := .clusterDefaultDeclared, maxSkew := some 1,
    whenUnsatisfiable := .doNotSchedule }

end ResolveSample

open ResolveSample in
/-- Declared in this order, the advisory default wins and the enforced bound is gone. -/
theorem advisory_default_drops_strict : ¬Steady [advisory, strict] zone := by
  intro hst
  have h := hst [advisory, strict] ⟨List.Perm.refl _, fun _ => rfl⟩
  have htop : top (onKey zone [advisory, strict]) = some advisory := by decide +kernel
  have hbest : top (enforced (onKey zone [advisory, strict])) = some strict := by decide +kernel
  have hsoft : ((resolveIntents [advisory, strict]).lookup zone).map (·.hardSkewContract) =
      some false := by decide +kernel
  rw [htop] at h
  obtain ⟨-, r', -, hr', -, -, -, -, hkeeps⟩ := h
  rw [hr'] at hsoft
  have hhard := (hkeeps (by decide) strict hbest).1
  rw [Option.map_some, hhard] at hsoft
  cases hsoft

end Lookout.Leeway
