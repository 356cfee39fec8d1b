-- SUMMARY: When the reduction of candidate intents keeps the enforced bound whatever their order.
import Lookout.Leeway.Intent
import Lookout.Lib.Select
import Mathlib.Data.List.Flatten

/-!
# Precedence among candidates

The candidates of one key are folded one by one. Each meets the winner so far, and an
enforced skew bound passes from the loser to the winner when the winner states no bound
of its own. Who wins does not depend on the order in which the sources are visited.
Which bound the winner ends with does. A winner so far that is `Ignore` or states a
bound nobody enforces swallows the bounds of the candidates below it, and of two
enforced bounds the one met first is kept.
-/

namespace Lookout.Leeway

namespace Intent

/-- The intent takes over a loser's bound. -/
def accepts (i : Intent) : Bool := i.mode ≠ .ignore && i.maxSkew.isNone

/-- The intent neither takes over an enforced bound nor has one. -/
def swallows (i : Intent) : Bool := !i.accepts && !i.hardSkewContract

/-- The intent without its skew bound and its evidence. -/
def bare (i : Intent) : Intent :=
  { i with maxSkew := none, whenUnsatisfiable := .unset, evidence := [] }

/-- The skew bound and what the scheduler does about it. -/
def bound (i : Intent) : Option Int × UnsatisfiableAction := (i.maxSkew, i.whenUnsatisfiable)

variable {i : Intent}

theorem accepts_iff : i.accepts = true ↔ i.mode ≠ .ignore ∧ i.maxSkew = none := by
  simp [accepts]

theorem not_hard_of_accepts (h : i.accepts = true) : i.hardSkewContract = false := by
  rw [← Bool.not_eq_true, hardSkewContract_iff, (accepts_iff.mp h).2]
  simp

theorem carryContract_eq (winner losing : Intent) :
    carryContract winner losing =
      if winner.accepts ∧ losing.hardSkewContract then
        { winner with maxSkew := losing.maxSkew, whenUnsatisfiable := .doNotSchedule }
      else winner := by
  simp only [carryContract, accepts_iff, hardSkewContract_iff]
  by_cases hmode : winner.mode = .ignore
  · simp [hmode]
  cases winner.maxSkew with
  | some _ => simp [hmode]
  | none =>
    cases losing.maxSkew with
    | none => simp [hmode]
    | some _ =>
      by_cases hdns : losing.whenUnsatisfiable = .doNotSchedule <;> simp [hmode, hdns, ite_not]

/-- The winner of a meeting and the loser. -/
def sides (cur c : Intent) : Intent × Intent :=
  if c.source.outranks cur.source then (c, cur) else (cur, c)

variable (cur c : Intent)

theorem contest_bare : (contest (some cur) c).bare = (sides cur c).1.bare := by
  simp only [contest, sides]
  split <;> (rw [carryContract_eq]; split <;> rfl)

theorem contest_bound :
    (contest (some cur) c).bound =
      if (sides cur c).1.accepts ∧ (sides cur c).2.hardSkewContract then
        ((sides cur c).2.maxSkew, .doNotSchedule)
      else (sides cur c).1.bound := by
  simp only [contest, sides]
  split
  · rw [carryContract_eq]
    exact apply_ite bound _ _ _
  · rw [carryContract_eq]
    exact apply_ite bound _ _ _

theorem sides_rank : (sides cur c).1.source.rank ≤ (sides cur c).2.source.rank := by
  rw [sides]
  split
  next h => exact (of_decide_eq_true h).le
  next h => exact not_lt.mp fun hlt => h (decide_eq_true hlt)

variable {j : Intent}

theorem hard_of_bound (hsrc : i.source = j.source) (h : i.bound = j.bound) :
    i.hardSkewContract = j.hardSkewContract := by
  obtain ⟨hskew, hwhen⟩ := Prod.mk.inj h
  rw [hardSkewContract, hardSkewContract, declaredContract, declaredContract, hsrc, hskew, hwhen]

theorem source_of_bare (h : i.bare = j.bare) : i.source = j.source := by
  have hsrc : i.bare.source = j.bare.source := by rw [h]
  exact hsrc

theorem mode_of_bare (h : i.bare = j.bare) : i.mode = j.mode := by
  have hmode : i.bare.mode = j.bare.mode := by rw [h]
  exact hmode

/-- After a meeting the bound is enforced if the winner's was, or if it took over the
    loser's. -/
theorem contest_hard :
    (contest (some cur) c).hardSkewContract =
      ((sides cur c).1.hardSkewContract ||
        (sides cur c).1.accepts && (sides cur c).2.hardSkewContract) := by
  have hsrc : (contest (some cur) c).source = (sides cur c).1.source :=
    source_of_bare (contest_bare cur c)
  have hbound := contest_bound cur c
  by_cases h : (sides cur c).1.accepts ∧ (sides cur c).2.hardSkewContract
  · rw [if_pos h] at hbound
    obtain ⟨hskew, hwhen⟩ := Prod.mk.inj hbound
    obtain ⟨hdecl, hsome, -⟩ := hardSkewContract_iff.mp h.2
    have hrank := sides_rank cur c
    have hassumed : (sides cur c).1.source ≠ .clusterDefaultAssumed := by
      intro heq
      rw [heq] at hrank
      exact hdecl (IntentSource.rank_injective
        (le_antisymm (IntentSource.rank_le_assumed _) hrank))
    rw [h.1, h.2, Bool.and_true, Bool.or_true]
    exact hardSkewContract_iff.mpr ⟨by rwa [hsrc], by rwa [hskew], hwhen⟩
  · rw [if_neg h] at hbound
    have hfalse : ((sides cur c).1.accepts && (sides cur c).2.hardSkewContract) = false := by
      simpa using h
    rw [hfalse, Bool.or_false]
    exact hard_of_bound hsrc hbound

end Intent

open Intent

/-! ## The candidates of one key -/

/-- The candidates on one key, in order. -/
def onKey (k : TopologyKey) (l : List Intent) : List Intent := l.filter (·.topologyKey = k)

/-- The candidates of one source, in order. -/
def ofSource (s : IntentSource) (l : List Intent) : List Intent := l.filter (·.source = s)

/-- The candidates of least source, the first among equals. -/
def top (l : List Intent) : Option Intent :=
  Select.select (fun a b => a.source.outranks b.source) l

/-- The candidates whose skew bound is declared and enforced. -/
def enforced (l : List Intent) : List Intent := l.filter (·.hardSkewContract)

/-- The winner after the candidates of one key were folded in. -/
def meet (l : List Intent) : Option Intent := l.foldl (fun cur c => some (contest cur c)) none

/-- `l'` visits the candidates of `l` in another order, but each source's in the same. -/
def SameBySource (l l' : List Intent) : Prop := ∀ s, ofSource s l' = ofSource s l

theorem lookup_resolveIntents (l : List Intent) (k : TopologyKey) :
    (resolveIntents l).lookup k = meet (onKey k l) := by
  change _ = List.foldl _ ((∅ : Map TopologyKey Intent).lookup k) _
  unfold resolveIntents
  generalize (∅ : Map TopologyKey Intent) = winners
  induction l generalizing winners with
  | nil => rfl
  | cons c l ih =>
    rw [List.foldl_cons, ih, Map.lookup_insert]
    by_cases hk : c.topologyKey = k
    · subst hk
      simp [onKey]
    · simp [onKey, hk, Ne.symm hk]

theorem meet_append_singleton (l : List Intent) (c : Intent) :
    meet (l ++ [c]) = some (contest (meet l) c) := by
  rw [meet, List.foldl_append]
  rfl

theorem top_append_singleton (l : List Intent) (c : Intent) :
    top (l ++ [c]) =
      Select.round (fun a b => a.source.outranks b.source) (top l) c := by
  rw [top, Select.select, List.foldl_append]
  rfl

variable {l l' : List Intent} {r f c w r' : Intent}

theorem mem_ofSource {s : IntentSource} : c ∈ ofSource s l ↔ c ∈ l ∧ c.source = s := by
  simp [ofSource]

theorem ofSource_append (s : IntentSource) (l l' : List Intent) :
    ofSource s (l ++ l') = ofSource s l ++ ofSource s l' := List.filter_append _ _

theorem ofSource_filter (s : IntentSource) (p : Intent → Bool) (l : List Intent) :
    ofSource s (l.filter p) = (ofSource s l).filter p := by
  rw [ofSource, ofSource, List.filter_filter, List.filter_filter]
  exact List.filter_congr fun x _ => Bool.and_comm _ _

theorem SameBySource.filter (h : SameBySource l l') (p : Intent → Bool) :
    SameBySource (l.filter p) (l'.filter p) := by
  intro s
  rw [ofSource_filter, ofSource_filter, h]

/-- Visiting each source in the same order visits the same candidates as often. -/
theorem SameBySource.perm (h : SameBySource l l') : l'.Perm l := by
  rw [List.perm_iff_count]
  intro c
  have hcount : ∀ m : List Intent, (ofSource c.source m).count c = m.count c := by
    intro m
    exact List.count_filter (by simp)
  rw [← hcount l, ← hcount, h]

theorem ofSource_eq_nil {s : IntentSource} (h : ∀ c ∈ l, c.source ≠ s) : ofSource s l = [] :=
  List.filter_eq_nil_iff.mpr fun c hc => by simp [h c hc]

theorem top_spec (h : top l = some w) :
    (ofSource w.source l).head? = some w ∧ ∀ c ∈ l, w.source.rank ≤ c.source.rank := by
  induction l using List.reverseRecOn generalizing w with
  | nil => cases h
  | append_singleton l c ih =>
    rw [top_append_singleton] at h
    cases htop : top l with
    | none =>
      rw [htop] at h
      cases h
      obtain rfl : l = [] := Select.select_eq_none.mp htop
      simp [ofSource]
    | some f =>
      obtain ⟨hhead, hleast⟩ := ih htop
      rw [htop, Select.round] at h
      rw [ofSource_append, List.head?_append, List.forall_mem_append, List.forall_mem_singleton]
      split at h
      next hc =>
        cases h
        have hlt : c.source.rank < f.source.rank := of_decide_eq_true hc
        -- Nothing before `c` comes from so high a source.
        have hnone : ofSource c.source l = [] := ofSource_eq_nil fun x hx heq =>
          absurd (heq ▸ hleast x hx) (not_le.mpr hlt)
        exact ⟨by rw [hnone]; simp [ofSource], fun x hx => hlt.le.trans (hleast x hx), le_rfl⟩
      next hc =>
        cases h
        exact ⟨by rw [hhead]; rfl, hleast, not_lt.mp fun hlt => hc (decide_eq_true hlt)⟩

/-- The winner is the first candidate of the least source. -/
theorem top_iff :
    top l = some w ↔
      (ofSource w.source l).head? = some w ∧ ∀ c ∈ l, w.source.rank ≤ c.source.rank := by
  refine ⟨top_spec, fun ⟨hhead, hleast⟩ => ?_⟩
  have hw : w ∈ l := (mem_ofSource.mp (List.mem_of_mem_head? hhead)).1
  cases hv : top l with
  | none =>
    rw [Select.select_eq_none.mp hv] at hw
    cases hw
  | some v =>
    obtain ⟨hfirst, hleast'⟩ := top_spec hv
    have hsrc : v.source = w.source :=
      IntentSource.rank_injective (le_antisymm (hleast' w hw) (hleast v (Select.select_mem hv)))
    rw [hsrc] at hfirst
    exact hfirst.symm.trans hhead

theorem SameBySource.top_eq (h : SameBySource l l') : top l' = top l := by
  refine Option.ext fun w => ?_
  rw [top_iff, top_iff, h]
  simp only [h.perm.mem_iff]

/-! ## What one meeting does -/

/-- The ways candidate `c` can meet the winner among the candidates `l` before it, with
    `r'` the winner afterwards. -/
inductive Meets (l : List Intent) (c r' : Intent) : Prop
  | first (hl : l = []) (htop : top (l ++ [c]) = some c) (heq : r' = c)
  | loses {f r : Intent} (hf : top l = some f) (hr : meet l = some r) (hbare : r.bare = f.bare)
      (htop : top (l ++ [c]) = some f) (hbare' : r'.bare = f.bare)
      (hbound : r'.bound =
        if r.accepts ∧ c.hardSkewContract then (c.maxSkew, .doNotSchedule) else r.bound)
      (hhard : r'.hardSkewContract = (r.hardSkewContract || r.accepts && c.hardSkewContract))
  | wins {f r : Intent} (hf : top l = some f) (hr : meet l = some r) (hbare : r.bare = f.bare)
      (hout : c.source.rank < f.source.rank) (htop : top (l ++ [c]) = some c) (hbare' : r'.bare = c.bare)
      (hbound : r'.bound =
        if c.accepts ∧ r.hardSkewContract then (r.maxSkew, .doNotSchedule) else c.bound)
      (hhard : r'.hardSkewContract = (c.hardSkewContract || c.accepts && r.hardSkewContract))

theorem Meets.top_eq (h : Meets l c r') : ∃ g, top (l ++ [c]) = some g ∧ r'.bare = g.bare := by
  cases h with
  | first hl htop heq => exact ⟨c, htop, by rw [heq]⟩
  | loses hf hr hbare htop hbare' hbound hhard | wins hf hr hbare hout htop hbare' hbound hhard =>
    exact ⟨_, htop, hbare'⟩

theorem meets (hr : meet (l ++ [c]) = some r') : Meets l c r' := by
  induction l using List.reverseRecOn generalizing c r' with
  | nil =>
    cases hr
    exact .first rfl rfl rfl
  | append_singleton l e ih =>
    obtain ⟨r, hr₀⟩ : ∃ r, meet (l ++ [e]) = some r := ⟨_, meet_append_singleton l e⟩
    obtain ⟨f, hf, hbare⟩ := (ih hr₀).top_eq
    rw [meet_append_singleton, hr₀] at hr
    cases hr
    have hrank := source_of_bare hbare
    have htop := top_append_singleton (l ++ [e]) c
    rw [hf, Select.round] at htop
    have hbare' := contest_bare r c
    have hbound := contest_bound r c
    have hhard := contest_hard r c
    by_cases hout : c.source.outranks r.source
    · rw [sides, if_pos hout] at hbare' hbound hhard
      rw [← hrank, if_pos hout] at htop
      exact .wins hf hr₀ hbare (hrank ▸ of_decide_eq_true hout) htop hbare' hbound hhard
    · rw [sides, if_neg hout] at hbare' hbound hhard
      rw [← hrank, if_neg hout] at htop
      exact .loses hf hr₀ hbare htop (hbare'.trans hbare) hbound hhard

theorem meet_isSome (hf : top l = some f) : ∃ r, meet l = some r ∧ r.bare = f.bare := by
  cases l using List.reverseRecOn with
  | nil => cases hf
  | append_singleton l c =>
    obtain ⟨g, hg, hbare⟩ := (meets (meet_append_singleton l c)).top_eq
    cases hg.symm.trans hf
    exact ⟨_, meet_append_singleton l c, hbare⟩

theorem meet_bare (hf : top l = some f) (hr : meet l = some r) : r.bare = f.bare := by
  obtain ⟨r', hr', hbare⟩ := meet_isSome hf
  cases hr'.symm.trans hr
  exact hbare

theorem accepts_congr (hbare : r.bare = f.bare) (hbound : r.bound = f.bound) :
    r.accepts = f.accepts := by
  rw [accepts, accepts, mode_of_bare hbare, (Prod.mk.inj hbound).1]

/-! ## What the fold keeps -/

section

variable (hf : top l = some f) (hr : meet l = some r)
  (hown : f.accepts = false ∨ ∀ c ∈ l, c.hardSkewContract = false)

include hf hr hown

/-- The winner keeps its own bound if it does not take over bounds, or if no candidate
    has an enforced one. -/
theorem meet_own : r.bound = f.bound := by
  induction l using List.reverseRecOn generalizing f r with
  | nil => cases hr
  | append_singleton l c ih =>
    cases meets hr with
    | first hl htop heq =>
      cases htop.symm.trans hf
      rw [heq]
    | loses he hm hbare htop hbare' hbound hhard =>
      cases htop.symm.trans hf
      have hold := ih he hm (hown.imp_right fun h x hx => h x (List.mem_append_left _ hx))
      rw [hbound, if_neg, hold]
      rintro ⟨hacc, hc⟩
      rcases hown with h | h
      · rw [accepts_congr hbare hold, h] at hacc
        cases hacc
      · rw [h c (by simp)] at hc
        cases hc
    | wins he hm hbare hout htop hbare' hbound hhard =>
      cases htop.symm.trans hf
      rw [hbound, if_neg]
      rintro ⟨hacc, hc⟩
      rcases hown with h | h
      · rw [h] at hacc
        cases hacc
      · have hsoft : ∀ x ∈ l, x.hardSkewContract = false :=
          fun x hx => h x (List.mem_append_left _ hx)
        have hold := ih he hm (Or.inr hsoft)
        rw [hard_of_bound (source_of_bare hbare) hold, hsoft _ (Select.select_mem he)] at hc
        cases hc

theorem meet_own_hard : r.hardSkewContract = f.hardSkewContract :=
  hard_of_bound (source_of_bare (meet_bare hf hr)) (meet_own hf hr hown)

end

/-- A winner that takes over bounds still does, or took over an enforced one. -/
theorem meet_takes (hf : top l = some f) (hr : meet l = some r) (hacc : f.accepts = true) :
    r.accepts = true ∨ r.hardSkewContract = true := by
  induction l using List.reverseRecOn generalizing f r with
  | nil => cases hr
  | append_singleton l c ih =>
    cases meets hr with
    | first hl htop heq =>
      cases htop.symm.trans hf
      rw [heq]
      exact Or.inl hacc
    | @loses e r he hm hbare htop hbare' hbound hhard =>
      cases htop.symm.trans hf
      by_cases htake : r.accepts ∧ c.hardSkewContract
      · exact Or.inr (by rw [hhard, htake.1, htake.2]; simp)
      · rw [if_neg htake] at hbound
        refine (ih he hm hacc).imp (fun h => ?_) fun h => by rw [hhard, h]; rfl
        rwa [accepts_congr (hbare'.trans hbare.symm) hbound]
    | @wins e r he hm hbare hout htop hbare' hbound hhard =>
      cases htop.symm.trans hf
      by_cases htake : c.accepts ∧ r.hardSkewContract
      · exact Or.inr (by rw [hhard, htake.1, htake.2]; simp)
      · rw [if_neg htake] at hbound
        exact Or.inl (by rwa [accepts_congr hbare' hbound])

/-- No source that ranks with `s` or above is led by a candidate that swallows bounds. -/
def ClearTo (l : List Intent) (s : IntentSource) : Prop :=
  ∀ t : IntentSource, t.rank ≤ s.rank → ∀ x ∈ (ofSource t l).head?, x.swallows = false

/-- Every enforced bound that can be the first to reach the winner is `b`. -/
def BoundsAgree (l : List Intent) (b : Option Int) : Prop :=
  ∀ s : IntentSource, (∀ h ∈ (enforced (ofSource s l)).head?, h.maxSkew = b) ∧
    (ClearTo l s ∨ ∀ h ∈ (enforced (ofSource s l)).tail, h.maxSkew = b)

theorem head?_of_top (hf : top l = some f) : (ofSource f.source (l ++ l')).head? = some f := by
  rw [ofSource_append, List.head?_append, (top_iff.mp hf).1]
  rfl

theorem enforced_head? (hhead : l.head? = some f) (hhard : f.hardSkewContract = true) :
    (enforced l).head? = some f := by
  cases l with
  | nil => cases hhead
  | cons g l =>
    cases hhead
    rw [enforced, List.filter_cons_of_pos hhard]
    rfl

/-- Once an enforced bound was met with nothing above it that swallows bounds, the winner
    has one. Where it has one, it is the agreed one. -/
theorem meet_keeps {b : Option Int} (hagree : BoundsAgree (l ++ l') b) (hr : meet l = some r) :
    (r.hardSkewContract = true → r.maxSkew = b) ∧
      ∀ e ∈ l, e.hardSkewContract = true → ClearTo (l ++ l') e.source →
        r.hardSkewContract = true := by
  induction l using List.reverseRecOn generalizing l' r with
  | nil => cases hr
  | append_singleton l c ih =>
    -- A winner among those visited leads its source in the whole list.
    have hleads : ∀ g, top (l ++ [c]) = some g → g.hardSkewContract = true → g.maxSkew = b :=
      fun g hg hhard => (hagree g.source).1 g (enforced_head? (head?_of_top hg) hhard)
    have hclear : ∀ g, top (l ++ [c]) = some g → ∀ e ∈ l ++ [c],
        ClearTo (l ++ [c] ++ l') e.source → g.swallows = false :=
      fun g hg e he hopen => hopen g.source ((top_iff.mp hg).2 e he) g (head?_of_top hg)
    have hassoc : l ++ [c] ++ l' = l ++ (c :: l') := by simp
    cases meets hr with
    | first hl htop heq =>
      subst hl heq
      refine ⟨hleads _ htop, fun e he hhard _ => ?_⟩
      rw [List.nil_append, List.mem_singleton] at he
      rwa [← he]
    | @loses f r hf hm hbare htop hbare' hbound hhard =>
      obtain ⟨hold, hmet⟩ := ih (hassoc ▸ hagree) hm
      constructor
      · intro hr'
        by_cases htake : r.accepts ∧ c.hardSkewContract
        · rw [if_pos htake] at hbound
          rw [(Prod.mk.inj hbound).1]
          -- Had an enforced bound of the same source come earlier, the winner would not
          -- be without one.
          have hsplit : enforced (ofSource c.source (l ++ [c] ++ l')) =
              enforced (ofSource c.source l) ++ c :: enforced (ofSource c.source l') := by
            simp [ofSource, enforced, htake.2]
          obtain ⟨hfirst, hlater⟩ := hagree c.source
          rw [hsplit] at hfirst hlater
          cases hearlier : enforced (ofSource c.source l) with
          | nil =>
            rw [hearlier] at hfirst
            exact hfirst c rfl
          | cons e es =>
            rw [hearlier] at hlater
            rcases hlater with hopen | hall
            · have he : e ∈ enforced (ofSource c.source l) := by
                rw [hearlier]
                exact List.mem_cons_self
              obtain ⟨hmem, hehard⟩ := List.mem_filter.mp he
              obtain ⟨hel, hes⟩ := mem_ofSource.mp hmem
              have := hmet e hel hehard (by rw [hes, ← hassoc]; exact hopen)
              rw [not_hard_of_accepts htake.1] at this
              cases this
            · exact hall c (by simp)
        · rw [if_neg htake] at hbound
          have hr : r.hardSkewContract = true := by
            rw [← hard_of_bound (source_of_bare (hbare'.trans hbare.symm)) hbound]
            exact hr'
          rw [(Prod.mk.inj hbound).1]
          exact hold hr
      · intro e he hehard hopen
        rw [hhard, Bool.or_eq_true, Bool.and_eq_true]
        rcases List.mem_append.mp he with hel | hec
        · exact Or.inl (hmet e hel hehard (hassoc ▸ hopen))
        · rw [List.mem_singleton.mp hec] at hehard
          have hsw := hclear f htop e he hopen
          by_cases hacc : f.accepts = true
          · by_cases hracc : r.accepts = true
            · exact Or.inr ⟨hracc, hehard⟩
            · exact Or.inl ((meet_takes hf hm hacc).resolve_left hracc)
          · rw [meet_own_hard hf hm (Or.inl (by simpa using hacc))]
            rw [swallows] at hsw
            simp [hacc] at hsw
            exact Or.inl hsw
    | @wins f r hf hm hbare hout htop hbare' hbound hhard =>
      obtain ⟨hold, hmet⟩ := ih (hassoc ▸ hagree) hm
      constructor
      · intro hr'
        by_cases htake : c.accepts ∧ r.hardSkewContract
        · rw [if_pos htake] at hbound
          rw [(Prod.mk.inj hbound).1]
          exact hold htake.2
        · rw [if_neg htake] at hbound
          rw [(Prod.mk.inj hbound).1]
          refine hleads c htop ?_
          rw [← hard_of_bound (source_of_bare hbare') hbound]
          exact hr'
      · intro e he hehard hopen
        rw [hhard, Bool.or_eq_true, Bool.and_eq_true]
        have hsw := hclear c htop e he hopen
        rw [swallows] at hsw
        by_cases hc : c.hardSkewContract = true
        · exact Or.inl hc
        · rcases List.mem_append.mp he with hel | hec
          · refine Or.inr ⟨?_, hmet e hel hehard (hassoc ▸ hopen)⟩
            simpa [hc] using hsw
          · rw [List.mem_singleton.mp hec] at hehard
            exact absurd hehard hc

/-! ## Orders that lose a bound -/

/-- A winner without an enforced bound gets none from candidates that have none. -/
theorem meet_stays_soft (hsoft : ∀ r, meet l = some r → r.hardSkewContract = false)
    (hnone : ∀ c ∈ l', c.hardSkewContract = false) (hr' : meet (l ++ l') = some r') :
    r'.hardSkewContract = false := by
  induction l' using List.reverseRecOn generalizing r' with
  | nil =>
    rw [List.append_nil] at hr'
    exact hsoft r' hr'
  | append_singleton l' c ih =>
    rw [← List.append_assoc] at hr'
    have hc := hnone c (by simp)
    have hold := fun {q} (hq : meet (l ++ l') = some q) =>
      ih (fun x hx => hnone x (List.mem_append_left _ hx)) hq
    cases meets hr' with
    | first hl htop heq => rw [heq, hc]
    | loses hf hm hbare htop hbare' hbound hhard | wins hf hm hbare hout htop hbare' hbound hhard =>
      rw [hhard, hold hm, hc, Bool.and_false]; rfl

/-- A winner that has a bound keeps it while nothing outranks it. -/
theorem meet_stays_bound (hw : top l = some w) (hr : meet l = some r) (hfull : r.accepts = false)
    (hbelow : ∀ c ∈ l', w.source.rank ≤ c.source.rank) (hr' : meet (l ++ l') = some r') :
    r'.bound = r.bound ∧ top (l ++ l') = some w := by
  induction l' using List.reverseRecOn generalizing r' with
  | nil =>
    rw [List.append_nil] at hr' ⊢
    rw [hr] at hr'
    cases hr'
    exact ⟨rfl, hw⟩
  | append_singleton l' c ih =>
    rw [← List.append_assoc] at hr' ⊢
    have hold := fun {q} (hq : meet (l ++ l') = some q) =>
      ih (fun x hx => hbelow x (List.mem_append_left _ hx)) hq
    cases meets hr' with
    | first hl htop heq =>
      have hnil := (List.append_eq_nil_iff.mp hl).1
      rw [hnil] at hr
      cases hr
    | @loses f q hf hm hbare htop hbare' hbound hhard =>
      obtain ⟨hq, htopq⟩ := hold hm
      cases hf.symm.trans htopq
      refine ⟨?_, htop⟩
      rw [hbound, if_neg, hq]
      rintro ⟨hacc, -⟩
      rw [accepts_congr (hbare.trans (meet_bare hw hr).symm) hq, hfull] at hacc
      cases hacc
    | @wins f q hf hm hbare hout htop hbare' hbound hhard =>
      obtain ⟨-, htopq⟩ := hold hm
      cases hf.symm.trans htopq
      have hle := hbelow c (by simp)
      omega

/-- A winner without a bound of its own takes the first enforced one it meets, if the
    candidates before it pass none on. -/
theorem meet_first_bound {pre post : List Intent} {h : Intent} (hacc : w.accepts = true)
    (hhard : h.hardSkewContract = true) (hpre : ∀ c ∈ pre, w.source.rank < c.source.rank)
    (hsoft : ∀ q, meet pre = some q → q.hardSkewContract = false)
    (hpost : ∀ c ∈ h :: post, w.source.rank ≤ c.source.rank)
    (hr : meet (pre ++ [w, h] ++ post) = some r) : r.maxSkew = h.maxSkew := by
  have htopw : top (pre ++ [w]) = some w := by
    refine top_iff.mpr ⟨?_, ?_⟩
    · have hnone : ofSource w.source pre = [] :=
        ofSource_eq_nil fun x hx heq => (hpre x hx).ne (by rw [heq])
      rw [ofSource_append, hnone]
      simp [ofSource]
    · rw [List.forall_mem_append, List.forall_mem_singleton]
      exact ⟨fun c hc => (hpre c hc).le, le_rfl⟩
  obtain ⟨q, hq⟩ : ∃ q, meet (pre ++ [w]) = some q := ⟨_, meet_append_singleton pre w⟩
  have hqbound : q.bound = w.bound := by
    cases meets hq with
    | first hl htop heq => rw [heq]
    | loses hf hm hbare htop hbare' hbound hh =>
      cases htop.symm.trans htopw
      exact absurd (hpre w (Select.select_mem hf)) (lt_irrefl _)
    | wins hf hm hbare hout htop hbare' hbound hh =>
      rw [hsoft _ hm, if_neg (by simp)] at hbound
      exact hbound
  have hqacc : q.accepts = true := by rw [accepts_congr (meet_bare htopw hq) hqbound, hacc]
  obtain ⟨q', hq'⟩ : ∃ q', meet (pre ++ [w] ++ [h]) = some q' := ⟨_, meet_append_singleton _ h⟩
  have hle : w.source.rank ≤ h.source.rank := hpost h List.mem_cons_self
  have hq'bound : q'.bound = (h.maxSkew, .doNotSchedule) ∧ top (pre ++ [w] ++ [h]) = some w := by
    cases meets hq' with
    | first hl htop heq => simp at hl
    | loses hf hm hbare htop hbare' hbound hh =>
      cases hq.symm.trans hm
      cases htopw.symm.trans hf
      rw [if_pos ⟨hqacc, hhard⟩] at hbound
      exact ⟨hbound, htop⟩
    | wins hf hm hbare hout htop hbare' hbound hh =>
      cases htopw.symm.trans hf
      omega
  have hfull : q'.accepts = false := by
    rw [accepts, (Prod.mk.inj hq'bound.1).1]
    obtain ⟨v, hv⟩ := Option.isSome_iff_exists.mp (hardSkewContract_iff.mp hhard).2.1
    simp [hv]
  have hassoc : pre ++ [w, h] ++ post = pre ++ [w] ++ [h] ++ post := by simp
  rw [hassoc] at hr
  have hfinal := (meet_stays_bound hq'bound.2 hq' hfull
    (fun c hc => hpost c (List.mem_cons_of_mem h hc)) hr).1
  rw [(Prod.mk.inj hfinal).1, (Prod.mk.inj hq'bound.1).1]

end Lookout.Leeway
