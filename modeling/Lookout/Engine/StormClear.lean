-- SUMMARY: A storm is declared over when the last incident reported into it has cleared.
import Lookout.Engine.StormRuns

/-!
# The all-clear of a storm

The life of a storm starts with the observation that forms it and goes on while it
is open. The incidents of a life are those that observations report into the storm.
An incident is clear when its last event is a clearance, with no re-fire and no
reversal after it. In an orderly run the storm's own map says just that, so the
counter reaches zero with the last clearance and not before.
-/

namespace Lookout.Engine

variable {form s : StormStep} {c : StormCorrelator} {id : GoString} {key : EventKey}
  {steps : List StormStep}

namespace StormCorrelator

/-! ## Lives, incidents and clearances -/

/-- The storm that the call forms. -/
def forms (c : StormCorrelator) : StormStep → Option GoString
  | .observe now fleet topo sig =>
    match (c.observe now fleet topo sig).2 with
    | .formed info _ _ => some info.id
    | _ => none
  | _ => none

/-- The incidents that the call reports into the storm `id`. A formation reports those
    it takes out of the window, whether or not their records are retained. -/
def reports (c : StormCorrelator) (id : GoString) : StormStep → List EventKey
  | .observe now fleet topo sig =>
    match (c.observe now fleet topo sig).2 with
    | .attached info m _ => if info.id = id then [m.key] else []
    | .formed info _ m =>
      if info.id = id then
        (m.key :: (c.prune now).windowKeys).filter
          (· ∉ (c.observe now fleet topo sig).1.windowKeys)
      else []
    | .none => []
  | _ => []

/-- The call is a clearance of `k`. -/
def Clears (k : EventKey) : StormStep → Prop
  | .memberResolved key => key.canonical = k
  | _ => False

/-- The call is a re-fire or a reversal of `k`. -/
def Rearms (k : EventKey) : StormStep → Prop
  | .observe _ _ _ sig => sig.canonicalKey = k
  | .memberReverted _ key => key.canonical = k
  | _ => False

/-- The incident `k` has been cleared, with no re-fire or reversal since. -/
def Cleared (k : EventKey) (steps : List StormStep) : Prop :=
  ∃ before s after, steps = before ++ s :: after ∧ Clears k s ∧ ∀ s' ∈ after, ¬Rearms k s'

/-- The incidents that the calls of `steps`, from the state `c`, report into the storm. -/
def reported (c : StormCorrelator) (id : GoString) : List StormStep → List EventKey
  | [] => []
  | s :: steps => c.reports id s ++ reported (c.step s) id steps

/-- A life of the storm `id`: `form` forms it in the state `c`, and after every call of
    `steps` the same storm is still open. -/
def Life (c : StormCorrelator) (id : GoString) (form : StormStep) (steps : List StormStep) : Prop :=
  c.forms form = some id ∧ ∀ before s after, steps = before ++ s :: after →
    (c.run (form :: before)).forms s ≠ some id ∧
      (c.run (form :: (before ++ [s]))).storms.lookup id ≠ none

theorem run_append (c : StormCorrelator) (l l' : List StormStep) :
    c.run (l ++ l') = (c.run l).run l' := List.foldl_append

theorem cleared_append {k : EventKey} :
    Cleared k (steps ++ [s]) ↔ Clears k s ∨ (¬Rearms k s ∧ Cleared k steps) := by
  constructor
  · rintro ⟨before, t, after, hsplit, hclears, hafter⟩
    rcases Run.append_singleton_split hsplit with ⟨rfl, rfl, rfl⟩ | ⟨rest, rfl, rfl⟩
    · exact Or.inl hclears
    · exact Or.inr ⟨hafter s (List.mem_append_right _ List.mem_cons_self), before, t, rest, rfl,
        hclears, fun s' hs' => hafter s' (List.mem_append_left _ hs')⟩
  · rintro (hclears | ⟨hs, before, t, after, rfl, hclears, hafter⟩)
    · exact ⟨steps, s, [], rfl, hclears, List.forall_mem_nil _⟩
    · refine ⟨before, t, after ++ [s], by simp, hclears, fun s' hs' => ?_⟩
      rcases List.mem_append.1 hs' with hs' | hs'
      · exact hafter s' hs'
      · exact List.mem_singleton.1 hs' ▸ hs

theorem reported_append (c : StormCorrelator) (id : GoString) (steps : List StormStep)
    (s : StormStep) :
    c.reported id (steps ++ [s]) = c.reported id steps ++ (c.run steps).reports id s := by
  induction steps generalizing c with
  | nil => simp [reported, run]
  | cons t steps ih =>
    rw [List.cons_append, reported, reported, ih, List.append_assoc]
    rfl

theorem life_append :
    Life c id form (steps ++ [s]) ↔
      Life c id form steps ∧ (c.run (form :: steps)).forms s ≠ some id ∧
        (c.run (form :: (steps ++ [s]))).storms.lookup id ≠ none := by
  constructor
  · rintro ⟨hform, hlife⟩
    refine ⟨⟨hform, ?_⟩, hlife steps s [] rfl⟩
    rintro before t after rfl
    exact hlife before t (after ++ [s]) (by simp)
  · rintro ⟨⟨hform, hlife⟩, hlast⟩
    refine ⟨hform, fun before t after hsplit => ?_⟩
    rcases Run.append_singleton_split hsplit with ⟨rfl, rfl, rfl⟩ | ⟨rest, rfl, rfl⟩
    · exact hlast
    · exact hlife before t rest rfl

theorem orderlyRun_append {counts : Bool → Prop} {l l' : List StormStep} :
    OrderlyRun counts c (l ++ l') ↔ OrderlyRun counts c l ∧ OrderlyRun counts (c.run l) l' := by
  rw [orderlyRun_iff, orderlyRun_iff, orderlyRun_iff, Run.steps_append]
  rfl

/-- Every member of an open storm, cleared or not. -/
def AnyMember (_ : Bool) : Prop := True

theorem owned_run (hi : c.Indexed) (h : c.ledger.Owned AnyMember)
    (horder : OrderlyRun AnyMember c steps) : (c.run steps).ledger.Owned AnyMember := by
  refine (Run.invariant (P := fun c : StormCorrelator => c.Indexed ∧ c.ledger.Owned AnyMember)
    (fun c s h horder => ?_) ⟨hi, h⟩ (orderlyRun_iff.1 horder)).2
  exact ⟨(step_effect h.1 s).2, Orderly.owned (show AnyMember false from trivial) horder h.2 h.1⟩

/-! ## One call -/

/-- The storm `id` knows just the reported incidents, and just the cleared ones as
    resolved. -/
structure Tally (c : StormCorrelator) (id : GoString) (reported cleared : EventKey → Prop) :
    Prop where
  known : ∀ k, reported k ↔ c.ledger.status id k ≠ none
  settled : ∀ k, reported k → (c.ledger.status id k = some true ↔ cleared k)

section Step

variable {c' : StormCorrelator} {reported cleared : EventKey → Prop}

/-- A call that leaves the storm's members alone. -/
theorem Tally.same (h : Tally c id reported cleared)
    (hstatus : ∀ k, c'.ledger.status id k = c.ledger.status id k)
    (hreports : ∀ k, k ∉ c.reports id s) (hclears : ∀ k, reported k → ¬Clears k s)
    (hrearms : ∀ k, reported k → Rearms k s → c.ledger.status id k ≠ some true) :
    Tally c' id (fun k => reported k ∨ k ∈ c.reports id s)
      (fun k => Clears k s ∨ (¬Rearms k s ∧ cleared k)) where
  known k := by
    rw [hstatus, ← h.known, or_iff_left (hreports k)]
  settled k hk := by
    have hk := hk.resolve_right (hreports k)
    rw [hstatus, or_iff_right (hclears k hk)]
    by_cases hr : Rearms k s
    · exact ⟨fun htrue => absurd htrue (hrearms k hk hr), fun hc => absurd hr hc.1⟩
    · rw [h.settled k hk, and_iff_right hr]

/-- A call that reports nothing and sets the mark of one member. -/
theorem Tally.mark (h : Tally c id reported cleared) {g : GoString} {b : Bool}
    (hledger : c'.ledger = c.ledger.mark g key b) (hknown : c.ledger.status g key ≠ none)
    (howner : reported key → g = id) (hreports : c.reports id s = [])
    (hkey : Clears key s ∨ (¬Rearms key s ∧ cleared key) ↔ b = true)
    (hother : ∀ k, k ≠ key → ¬Clears k s ∧ ¬Rearms k s) :
    Tally c' id (fun k => reported k ∨ k ∈ c.reports id s)
      (fun k => Clears k s ∨ (¬Rearms k s ∧ cleared k)) := by
  have hstatus : ∀ k, c'.ledger.status id k =
      if id = g ∧ k = key then some b else c.ledger.status id k := by
    intro k
    rw [hledger, Ledger.status_mark]
    congr
  rw [hreports]
  constructor
  · intro k
    rw [hstatus, or_iff_left List.not_mem_nil, h.known]
    split
    · next hk => simpa [hk.1, hk.2] using hknown
    · rfl
  · intro k hk
    have hk := hk.resolve_right List.not_mem_nil
    rw [hstatus]
    by_cases heq : k = key
    · subst heq
      rw [if_pos ⟨(howner hk).symm, rfl⟩, hkey, Option.some_inj]
    · obtain ⟨hclears, hrearms⟩ := hother k heq
      rw [if_neg fun hboth => heq hboth.2, h.settled k hk, or_iff_right hclears,
        and_iff_right hrearms]

section Observe

variable {now : Int} {fleet : Option Int} {topo : List Ancestor} {sig : Signal}
  (hs : s = .observe now fleet topo sig) (hi : c.Indexed) (hnot : c.forms s ≠ some id)

include hs hi hnot

/-- An observation that does not form the storm attaches its incident there, or leaves the
    storm's members as the pruning at its start left them. -/
theorem observe_joins_or_same :
    (∃ st, (c.prune now).home fleet topo sig = some st ∧ st.id = id ∧
      (c.step s).ledger = (c.prune now).ledger.join id sig.canonicalKey ∧
      c.reports id s = [sig.canonicalKey]) ∨
    (∀ st, (c.prune now).home fleet topo sig = some st → st.id ≠ id) ∧
      (∀ k, (c.step s).ledger.status id k = (c.prune now).ledger.status id k) ∧
      c.reports id s = [] := by
  subst hs
  have heffect := (step_effect hi (.observe now fleet topo sig)).1
  generalize c.step (.observe now fleet topo sig) = c' at heffect
  cases heffect with
  | @attached _ _ _ _ st _ hhome hledger hverdict =>
    obtain ⟨info, m, u, hverdict, hinfo, hm⟩ := hverdict
    by_cases hid : st.id = id
    · refine .inl ⟨st, hhome, hid, hid ▸ hledger, ?_⟩
      simp only [reports, hverdict, hinfo, hid, hm, if_true]
    · refine .inr ⟨?_, fun k => ?_, ?_⟩
      · rintro _ hst
        rwa [← Option.some.inj (hhome.symm.trans hst)]
      · rw [hledger, Ledger.status_join, if_neg fun hboth => hid hboth.1.symm]
      · simp only [reports, hverdict, hinfo, if_neg hid]
  | keyless hhome _ hverdict => exact .inr ⟨by simp [hhome], fun _ => rfl, by simp [reports, hverdict]⟩
  | windowed hhome _ hledger hverdict =>
    exact .inr ⟨by simp [hhome], fun k => by rw [hledger]; rfl, by simp [reports, hverdict]⟩
  | formed hhome _ _ _ _ hledger hverdict =>
    obtain ⟨info, ms, m, hverdict, rfl, -⟩ := hverdict
    have hid : info.id ≠ id := fun heq => hnot (by simp only [forms, hverdict, heq])
    refine .inr ⟨by simp [hhome], fun k => ?_, by simp only [reports, hverdict, if_neg hid]⟩
    rw [hledger, Ledger.status_gather, if_neg hid.symm]
    rfl

/-- A storm that is open after an observation that did not form it survived the
    pruning at its start. -/
theorem open_after_prune (hstill : (c.step s).storms.lookup id ≠ none) :
    (c.prune now).storms.lookup id ≠ none := by
  have hp := hi.prune now
  rcases observe_joins_or_same hs hi hnot with ⟨st, hhome, rfl, -⟩ | ⟨-, hstatus, -⟩
  · rw [lookup_of_home hp hhome]
    exact Option.some_ne_none _
  · obtain ⟨k, hk⟩ := ((step_effect hi _).2.open_iff id).1 hstill
    exact (hp.open_iff id).2 ⟨k, hstatus k ▸ hk⟩

omit hs hi hnot in
theorem status_prune (hopen : (c.prune now).storms.lookup id ≠ none) (k : EventKey) :
    (c.prune now).ledger.status id k = c.ledger.status id k := by
  have hkept : c.expired now id = false := by
    obtain ⟨st, hst⟩ := Option.ne_none_iff_exists'.1 hopen
    exact (lookup_drop.1 hst).2
  rw [prune_eq_drop, ledger_drop, Ledger.status_narrow]
  exact if_neg (by rw [hkept]; exact Bool.false_ne_true)

theorem Tally.observe (h : Tally c id reported cleared) (horder : c.Orderly AnyMember s)
    (hstill : (c.step s).storms.lookup id ≠ none) :
    Tally (c.step s) id (fun k => reported k ∨ k ∈ c.reports id s)
      (fun k => Clears k s ∨ (¬Rearms k s ∧ cleared k)) := by
  have hkeep := status_prune (open_after_prune hs hi hnot hstill)
  rcases observe_joins_or_same hs hi hnot with ⟨st, -, -, hledger, hreports⟩ | ⟨helse, hsame, hreports⟩
  · have hstatus : ∀ k, (c.step s).ledger.status id k =
        if k = sig.canonicalKey then some false else c.ledger.status id k := by
      intro k
      rw [hledger, Ledger.status_join]
      by_cases hk : k = sig.canonicalKey <;> simp [hk, hkeep]
    rw [hreports]
    subst hs
    constructor
    · intro k
      rw [hstatus, List.mem_singleton]
      by_cases hk : k = sig.canonicalKey
      · simp [hk]
      · simp [hk, h.known]
    · intro k hk
      rw [hstatus]
      by_cases hkey : k = sig.canonicalKey
      · simp [hkey, Clears, Rearms]
      · rw [List.mem_singleton, or_iff_left hkey] at hk
        rw [if_neg hkey, h.settled k hk]
        simp [Clears, Rearms, Ne.symm hkey]
  · -- The storm does not know the incident, or does not have it as resolved.
    refine h.same (fun k => (hsame k).trans (hkeep k)) (by simp [hreports]) (hs ▸ fun _ _ => not_false) ?_
    subst hs
    rintro k - rfl htrue
    rw [← hkeep] at htrue
    cases hhome : (c.prune now).home fleet topo sig with
    | none =>
      simp only [Orderly, hhome] at horder
      cases (horder id true htrue trivial).2
    | some st =>
      simp only [Orderly, hhome] at horder
      exact helse st hhome (horder.2 id true htrue trivial).symm

end Observe

theorem Tally.step (h : Tally c id reported cleared) (hi : c.Indexed)
    (howned : c.ledger.Owned AnyMember) (horder : c.Orderly AnyMember s)
    (hnot : c.forms s ≠ some id) (hstill : (c.step s).storms.lookup id ≠ none) :
    Tally (c.step s) id (fun k => reported k ∨ k ∈ c.reports id s)
      (fun k => Clears k s ∨ (¬Rearms k s ∧ cleared k)) := by
  -- The index leads from a reported incident to the storm.
  have hindex {k : EventKey} (hk : reported k) : c.byKey.lookup k = some id := by
    obtain ⟨b, hb⟩ := Option.ne_none_iff_exists'.1 ((h.known k).1 hk)
    exact howned.indexed hb trivial
  have howner {k g} (hk : reported k) (hg : c.byKey.lookup k = some g) : g = id :=
    Option.some.inj (hg.symm.trans (hindex hk))
  have heffect := (step_effect hi s).1
  cases s with
  | observe now fleet topo sig => exact Tally.observe rfl hi hnot h horder hstill
  | memberResolved key =>
    generalize c.step (.memberResolved key) = c' at heffect hstill ⊢
    cases heffect with
    | @settled _ g _ hg hledger =>
      exact h.mark hledger (hi.index hg) (howner · hg) rfl (by simp [Clears]) fun k hk =>
        ⟨hk.symm, not_false⟩
    | @closed _ g hg =>
      -- Another storm closes: this one is still open.
      have hid : id ≠ g := by
        rintro rfl
        exact hstill (Finmap.lookup_erase id c.storms)
      refine h.same (fun k => ?_) (fun k => List.not_mem_nil) (fun k hk hc => ?_) (fun k _ hr => hr.elim)
      · rw [close_eq_drop, ledger_drop, Ledger.status_narrow, if_neg (by simpa using hid)]
      · obtain rfl : key.canonical = k := hc
        exact hid (howner hk hg).symm
    | unknown hg =>
      refine h.same (fun k => rfl) (fun k => List.not_mem_nil) (fun k hk hc => ?_) (fun k _ hr => hr.elim)
      obtain rfl : key.canonical = k := hc
      cases hg.symm.trans (hindex hk)
  | memberReverted now key =>
    generalize c.step (.memberReverted now key) = c' at heffect ⊢
    cases heffect with
    | @rearmed _ _ g _ hg _ hledger =>
      exact h.mark hledger (hi.index hg) (howner · hg) rfl (by simp [Clears, Rearms]) fun k hk =>
        ⟨not_false, hk.symm⟩
    | unmoved hnone =>
      refine h.same (fun k => rfl) (fun k => List.not_mem_nil) (fun k _ hc => hc.elim) fun k hk hr => ?_
      obtain rfl : key.canonical = k := hr
      exact hnone id (hindex hk)
  | _ =>
    cases heffect with | _ hledger =>
    refine h.same (fun k => by rw [hledger]) (fun k => List.not_mem_nil) (fun k _ hc => hc.elim)
      fun k _ hr => hr.elim

/-- A storm is open after a call just because the call formed it or it was open. -/
theorem open_before (hi : c.Indexed) (hnot : c.forms s ≠ some id)
    (hstill : (c.step s).storms.lookup id ≠ none) : c.storms.lookup id ≠ none := by
  obtain ⟨heffect, hi'⟩ := step_effect hi s
  obtain ⟨k, hk⟩ := (hi'.open_iff id).1 hstill
  refine (hi.open_iff id).2 ?_
  -- A mark is set on a known member.
  have hmark {key : EventKey} {g : GoString} {b : Bool} (hg : c.byKey.lookup key.canonical = some g)
      (hk : (c.ledger.mark g key.canonical b).status id k ≠ none) :
      ∃ k, c.ledger.status id k ≠ none := by
    rw [Ledger.status_mark] at hk
    split at hk
    · next hboth => exact ⟨key.canonical, hboth.1 ▸ hi.index hg⟩
    · exact ⟨k, hk⟩
  cases s with
  | observe now fleet topo sig =>
    -- Pruning only closes, so a storm that survives it was open.
    have hopen := open_after_prune rfl hi hnot hstill
    obtain ⟨k', hk'⟩ := ((hi.prune now).open_iff id).1 hopen
    exact ⟨k', by rwa [status_prune hopen] at hk'⟩
  | memberResolved key =>
    generalize c.step (.memberResolved key) = c' at heffect hk
    cases heffect with
    | settled hg hledger => exact hmark hg (hledger ▸ hk)
    | @closed _ g hg =>
      rw [close_eq_drop, ledger_drop, Ledger.status_narrow] at hk
      split at hk
      · exact absurd rfl hk
      · exact ⟨k, hk⟩
    | unknown => exact ⟨k, hk⟩
  | memberReverted now key =>
    generalize c.step (.memberReverted now key) = c' at heffect hk
    cases heffect with
    | rearmed hg _ hledger => exact hmark hg (hledger ▸ hk)
    | unmoved => exact ⟨k, hk⟩
  | _ =>
    cases heffect with | _ hledger =>
    exact ⟨k, by rwa [hledger] at hk⟩

end Step

/-! ## A whole life -/

section Run

/-- The formation reports just the members the new storm starts with. -/
theorem tally_forms (hi : c.Indexed) (hform : c.forms form = some id) :
    Tally (c.step form) id (· ∈ c.reports id form) fun _ => False := by
  cases form with
  | observe now fleet topo sig =>
    have heffect := (step_effect hi (.observe now fleet topo sig)).1
    generalize hc' : c.step (.observe now fleet topo sig) = c' at heffect ⊢
    cases heffect with
    | @formed _ _ _ _ _ id' ks hhome hkeyed hkey hwait hfresh hledger hverdict =>
      obtain ⟨info, ms, m, hverdict, hinfo, hm⟩ := hverdict
      simp only [forms, hverdict, hinfo, Option.some_inj] at hform
      subst hform
      classical
      have hstatus : ∀ k, c'.ledger.status id' k = if k ∈ ks then some false else none := by
        intro k
        rw [hledger, Ledger.status_gather, if_pos rfl]
      have hreports : ∀ k, k ∈ c.reports id' (.observe now fleet topo sig) ↔ k ∈ ks := by
        intro k
        have hwindow : k ∈ (c.observe now fleet topo sig).1.windowKeys ↔
            (k = sig.canonicalKey ∨ k ∈ (c.prune now).windowKeys) ∧ k ∉ ks := by
          change k ∈ (c.step (.observe now fleet topo sig)).ledger.waiting ↔ _
          rw [hc', hledger]
          exact Iff.rfl
        simp only [reports, hverdict, hinfo, hm, if_true, List.mem_filter, List.mem_cons,
          decide_eq_true_eq]
        rw [hwindow]
        constructor
        · rintro ⟨hwaited, hleft⟩
          by_contra hk
          exact hleft ⟨hwaited, hk⟩
        · exact fun hk => ⟨hwait hk, fun hleft => hleft.2 hk⟩
      constructor
      · intro k
        rw [hreports, hstatus]
        by_cases hk : k ∈ ks
        · simp [hk]
        · simp [hk]
      · intro k hk
        rw [hstatus, if_pos ((hreports k).1 hk)]
        exact ⟨nofun, False.elim⟩
    | attached _ _ hverdict =>
      obtain ⟨info, m, u, hverdict, -⟩ := hverdict
      simp [forms, hverdict] at hform
    | keyless _ _ hverdict | windowed _ _ _ hverdict => simp [forms, hverdict] at hform
  | _ => cases hform

theorem not_cleared_nil (k : EventKey) : ¬Cleared k [] := by
  rintro ⟨before, s, after, hsplit, -⟩
  simp at hsplit

/-- Along an orderly life the storm knows its incidents and which of them are clear. -/
theorem tally_life (hi : c.Indexed) (howned : c.ledger.Owned AnyMember)
    (hlife : Life c id form steps) (horder : OrderlyRun AnyMember c (form :: steps)) :
    Tally (c.run (form :: steps)) id (· ∈ c.reported id (form :: steps))
      (fun k => Cleared k steps) := by
  induction steps using List.reverseRecOn with
  | nil =>
    have htally := tally_forms hi hlife.1
    have hfirst : c.reported id [form] = c.reports id form := List.append_nil _
    rw [hfirst]
    exact ⟨htally.known, fun k hk =>
      (htally.settled k hk).trans (iff_of_false not_false (not_cleared_nil k))⟩
  | append_singleton steps s ih =>
    obtain ⟨hlife', hnot, hstill⟩ := life_append.1 hlife
    rw [← List.cons_append] at horder hstill ⊢
    obtain ⟨horder', hlast⟩ := orderlyRun_append.1 horder
    have hi' := indexed_run hi (form :: steps)
    rw [run_append] at hstill ⊢
    have hstep := (ih hlife' horder').step hi' (owned_run hi howned horder') hlast.1 hnot hstill
    constructor
    · intro k
      rw [reported_append, List.mem_append]
      exact hstep.known k
    · intro k hk
      rw [reported_append, List.mem_append] at hk
      rw [cleared_append]
      exact hstep.settled k hk

/-- A storm that is open after a run, and was not before, is in a life that began in the run. -/
theorem exists_life (hi : c.Indexed) (hclosed : c.storms.lookup id = none)
    (hopen : (c.run steps).storms.lookup id ≠ none) :
    ∃ pre form mid, steps = pre ++ form :: mid ∧ Life (c.run pre) id form mid := by
  induction steps using List.reverseRecOn with
  | nil => exact absurd hclosed hopen
  | append_singleton steps s ih =>
    by_cases hform : (c.run steps).forms s = some id
    · exact ⟨steps, s, [], rfl, hform, fun before t after hsplit => by simp at hsplit⟩
    · rw [run_append] at hopen
      obtain ⟨pre, form, mid, rfl, hlife⟩ := ih (open_before (indexed_run hi steps) hform hopen)
      refine ⟨pre, form, mid ++ [s], by simp, life_append.2 ⟨hlife, ?_, ?_⟩⟩
      · rwa [run_append] at hform
      · rw [run_append] at hopen
        rw [← List.cons_append, run_append]
        exact hopen

end Run

/-! ## The all-clear -/

section AllClear

/-- The call declares the storm `id` over. -/
def Done (c : StormCorrelator) (id : GoString) (key : EventKey) : Prop :=
  ∃ info, (c.memberResolved key).2 = some (info, true) ∧ info.id = id

/-- The all-clear comes when everyone the storm knows is resolved but the one that
    clears now. It closes the storm. -/
theorem done_iff (hi : c.Indexed) : Done c id key ↔ c.byKey.lookup key.canonical = some id ∧
    ∀ k b, c.ledger.status id k = some b → k = key.canonical ∨ b = true := by
  cases howner : c.byKey.lookup key.canonical with
  | none => simp [Done, memberResolved, howner]
  | some g =>
    obtain ⟨st, hst, hid, hknown⟩ := hi.stormOf howner
    have hbal := StormState.balanced_settle (hi.balanced hst) key.canonical
    have hzero : ¬(st.settle key.canonical).unresolved > 0 ↔
        ∀ k b, c.ledger.status g k = some b → k = key.canonical ∨ b = true := by
      rw [hbal.unresolved, gt_iff_lt, Int.natCast_pos, Finset.card_pos,
        Finset.not_nonempty_iff_eq_empty, Finset.eq_empty_iff_forall_notMem]
      refine forall_congr' fun k => ?_
      rw [Ledger.mem_unsettled, StormState.lookup_settle hknown, ledger_status hst]
      by_cases hk : k = key.canonical
      · simp [hk]
      · cases hb : st.resolved.lookup k <;> simp [hk]
    have hinfo : (st.settle key.canonical).info.id = g := by
      rw [StormState.info, StormState.settle_id, hid]
    rw [Option.some_inj]
    simp only [Done, memberResolved, howner, hst]
    split
    · next hlive =>
      refine iff_of_false (by simp) fun hall => ?_
      obtain rfl := hall.1
      exact hzero.2 hall.2 hlive
    · next hdone =>
      constructor
      · rintro ⟨info, heq, rfl⟩
        cases heq
        rw [hinfo]
        exact ⟨rfl, hzero.1 hdone⟩
      · rintro ⟨rfl, -⟩
        exact ⟨_, rfl, hinfo⟩

theorem Done.closes (hi : c.Indexed) (h : Done c id key) :
    (c.step (.memberResolved key)).storms.lookup id = none := by
  obtain ⟨info, hdone, hinfo⟩ := h
  change (c.memberResolved key).1.storms.lookup id = none
  unfold memberResolved at hdone ⊢
  cases howner : c.byKey.lookup key.canonical with
  | none => simp [howner] at hdone
  | some g =>
    obtain ⟨st, hst, hid, -⟩ := hi.stormOf howner
    simp only [howner, hst] at hdone ⊢
    split at hdone
    · cases hdone
    · next hnot =>
      cases hdone
      rw [StormState.info, StormState.settle_id, hid] at hinfo
      rw [if_neg hnot, ← hinfo]
      exact Finmap.lookup_erase g c.storms

theorem Done.opened (hi : c.Indexed) (h : Done c id key) : c.storms.lookup id ≠ none := by
  obtain ⟨st, hst, -⟩ := hi.stormOf ((done_iff hi).1 h).1
  rw [hst]
  exact Option.some_ne_none _

end AllClear

/-- A storm is declared over with the last clearance of its incidents. In an orderly run
    a call that declares it over finds it in a life in which every reported incident is
    now clear; a call that clears the last incident of a life declares the storm over and
    closes it; and a storm that is declared over twice was formed anew in between. -/
theorem done_when_all_clear {c : StormCorrelator} (hfresh : c.Fresh) {steps : List StormStep}
    (horder : OrderlyRun AnyMember c steps) :
    (∀ before key after id, steps = before ++ .memberResolved key :: after →
      Done (c.run before) id key → ∃ pre form mid, before = pre ++ form :: mid ∧
        Life (c.run pre) id form mid ∧ ∀ k ∈ (c.run pre).reported id (form :: mid),
          Cleared k (mid ++ [.memberResolved key])) ∧
    (∀ pre form mid key after id, steps = pre ++ form :: (mid ++ .memberResolved key :: after) →
      Life (c.run pre) id form mid → key.canonical ∈ (c.run pre).reported id (form :: mid) →
      (∀ k ∈ (c.run pre).reported id (form :: mid), Cleared k (mid ++ [.memberResolved key])) →
      Done (c.run (pre ++ form :: mid)) id key ∧
        (c.run (pre ++ form :: (mid ++ [.memberResolved key]))).storms.lookup id = none) ∧
    (∀ before key mid key' after id,
      steps = before ++ .memberResolved key :: (mid ++ .memberResolved key' :: after) →
      Done (c.run before) id key → Done (c.run (before ++ .memberResolved key :: mid)) id key' →
      ∃ m s m', mid = m ++ s :: m' ∧
        (c.run (before ++ .memberResolved key :: m)).forms s = some id) := by
  -- What a life knows when the call comes.
  have htally : ∀ pre form mid rest id, steps = pre ++ form :: (mid ++ rest) →
      Life (c.run pre) id form mid → (c.run (pre ++ form :: mid)).ledger.Owned AnyMember ∧
        Tally (c.run (pre ++ form :: mid)) id
          (· ∈ (c.run pre).reported id (form :: mid)) (fun k => Cleared k mid) := by
    rintro pre form mid rest id rfl hlife
    rw [← List.cons_append, ← List.append_assoc] at horder
    obtain ⟨horder, -⟩ := orderlyRun_append.1 horder
    obtain ⟨hpre, hlast⟩ := orderlyRun_append.1 horder
    refine ⟨owned_run hfresh.indexed (hfresh.owned _) horder, ?_⟩
    rw [run_append]
    exact tally_life (indexed_run hfresh.indexed pre)
      (owned_run hfresh.indexed (hfresh.owned _) hpre) hlife hlast
  refine ⟨?_, ?_, ?_⟩
  · intro before key after id hsteps hdone
    have hi := indexed_run hfresh.indexed before
    obtain ⟨pre, form, mid, rfl, hlife⟩ :=
      exists_life hfresh.indexed (by rw [hfresh.2.1, Finmap.lookup_empty]) (hdone.opened hi)
    refine ⟨pre, form, mid, rfl, hlife, fun k hk => ?_⟩
    obtain ⟨-, ht⟩ := htally pre form mid (.memberResolved key :: after) id (by simpa using hsteps) hlife
    obtain ⟨b, hb⟩ := Option.ne_none_iff_exists'.1 ((ht.known k).1 hk)
    rw [cleared_append]
    rcases ((done_iff hi).1 hdone).2 k b hb with rfl | rfl
    · exact Or.inl rfl
    · exact Or.inr ⟨not_false, (ht.settled k hk).1 hb⟩
  · intro pre form mid key after id hsteps hlife hkey hclear
    have hi := indexed_run hfresh.indexed (pre ++ form :: mid)
    obtain ⟨howned, ht⟩ := htally pre form mid (.memberResolved key :: after) id hsteps hlife
    have hdone : Done (c.run (pre ++ form :: mid)) id key := by
      obtain ⟨b, hb⟩ := Option.ne_none_iff_exists'.1 ((ht.known _).1 hkey)
      refine (done_iff hi).2 ⟨howned.indexed hb trivial, fun k b' hb' => ?_⟩
      have hk : k ∈ (c.run pre).reported id (form :: mid) :=
        (ht.known k).2 (by rw [hb']; exact Option.some_ne_none _)
      rcases cleared_append.1 (hclear k hk) with hnow | ⟨-, hbefore⟩
      · exact Or.inl (Eq.symm hnow)
      · have htrue := (ht.settled k hk).2 hbefore
        rw [hb'] at htrue
        exact Or.inr (Option.some.inj htrue)
    refine ⟨hdone, ?_⟩
    have hclosed := hdone.closes hi
    rw [← List.cons_append, ← List.append_assoc, run_append]
    exact hclosed
  · intro before key mid key' after id hsteps hdone hdone'
    have hi := indexed_run hfresh.indexed before
    have hi' := (step_effect hi (.memberResolved key)).2
    have hopen := hdone'.opened (indexed_run hfresh.indexed _)
    rw [run_append] at hopen
    obtain ⟨m, s, m', rfl, hlife⟩ := exists_life hi' (hdone.closes hi) hopen
    refine ⟨m, s, m', rfl, ?_⟩
    rw [run_append]
    exact hlife.1

end StormCorrelator

namespace StormSample

open StormCorrelator

/-- The pod `b` of the node's storm fires again into the deployment's storm, and then
    the pod `a` clears. -/
def takenOver : List StormStep :=
  [observed 3 deployment "c", observed 4 deployment "d", observed 5 deployment "b",
   .memberResolved (crash "a").key]

theorem clears_crash (name : String) :
    Clears (crash name).key (.memberResolved (crash name).key) := by
  have hreason : canonicalReason (bytes "CrashLoopBackOff") = bytes "CrashLoopBackOff" := by
    decide +kernel
  simp only [Clears, EventKey.canonical, crash, hreason]

/-- The second pod of the node forms the storm. -/
theorem node_formed :
    Life (correlator.run [observed 1 node "a"]) node.key (observed 2 node "b") [] :=
  ⟨by decide +kernel, fun before t after hsplit => by simp at hsplit⟩

theorem takenOver_life :
    Life (correlator.run [observed 1 node "a"]) node.key (observed 2 node "b") takenOver := by
  have hc := life_append (s := observed 3 deployment "c").2 ⟨node_formed, by decide +kernel⟩
  have hd := life_append (s := observed 4 deployment "d").2 ⟨hc, by decide +kernel⟩
  have hb := life_append (s := observed 5 deployment "b").2 ⟨hd, by decide +kernel⟩
  exact life_append.2 ⟨hb, by decide +kernel⟩

end StormSample

open StormSample StormCorrelator in
/-- Both incidents of the node's storm have cleared, and the storm is not declared over:
    the clearance of the second went to the storm that took the pod over. -/
theorem cleared_storm_stays_open :
    correlator.Fresh ∧
    Life (correlator.run [observed 1 node "a"]) node.key (observed 2 node "b") takenOver ∧
    (crash "b").key.canonical ∈ (correlator.run [observed 1 node "a"]).reported node.key
      (observed 2 node "b" :: takenOver) ∧
    (∀ k ∈ (correlator.run [observed 1 node "a"]).reported node.key
      (observed 2 node "b" :: takenOver),
      Cleared k (takenOver ++ [.memberResolved (crash "b").key])) ∧
    ¬Done (correlator.run ([observed 1 node "a"] ++ observed 2 node "b" :: takenOver)) node.key
      (crash "b").key := by
  obtain ⟨hkeys, hmem⟩ : (correlator.run [observed 1 node "a"]).reported node.key
        (observed 2 node "b" :: takenOver) = [(crash "b").key, (crash "a").key] ∧
      (crash "b").key.canonical ∈ (correlator.run [observed 1 node "a"]).reported node.key
        (observed 2 node "b" :: takenOver) := by
    decide +kernel
  refine ⟨fresh, takenOver_life, hmem, fun k hk => ?_, ?_⟩
  · rw [hkeys] at hk
    rcases List.mem_pair.1 hk with rfl | rfl
    · exact ⟨takenOver, _, [], rfl, clears_crash "b", List.forall_mem_nil _⟩
    · refine ⟨takenOver.take 3, _, [_], rfl, clears_crash "a", fun s hs => ?_⟩
      rw [List.mem_singleton.1 hs]
      exact not_false
  · rintro ⟨info, hinfo, -⟩
    have hnot : (((correlator.run ([observed 1 node "a"] ++ observed 2 node "b" :: takenOver)
        ).memberResolved (crash "b").key).2.map Prod.snd) = some false := by decide +kernel
    rw [hinfo] at hnot
    cases hnot

open StormSample StormCorrelator in
/-- Without the take-over the second clearance declares the storm over. -/
theorem onePage_done : correlator.Fresh ∧ OrderlyRun AnyMember correlator onePage ∧
    Done (correlator.run (onePage.take 3)) node.key (crash "b").key := by
  obtain ⟨hkeys, hmem⟩ : (correlator.run [observed 1 node "a"]).reported node.key
        [observed 2 node "b", .memberResolved (crash "a").key] =
          [(crash "b").key, (crash "a").key] ∧
      (crash "b").key.canonical ∈ (correlator.run [observed 1 node "a"]).reported node.key
        [observed 2 node "b", .memberResolved (crash "a").key] := by
    decide +kernel
  refine ⟨fresh, onePage_orderly _, ?_⟩
  refine ((done_when_all_clear fresh (onePage_orderly _)).2.1 [observed 1 node "a"]
    (observed 2 node "b") [.memberResolved (crash "a").key] (crash "b").key [] node.key rfl
    (life_append.2 ⟨node_formed, by decide +kernel⟩) hmem
    fun k hk => ?_).1
  rw [hkeys] at hk
  rcases List.mem_pair.1 hk with rfl | rfl
  · exact ⟨[.memberResolved (crash "a").key], _, [], rfl, clears_crash "b", List.forall_mem_nil _⟩
  · refine ⟨[], _, [_], rfl, clears_crash "a", fun s hs => ?_⟩
    rw [List.mem_singleton.1 hs]
    exact not_false

end Lookout.Engine
