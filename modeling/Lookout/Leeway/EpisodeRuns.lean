-- SUMMARY: The episode table against one alert machine per key.
import Lookout.Leeway.Episodes

/-!
# The table and the machine

A source drops the machine of a key whenever it comes to rest. What it reports for the key
is compared here with one machine that is never dropped, fed the same verdicts at the
same times. Both run side by side, across restarts. The dropped machine takes its fire
history with it, so the two agree as long as no episode opens while an earlier firing is
still inside the flap window.
-/

namespace Lookout.Leeway

open Lookout.Engine
open AlertState (advance deliveryBackoff fire flapping recurrences)

variable {d : Dwell} {clock now : Int} {row : Row} {seat : Seat}

/-! ## States that look the same -/

/-- Two states that differ at most in firings the window has left behind. -/
structure SameView (d : Dwell) (now : Int) (s s' : AlertState) : Prop where
  phase : s.phase = s'.phase
  firstSeenAt : s.firstSeenAt = s'.firstSeenAt
  since : s.since = s'.since
  clearSince : s.clearSince = s'.clearSince
  window : recent now d.normalize.flapWindow s.fires =
    recent now d.normalize.flapWindow s'.fires

variable {s s' : AlertState}

theorem SameView.later {later : Int} (h : SameView d now s s') (hle : now ≤ later) :
    SameView d later s s' := by
  refine ⟨h.phase, h.firstSeenAt, h.since, h.clearSince, ?_⟩
  rw [← recent_recent _ hle, h.window, recent_recent _ hle]

/-- The machine reads the history only to prune and count it. -/
theorem advance_fires (s : AlertState) (fires : List Int) (breached : Bool) (now : Int)
    (d : Dwell) : ({ s with fires } : AlertState).advance breached now d =
      ({ (s.advance breached now d).1 with
          fires := if (s.advance breached now d).2 = .firing then
            recent now d.normalize.flapWindow fires ++ [now] else fires },
        (s.advance breached now d).2) := by
  obtain ⟨phase, firstSeenAt, since, clearSince, old⟩ := s
  simp only [AlertState.advance.eq_def]
  cases phase <;> cases breached
  case pending.true =>
    by_cases h : d.normalize.for_.1 ≤ Engine.since now firstSeenAt <;> simp [h, fire]
  case resolving.false =>
    by_cases h : d.normalize.resolve.1 ≤ Engine.since now clearSince <;> simp [h, AlertState.reset]
  all_goals rfl

theorem SameView.advance (h : SameView d now s s') (breached : Bool) :
    SameView d now (s.advance breached now d).1 (s'.advance breached now d).1 ∧
      (s.advance breached now d).2 = (s'.advance breached now d).2 := by
  have heq : s' = { s with fires := s'.fires } := by
    obtain ⟨hphase, hfirst, hsince, hclear, -⟩ := h
    cases s
    cases s'
    simp_all
  have hfires := (s.advance_move breached now d).fires
  have hwindow := h.window
  generalize s'.fires = fires at heq hwindow
  subst heq
  rw [advance_fires s fires]
  refine ⟨⟨rfl, rfl, rfl, rfl, ?_⟩, rfl⟩
  simp only [hfires]
  split
  · rw [recent_append, recent_append, recent_recent _ le_rfl, recent_recent _ le_rfl, hwindow]
  · exact hwindow

theorem normalize_flapWindow (d : Dwell) :
    d.normalize.normalize.flapWindow = d.normalize.flapWindow := by
  simp only [Dwell.normalize]
  split
  · rfl
  · rfl

/-- What the flap rules read off two such states is the same from here on. -/
theorem SameView.flaps {later : Int} (h : SameView d now s s') (hle : now ≤ later) :
    s.recurrences later d = s'.recurrences later d ∧ s.flapping later d = s'.flapping later d ∧
      s.deliveryBackoff later d = s'.deliveryBackoff later d := by
  have hwindow := (h.later hle).window
  have hrec : s.recurrences later d = s'.recurrences later d := by
    rw [recurrences, recurrences, hwindow]
  have hrec' : s.recurrences later d.normalize = s'.recurrences later d.normalize := by
    rw [recurrences, recurrences, normalize_flapWindow, hwindow]
  refine ⟨hrec, ?_, ?_⟩
  · rw [flapping, flapping, hrec]
  · rw [deliveryBackoff, deliveryBackoff, hrec']

theorem SameView.rewind (h : SameView d now s s') (t : Int) :
    SameView d now (s.rewind t) (s'.rewind t) := by
  unfold AlertState.rewind
  rw [← h.phase]
  split
  · exact ⟨rfl, h.firstSeenAt, h.since, rfl, h.window⟩
  · exact h

theorem rewind_rewind (s : AlertState) (t t' : Int) : (s.rewind t).rewind t' = s.rewind t' := by
  unfold AlertState.rewind
  by_cases h : s.phase = .resolving <;> simp [h]

/-! ## The machine that is never dropped -/

/-- One machine for one key. -/
structure Solo where
  state : AlertState := {}
  /-- The process restarted since the last verdict. -/
  restarted : Bool := false
  deriving DecidableEq

variable {solo : Solo}

/-- A verdict. The first one after a restart starts the clear window again. -/
def Solo.judge (d : Dwell) (now : Int) (breached : Bool) (m : Solo) : Solo × Transition :=
  let s := if m.restarted then m.state.rewind now else m.state
  let (state, tr) := s.advance breached now d
  ({ state }, tr)

/-- A move as it is reported. -/
structure Report where
  now : Int
  transition : Transition
  state : AlertState
  deriving DecidableEq

/-- A report unless nothing moved. -/
def report (now : Int) (tr : Transition) (state : AlertState) : List Report :=
  if tr = .none then [] else [⟨now, tr, state⟩]

def reportsOf {κ : Type} (now : Int) (out : List (Outcome κ)) : List Report :=
  out.flatMap fun o => report now o.transition o.state

structure SameReport (d : Dwell) (r r' : Report) : Prop where
  now : r.now = r'.now
  transition : r.transition = r'.transition
  view : SameView d r.now r.state r'.state
  flaps : ∀ later, r.now ≤ later → r.state.recurrences later d = r'.state.recurrences later d ∧
    r.state.flapping later d = r'.state.flapping later d ∧
    r.state.deliveryBackoff later d = r'.state.deliveryBackoff later d

theorem SameView.report (h : SameView d now s s') (tr : Transition) :
    List.Forall₂ (SameReport d) (Leeway.report now tr s) (Leeway.report now tr s') := by
  unfold Leeway.report
  split
  · exact .nil
  · exact .cons ⟨rfl, rfl, h, fun later hle => h.flaps hle⟩ .nil

/-! ## One key of the table against its machine -/

/-- What the source holds about a key, next to the machine of the key. -/
inductive Stand (d : Dwell) (clock : Int) (solo : Solo) : Seat → Prop where
  | idle (hrest : solo.state = { fires := solo.state.fires }) :
      Stand d clock solo ⟨none, none, none⟩
  | live {e : AlertEntry} {row : Row} (hactive : e.state.phase ≠ .ok)
      (hrestart : solo.restarted = false) (hview : SameView d clock e.state solo.state)
      (hsane : Sane e.state clock) (hrow : Sane row.state clock)
      -- The restarted clear window of a resolving episode is not written.
      (hstored : row.state.rewind 0 = e.state.rewind 0) :
      Stand d clock solo ⟨some e, none, some row⟩
  | waiting {rec : AlertRecord} {row : Row} (hactive : rec.state.phase ≠ .ok)
      (hrestart : solo.restarted = true)
      (hview : SameView d clock (rec.state.rewind 0) (solo.state.rewind 0))
      (hsane : Sane rec.state clock) (hstored : row.state = rec.state) :
      Stand d clock solo ⟨none, some rec, some row⟩

theorem Sane.later {later : Int} (h : Sane s now) (hle : now ≤ later) : Sane s later :=
  ⟨h.known, h.firstSeenAt.trans hle, h.since.trans hle, h.clearSince.trans hle,
    fun t ht => (h.fires t ht).trans hle, h.seen, h.told⟩

/-- How a verdict on an episode that is under way is handled. -/
structure Handled {κ : Type} (now : Int) (st : AlertState) (tr : Transition) (tier : Tier)
    (row : Option Row) (res : Option AlertEntry × List (Outcome κ)) : Prop where
  entry : res.1 = if st.phase = .ok then none else some ⟨st, tier⟩
  rows : res.2.foldl (persistAt now) row =
    if st.phase = .ok then none else if tr = .none then row else some ⟨st, now⟩
  reports : reportsOf now res.2 = report now tr st

section

variable {κ : Type} {j : Judgement κ}

theorem judgeAt_live (e : AlertEntry) (w : Option AlertRecord) (row : Option Row) :
    Handled now (e.state.advance j.breached now d).1 (e.state.advance j.breached now d).2 j.tier
      row (judgeAt d now j (some e) w) := by
  simp only [judgeAt]
  generalize e.state.advance j.breached now d = res
  obtain ⟨st, tr⟩ := res
  by_cases hok : st.phase = .ok
  · exact ⟨by simp [hok], by simp [hok, persistAt], by simp [hok, reportsOf]⟩
  · by_cases hnone : tr = .none
    · exact ⟨by simp [hok], by simp [hok, hnone], by simp [hok, hnone, reportsOf, report]⟩
    · exact ⟨by simp [hok], by simp [hok, hnone, persistAt], by simp [hok, hnone, reportsOf]⟩

theorem judgeAt_waiting (d : Dwell) (now : Int) (j : Judgement κ) (rec : AlertRecord) (row : Option Row) :
    Handled now (reconcile rec j.breached now d).1.state (reconcile rec j.breached now d).2 j.tier
      row (judgeAt d now j none (some rec)) := by
  simp only [judgeAt]
  generalize reconcile rec j.breached now d = res
  obtain ⟨rec', tr⟩ := res
  by_cases hok : rec'.state.phase = .ok
  · exact ⟨by simp [hok], by simp [hok, persistAt], by simp [hok, reportsOf]⟩
  · exact ⟨by simp [hok], by simp [hok, persistAt], by simp [hok, reportsOf]⟩

/-- An episode under way and its machine take a verdict alike. -/
theorem stand_handled {s s₀ : AlertState} {res : Option AlertEntry × List (Outcome κ)}
    (hnow : 0 < now) (hactive : s.phase ≠ .ok) (hview : SameView d now s s₀) (hsane : Sane s now)
    (hrow : Sane row.state now) (hstored : row.state.rewind 0 = s.rewind 0)
    (h : Handled now (s.advance j.breached now d).1 (s.advance j.breached now d).2 j.tier (some row)
      res) :
    Stand d now { state := (s₀.advance j.breached now d).1 }
        ⟨res.1, none, res.2.foldl (persistAt now) (some row)⟩ ∧
      List.Forall₂ (SameReport d) (reportsOf now res.2)
        (report now (s₀.advance j.breached now d).2 (s₀.advance j.breached now d).1) := by
  obtain ⟨hview', htr⟩ := hview.advance j.breached
  have hmove := s.advance_move j.breached now d
  have hmove₀ := s₀.advance_move j.breached now d
  have hsane' := hsane.move hnow le_rfl hmove
  rw [h.entry, h.rows, h.reports, ← htr]
  refine ⟨?_, hview'.report _⟩
  generalize s.advance j.breached now d = adv at hview' htr hmove hsane' ⊢
  obtain ⟨st, tr⟩ := adv
  by_cases hok : st.phase = .ok
  · rw [if_pos hok, if_pos hok]
    refine .idle ?_
    rw [hmove₀.of_rest (hview.phase ▸ hactive) (hview'.phase ▸ hok)]
    rfl
  · rw [if_neg hok, if_neg hok]
    by_cases hnone : tr = .none
    · -- Nothing moved, so the row is still that of the state.
      rw [if_pos hnone]
      refine .live hok rfl hview' hsane' hrow ?_
      rw [hmove.of_none hnone, hstored]
    · rw [if_neg hnone]
      exact .live hok rfl hview' hsane' hsane' rfl

/-- A verdict on a key without an episode. -/
theorem stand_idle (hrest : solo.state = { fires := solo.state.fires }) (hnow : 0 < now)
    (hquiet : j.breached = true → recent now d.normalize.flapWindow solo.state.fires = []) :
    Stand d now (solo.judge d now j.breached).1
        ⟨(judgeAt d now j none none).1, none,
          (judgeAt d now j none none).2.foldl (persistAt now) none⟩ ∧
      List.Forall₂ (SameReport d) (reportsOf now (judgeAt d now j none none).2)
        (report now (solo.judge d now j.breached).2 (solo.judge d now j.breached).1.state) := by
  have hidle : (if solo.restarted then solo.state.rewind now else solo.state) = solo.state := by
    rw [hrest]
    cases solo.restarted <;> rfl
  simp only [Solo.judge, hidle]
  generalize solo.state.fires = fires at hrest hquiet
  rw [hrest]
  cases hb : j.breached with
  | false =>
    refine ⟨by simpa [judgeAt, hb] using .idle rfl, ?_⟩
    simp [judgeAt, hb, reportsOf, report, advance]
  | true =>
    have hview : SameView d now { phase := .pending, firstSeenAt := now }
        { phase := .pending, firstSeenAt := now, fires } := by
      refine ⟨rfl, rfl, rfl, rfl, ?_⟩
      rw [hquiet hb]
      rfl
    have hsane : Sane { phase := .pending, firstSeenAt := now } now :=
      (sane_zero hnow).move hnow le_rfl (d := d) (.breach rfl)
    simp only [judgeAt, hb]
    refine ⟨.live (by simp [advance]) rfl hview hsane hsane rfl, ?_⟩
    exact hview.report .pending

/-- One verdict on a key, in the table and in its machine. -/
theorem Stand.judge (h : Stand d clock solo seat) (hclock : clock ≤ now) (hnow : 0 < now)
    (hquiet : j.breached = true → solo.state.phase = .ok →
      recent now d.normalize.flapWindow solo.state.fires = []) :
    Stand d now (solo.judge d now j.breached).1
        ⟨(judgeAt d now j seat.live seat.waiting).1, none,
          (judgeAt d now j seat.live seat.waiting).2.foldl (persistAt now) seat.row⟩ ∧
      List.Forall₂ (SameReport d) (reportsOf now (judgeAt d now j seat.live seat.waiting).2)
        (report now (solo.judge d now j.breached).2 (solo.judge d now j.breached).1.state) := by
  cases h with
  | idle hrest => exact stand_idle hrest hnow fun hb => hquiet hb (by rw [hrest])
  | @live e row hactive hrestart hview hsane hrow hstored =>
    simp only [Solo.judge, hrestart]
    exact stand_handled hnow hactive (hview.later hclock) (hsane.later hclock)
      (hrow.later hclock) hstored (judgeAt_live e none (some row))
  | @waiting rec row hactive hrestart hview hsane hstored =>
    simp only [Solo.judge, hrestart]
    have hview' : SameView d now (rec.state.rewind now) (solo.state.rewind now) := by
      have := (hview.rewind now).later hclock
      rwa [rewind_rewind, rewind_rewind] at this
    have hrearm : rec.state.rearm now = rec.state.rewind now := (hsane.later hclock).rearm_eq
    have hhandled := judgeAt_waiting d now j rec (some row)
    simp only [reconcile, hrearm] at hhandled
    exact stand_handled hnow (by rwa [rewind_phase]) hview' (hsane.later hclock).rewind
      (hstored ▸ hsane.later hclock) (by rw [hstored, rewind_rewind]) hhandled

end

/-! ## Side by side -/

/-- A source next to the machine of one key, with what each has reported for it. -/
structure Twin (κ : Type) where
  source : Source κ := {}
  solo : Solo := {}
  clock : Int := 0
  reports : List Report := []
  soloReports : List Report := []

section

variable {κ : Type} [LinearOrder κ] (c : RowCodec κ) (cfg : Settings) (k : κ)

def Twin.step (t : Twin κ) : Event κ → Twin κ
  | .pass js now live unclaimed =>
    let source := t.source.step c cfg (.pass js now live unclaimed)
    let out := (t.source.alerts.pass cfg js now live unclaimed).2.filter (·.key = k)
    match js.find? (·.key = k) with
    | some j =>
      let (solo, tr) := t.solo.judge cfg.dwell now j.breached
      { source, solo, clock := now
        reports := t.reports ++ reportsOf now out
        soloReports := t.soloReports ++ report now tr solo.state }
    | none => { t with source, clock := now, reports := t.reports ++ reportsOf now out }
  | .restart now order =>
    { t with
      source := t.source.step c cfg (.restart now order)
      solo := { t.solo with restarted := true } }

/-- A pass judges every key once, the key under comparison among them, and the clock does
    not go back. -/
def Twin.Complete (t : Twin κ) : Event κ → Prop
  | .pass js now _ _ =>
    (js.map (·.key)).Nodup ∧ (∃ j ∈ js, j.key = k) ∧ t.clock ≤ now ∧ 0 < now
  | .restart _ _ => True

/-- A breach that opens an episode finds no earlier firing in the flap window. -/
def Twin.Settled (t : Twin κ) : Event κ → Prop
  | .pass js now _ _ =>
    (∃ j ∈ js, j.key = k ∧ j.breached = true) → t.solo.state.phase = .ok →
      recent now cfg.dwell.normalize.flapWindow t.solo.state.fires = []
  | .restart _ _ => True

instance (t : Twin κ) (ev : Event κ) : Decidable (t.Complete k ev) :=
  match ev with
  | .pass js .. => inferInstanceAs (Decidable (List.Nodup _ ∧ (∃ j ∈ js, j.key = k) ∧ _ ∧ _))
  | .restart _ _ => .isTrue trivial

instance (t : Twin κ) (ev : Event κ) : Decidable (t.Settled cfg k ev) :=
  match ev with
  | .pass js .. => inferInstanceAs (Decidable ((∃ j ∈ js, _ ∧ _) → _ = _ → _ = []))
  | .restart _ _ => .isTrue trivial

/-- The source has reported the moves and states of the machine, and holds its state. -/
structure Twin.Agree (t : Twin κ) : Prop where
  reports : List.Forall₂ (SameReport cfg.dwell) t.reports t.soloReports
  held : ∀ s ∈ t.source.alerts.stateOf k, SameView cfg.dwell t.clock s t.solo.state
  absent : t.source.alerts.stateOf k = none → t.solo.state.phase = .ok ∨ t.solo.restarted = true

/-- The invariant of the two. -/
structure Twin.Tracks (t : Twin κ) : Prop where
  reports : List.Forall₂ (SameReport cfg.dwell) t.reports t.soloReports
  stand : Stand cfg.dwell t.clock t.solo (t.source.seat c k)
  readable : Readable c t.source.rows

variable {c cfg k} {t : Twin κ}

theorem Twin.Tracks.agree (h : t.Tracks c cfg k) : t.Agree cfg k := by
  have hstand := h.stand
  rw [Source.seat] at hstand
  generalize t.source.alerts.pending.lookup k = w at hstand
  generalize t.source.rows.lookup (c.render k) = r at hstand
  refine ⟨h.reports, ?_, ?_⟩
  · intro s hs
    obtain ⟨e, he, rfl⟩ := Option.map_eq_some_iff.mp hs
    rw [he] at hstand
    cases hstand with
    | live _ _ hview _ _ _ => exact hview
  · intro hnone
    rw [Option.map_eq_none_iff.mp hnone] at hstand
    cases hstand with
    | idle hrest => exact Or.inl (by rw [hrest])
    | waiting _ hrestart _ _ _ => exact Or.inr hrestart

variable {js : List (Judgement κ)} {ev : Event κ}

theorem Stand.one (h : Stand d clock solo seat) : seat.live = none ∨ seat.waiting = none := by
  cases h with
  | idle _ | waiting _ _ _ _ _ => exact Or.inl rfl
  | live _ _ _ _ _ _ => exact Or.inr rfl

/-- The verdict a complete pass holds for the key. -/
theorem find_key (h : ∃ j ∈ js, j.key = k) :
    ∃ j ∈ js, j.key = k ∧ js.find? (·.key = k) = some j := by
  cases hfind : js.find? (·.key = k) with
  | none =>
    obtain ⟨j, hj, hkey⟩ := h
    exact absurd (by simpa using hkey) (List.find?_eq_none.mp hfind j hj)
  | some j =>
    exact ⟨j, List.mem_of_find?_eq_some hfind, by simpa using List.find?_some hfind, rfl⟩

/-- A pass of the two, by the verdict for the key. -/
theorem Twin.step_pass {j : Judgement κ} (now : Int) (live unclaimed : Map.Walk κ)
    (h : t.Tracks c cfg j.key) (hj : j ∈ js) (hnodup : (js.map (·.key)).Nodup)
    (hfind : js.find? (·.key = j.key) = some j) :
    let at_ := judgeAt cfg.dwell now j (t.source.seat c j.key).live (t.source.seat c j.key).waiting
    let next := t.step c cfg j.key (.pass js now live unclaimed)
    next.source.seat c j.key = ⟨at_.1, none,
        at_.2.foldl (persistAt now) (t.source.seat c j.key).row⟩ ∧
      next.solo = (t.solo.judge cfg.dwell now j.breached).1 ∧ next.clock = now ∧
      next.reports = t.reports ++ reportsOf now at_.2 ∧
      next.soloReports = t.soloReports ++ report now (t.solo.judge cfg.dwell now j.breached).2
        (t.solo.judge cfg.dwell now j.breached).1.state := by
  intro at_ next
  have hseat := seat_pass c cfg t.source now live unclaimed hj hnodup h.stand.one
  obtain ⟨-, -, hout⟩ := pass_self cfg t.source.alerts now live unclaimed hj hnodup h.stand.one
  have hnext : next = t.step c cfg j.key (.pass js now live unclaimed) := rfl
  rw [Twin.step, hfind] at hnext
  rw [hnext]
  refine ⟨hseat, rfl, rfl, ?_, rfl⟩
  rw [hout]
  rfl

theorem scan_state (h : Sane row.state now) (cluster : GoString) (key : RowKey) :
    (row.scan cluster key).state = row.state := by
  simp only [Row.scan]
  split
  next n hphase => exact absurd hphase (h.known n)
  next => rfl

/-- A restart leaves the key where it stood. -/
theorem Stand.restart (h : Stand d clock solo seat) (cluster : GoString) (key : RowKey) :
    Stand d clock { solo with restarted := true }
      ⟨none, seat.row.map (·.scan cluster key), seat.row⟩ := by
  cases h with
  | idle hrest => exact .idle hrest
  | live hactive _ hview hsane hrow hstored =>
    have hscan := scan_state hrow cluster key
    have hphase := congrArg AlertState.phase hstored
    rw [rewind_phase, rewind_phase] at hphase
    refine .waiting (by rwa [hscan, hphase]) rfl ?_ (hscan ▸ hrow) hscan.symm
    rw [hscan, hstored]
    exact hview.rewind 0
  | waiting hactive _ hview hsane hstored =>
    have hscan := scan_state (hstored ▸ hsane) cluster key
    refine .waiting (by rwa [hscan, hstored]) rfl ?_ (by rwa [hscan, hstored]) hscan.symm
    rwa [hscan, hstored]

theorem tracks_step (h : t.Tracks c cfg k) (hcomplete : t.Complete k ev)
    (hsettled : t.Settled cfg k ev) : (t.step c cfg k ev).Tracks c cfg k := by
  cases ev with
  | restart now order =>
    refine ⟨h.reports, ?_, h.readable⟩
    simp only [Twin.step]
    rw [seat_restart cfg h.readable]
    exact h.stand.restart cfg.cluster (c.render k)
  | pass js now live unclaimed =>
    obtain ⟨hnodup, hjudged, hclock, hnow⟩ := hcomplete
    obtain ⟨j, hj, rfl, hfind⟩ := find_key hjudged
    obtain ⟨hseat, hsolo, hclk, hreports, hsoloReports⟩ :=
      Twin.step_pass now live unclaimed h hj hnodup hfind
    obtain ⟨hstand, hreport⟩ := h.stand.judge hclock hnow fun hb hphase =>
      hsettled ⟨j, hj, rfl, hb⟩ hphase
    refine ⟨?_, ?_, ?_⟩
    · rw [hreports, hsoloReports]
      exact List.rel_append h.reports hreport
    · rw [hseat, hsolo, hclk]
      exact hstand
    · rw [Twin.step, hfind]
      exact h.readable.persist now _

/-- An episode that opens inside the window is reported without its history. -/
theorem settled_of_agree (h : t.Tracks c cfg k) (hcomplete : t.Complete k ev)
    (hagree : (t.step c cfg k ev).Agree cfg k) : t.Settled cfg k ev := by
  cases ev with
  | restart now order => trivial
  | pass js now live unclaimed =>
    obtain ⟨hnodup, hjudged, hclock, hnow⟩ := hcomplete
    obtain ⟨j, hj, rfl, hfind⟩ := find_key hjudged
    obtain ⟨-, -, -, hreports, hsoloReports⟩ :=
      Twin.step_pass now live unclaimed h hj hnodup hfind
    rintro ⟨j', hj', hkey, hb⟩ hphase
    obtain rfl : j' = j := List.inj_on_of_nodup_map hnodup hj' hj hkey
    have hlast := hagree.reports
    rw [hreports, hsoloReports] at hlast
    have hlength := h.reports.length_eq
    have hnew := List.forall₂_drop_append _ _ _ hlast
    rw [← hlength, List.drop_left] at hnew
    have hstand := h.stand
    generalize t.source.seat c j'.key = seat at hstand hnew
    cases hstand with
    | live hactive _ hview _ _ _ => exact absurd (hview.phase.trans hphase) hactive
    | waiting hactive _ hview _ _ =>
      have hsame := hview.phase
      rw [rewind_phase, rewind_phase] at hsame
      exact absurd (hsame.trans hphase) hactive
    | idle hrest =>
      have hidle : (if t.solo.restarted then t.solo.state.rewind now else t.solo.state) =
          t.solo.state := by
        rw [hrest]
        cases t.solo.restarted <;> rfl
      simp only [Solo.judge, hidle] at hnew
      generalize t.solo.state.fires = fires at hrest ⊢
      rw [hrest] at hnew
      simp only [judgeAt, hb] at hnew
      cases hnew with
      | cons hsame _ => exact hsame.view.window.symm

/-- The table reports a key as one machine would, in every state of every run, across
    restarts, just if no episode of the key opens with an earlier firing in the window. -/
theorem episodes_agree_iff {rows : Map RowKey Row} {evs : List (Event κ)}
    (hreadable : Readable c rows) (hfresh : rows.lookup (c.render k) = none)
    (hcomplete : Run.Steps (Twin.step c cfg k) (Twin.Complete k) { source := { rows } } evs) :
    Run.Always (Twin.step c cfg k) (Twin.Agree cfg k) { source := { rows } } evs ↔
      Run.Steps (Twin.step c cfg k) (Twin.Settled cfg k) { source := { rows } } evs := by
  have hstart : Twin.Tracks c cfg k { source := { rows } } := by
    refine ⟨.nil, ?_, hreadable⟩
    rw [Source.seat, hfresh]
    exact .idle rfl
  exact Run.always_iff_steps_of_invariant (fun _ h => h.agree)
    (fun _ _ h hlaw hcond => tracks_step h hlaw hcond)
    (fun _ _ h hlaw hagree => settled_of_agree h hlaw hagree) hstart hcomplete

end

end Lookout.Leeway
