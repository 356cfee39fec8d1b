-- SUMMARY: The table of open episodes, its rows in the store, and restarts.
import Lookout.Leeway.Reconcile
import Lookout.Leeway.Score

/-!
# Episode tables

Two sources keep one alert machine per key: the drift source per subject and axis, the
compute class source per axis and rule. Both keep only the machines that are not at rest,
advance them once per pass over a complete set of verdicts, and write every move through to
the same table of the store. The two passes are one function here, over any type of keys.

A key is a value the store can name: its row's key reads back as the key.
-/

namespace Lookout.Leeway

open Lookout.Engine

/-! ## Rows -/

/-- The primary key of a row, for one cluster. -/
structure RowKey where
  subjectKey : GoString
  topologyKey : GoString
  deriving DecidableEq, Repr

instance : LinearOrder RowKey :=
  LinearOrder.lift' (fun r => toLex (rank r.subjectKey, rank r.topologyKey)) fun r r' h => by
    obtain ⟨hs, ht⟩ := Prod.mk.inj (toLex.injective h)
    cases r
    cases r'
    rw [RowKey.mk.injEq]
    exact ⟨rank_injective hs, rank_injective ht⟩

/-- How a source names its episodes in the store. -/
structure RowCodec (κ : Type) where
  render : κ → RowKey
  parse : RowKey → Option κ
  parse_render : ∀ k, parse (render k) = some k
  /-- The store refuses a row without both parts of its key. -/
  named : ∀ k, (render k).subjectKey ≠ [] ∧ (render k).topologyKey ≠ []

theorem RowCodec.render_injective {κ : Type} (c : RowCodec κ) {k k' : κ}
    (h : c.render k = c.render k') : k = k' := by
  have hk := c.parse_render k
  rw [h, c.parse_render] at hk
  exact (Option.some.inj hk).symm

/-- What a row holds besides its key. -/
structure Row where
  state : AlertState
  updatedAt : Int
  deriving DecidableEq

/-- A row as the store reads it back. A phase it cannot name reads as the zero phase. -/
def Row.scan (cluster : GoString) (key : RowKey) (row : Row) : AlertRecord :=
  { cluster, subjectKey := key.subjectKey, topologyKey := key.topologyKey
    state := match row.state.phase with
      | .unknown _ => { row.state with phase := .ok }
      | _ => row.state
    updatedAt := row.updatedAt }

/-! ## The table -/

/-- `alertEntry`: a machine and the tier of its last verdict. -/
structure AlertEntry where
  state : AlertState
  tier : Tier
  deriving DecidableEq

/-- The open episodes, and the persisted records that have not met a verdict yet. -/
structure Alerts (κ : Type) where
  byKey : Map κ AlertEntry := ∅
  pending : Map κ AlertRecord := ∅
  pendingAt : Int := 0

structure Judgement (κ : Type) where
  key : κ
  breached : Bool
  tier : Tier
  deriving DecidableEq

/-- What one pass did to one episode. `gone` owes the store a delete. -/
structure Outcome (κ : Type) where
  key : κ
  transition : Transition
  state : AlertState
  tier : Tier
  gone : Bool
  deriving DecidableEq

/-- The settings of a source. -/
structure Settings where
  cluster : GoString := []
  dwell : Dwell := {}
  reconcileGrace : Int := 0

section

variable {κ : Type} [LinearOrder κ]

/-- `StateOf`: the machine of an open episode. -/
def Alerts.stateOf (a : Alerts κ) (k : κ) : Option AlertState := (a.byKey.lookup k).map (·.state)

/-- `Load`: the rows held aside until their keys are judged. -/
def Alerts.load (c : RowCodec κ) (cfg : Settings) (rows : Map RowKey Row) (o : Map.Walk RowKey)
    (now : Int) (a : Alerts κ) : Alerts κ :=
  { a with
    pending := Map.rebuild (Map.walk o rows) rows fun r row =>
      (c.parse r).map fun k => (k, row.scan cfg.cluster r)
    pendingAt := now }

/-- One verdict of a pass. -/
def Alerts.judge (d : Dwell) (now : Int) (a : Alerts κ) (j : Judgement κ) :
    Alerts κ × List (Outcome κ) :=
  match a.byKey.lookup j.key with
  | some entry =>
    let (state, tr) := entry.state.advance j.breached now d
    if state.phase = .ok then
      ({ a with byKey := a.byKey.erase j.key }, [⟨j.key, tr, state, j.tier, true⟩])
    else
      ({ a with byKey := a.byKey.insert j.key ⟨state, j.tier⟩ },
        if tr ≠ .none then [⟨j.key, tr, state, j.tier, false⟩] else [])
  | none =>
    match a.pending.lookup j.key with
    | some persisted =>
      let pending := a.pending.erase j.key
      let (rec, tr) := reconcile persisted j.breached now d
      if rec.state.phase = .ok then
        ({ a with pending }, [⟨j.key, tr, rec.state, j.tier, true⟩])
      else
        ({ a with pending, byKey := a.byKey.insert j.key ⟨rec.state, j.tier⟩ },
          [⟨j.key, tr, rec.state, j.tier, false⟩])
    | none =>
      if !j.breached then (a, [])
      else
        let (state, tr) := AlertState.advance {} true now d
        ({ a with byKey := a.byKey.insert j.key ⟨state, j.tier⟩ },
          [⟨j.key, tr, state, j.tier, false⟩])

/-- The verdicts of a pass in order, with what they did. -/
def Alerts.judgeAll (d : Dwell) (now : Int) (a : Alerts κ) (js : List (Judgement κ)) :
    Alerts κ × List (Outcome κ) :=
  js.foldl (fun acc j => ((acc.1.judge d now j).1, acc.2 ++ (acc.1.judge d now j).2)) (a, [])

/-- `Pass`: one complete set of verdicts. An episode without a verdict is dropped, and so
    are the persisted records nobody claimed within the grace period. -/
def Alerts.pass (cfg : Settings) (a : Alerts κ) (js : List (Judgement κ)) (now : Int)
    (live unclaimed : Map.Walk κ) : Alerts κ × List (Outcome κ) :=
  let (a, out) := a.judgeAll cfg.dwell now js
  let seen (k : κ) : Bool := js.any (·.key = k)
  let untracked := (Map.walk live a.byKey).filter (!seen ·)
  let out := out ++ untracked.filterMap fun k =>
    (a.byKey.lookup k).map fun e => ⟨k, .none, e.state, e.tier, true⟩
  let a := { a with byKey := Map.filter (fun k _ => seen k) a.byKey }
  if a.pending ≠ ∅ ∧ since now a.pendingAt ≥ cfg.reconcileGrace then
    ({ a with pending := ∅ },
      out ++ (Map.walk unclaimed a.pending).map fun k => ⟨k, .none, {}, .none, true⟩)
  else (a, out)

/-! ## The store -/

/-- `persistOutcome`: only a move is written, and an end is a delete. -/
def persistOutcome (c : RowCodec κ) (now : Int) (rows : Map RowKey Row) (o : Outcome κ) :
    Map RowKey Row :=
  if o.gone then rows.erase (c.render o.key)
  else if o.transition = .none then rows
  else if (c.render o.key).subjectKey = [] ∨ (c.render o.key).topologyKey = [] then rows
  else rows.insert (c.render o.key) { state := o.state, updatedAt := now }

/-- A source and its rows. -/
structure Source (κ : Type) where
  alerts : Alerts κ := {}
  rows : Map RowKey Row := ∅

/-- What happens to a source: a pass, or a restart that reloads the rows. The walks are the
    orders in which the pass and the load visit their maps. -/
inductive Event (κ : Type) where
  | pass (js : List (Judgement κ)) (now : Int) (live unclaimed : Map.Walk κ)
  | restart (now : Int) (order : Map.Walk RowKey)

/-- `runAlertPass`, and the load at a start. -/
def Source.step (c : RowCodec κ) (cfg : Settings) (s : Source κ) : Event κ → Source κ
  | .pass js now live unclaimed =>
    let (alerts, out) := s.alerts.pass cfg js now live unclaimed
    { alerts, rows := out.foldl (persistOutcome c now) s.rows }
  | .restart now order => { s with alerts := Alerts.load c cfg s.rows order now {} }

/-! ## One key of a source -/

/-- What a source holds about one key. -/
structure Seat where
  live : Option AlertEntry
  waiting : Option AlertRecord
  row : Option Row

def Source.seat (c : RowCodec κ) (s : Source κ) (k : κ) : Seat :=
  { live := s.alerts.byKey.lookup k
    waiting := s.alerts.pending.lookup k
    row := s.rows.lookup (c.render k) }

/-- A verdict at its own key: the entry it leaves and what it reports. -/
def judgeAt (d : Dwell) (now : Int) (j : Judgement κ) :
    Option AlertEntry → Option AlertRecord → Option AlertEntry × List (Outcome κ)
  | some entry, _ =>
    let (state, tr) := entry.state.advance j.breached now d
    if state.phase = .ok then (none, [⟨j.key, tr, state, j.tier, true⟩])
    else (some ⟨state, j.tier⟩, if tr ≠ .none then [⟨j.key, tr, state, j.tier, false⟩] else [])
  | none, some persisted =>
    let (rec, tr) := reconcile persisted j.breached now d
    if rec.state.phase = .ok then (none, [⟨j.key, tr, rec.state, j.tier, true⟩])
    else (some ⟨rec.state, j.tier⟩, [⟨j.key, tr, rec.state, j.tier, false⟩])
  | none, none =>
    if !j.breached then (none, [])
    else
      let (state, tr) := AlertState.advance {} true now d
      (some ⟨state, j.tier⟩, [⟨j.key, tr, state, j.tier, false⟩])

variable {j : Judgement κ} {k : κ} {js : List (Judgement κ)} {c : RowCodec κ} (d : Dwell)
  (now : Int) (a : Alerts κ)

omit [LinearOrder κ] in
theorem judgeAt_keys {d : Dwell} {now : Int} {live : Option AlertEntry}
    {waiting : Option AlertRecord} : ∀ o ∈ (judgeAt d now j live waiting).2, o.key = j.key := by
  fun_cases judgeAt <;> simp

theorem judge_self (j : Judgement κ)
    (hone : a.byKey.lookup j.key = none ∨ a.pending.lookup j.key = none) :
    let at_ := judgeAt d now j (a.byKey.lookup j.key) (a.pending.lookup j.key)
    (a.judge d now j).1.byKey.lookup j.key = at_.1 ∧
      (a.judge d now j).1.pending.lookup j.key = none ∧ (a.judge d now j).2 = at_.2 := by
  unfold Alerts.judge judgeAt
  cases hlive : a.byKey.lookup j.key with
  | some entry =>
    have hwait := hone.resolve_left (by simp [hlive])
    simp only
    split
    · simp [hwait]
    · simp [hwait]
  | none =>
    cases hwait : a.pending.lookup j.key with
    | some persisted =>
      simp only
      split
      · simp [hlive]
      · simp
    | none =>
      simp only
      split
      · simp [hlive, hwait]
      · simp [hwait]

theorem judge_other (j : Judgement κ) (hk : j.key ≠ k) :
    (a.judge d now j).1.byKey.lookup k = a.byKey.lookup k ∧
      (a.judge d now j).1.pending.lookup k = a.pending.lookup k ∧
      ∀ o ∈ (a.judge d now j).2, o.key = j.key := by
  have hk' : k ≠ j.key := hk.symm
  fun_cases Alerts.judge with
  | case3 | case4 => simp +zetaDelta [hk']
  | _ => simp [hk']

theorem judgeAll_append (js : List (Judgement κ)) (j : Judgement κ) : a.judgeAll d now (js ++ [j]) =
      (((a.judgeAll d now js).1.judge d now j).1,
        (a.judgeAll d now js).2 ++ ((a.judgeAll d now js).1.judge d now j).2) := by
  simp [Alerts.judgeAll]

theorem filter_key_eq_nil {out : List (Outcome κ)} {k' : κ} (hk : k' ≠ k)
    (hout : ∀ o ∈ out, o.key = k') : out.filter (·.key = k) = [] := by
  rw [List.filter_eq_nil_iff]
  intro o ho
  simp [hout o ho, hk]

/-- Verdicts of other keys leave a key alone. -/
theorem judgeAll_other (hk : ∀ j ∈ js, j.key ≠ k) :
    (a.judgeAll d now js).1.byKey.lookup k = a.byKey.lookup k ∧
      (a.judgeAll d now js).1.pending.lookup k = a.pending.lookup k ∧
      (a.judgeAll d now js).2.filter (·.key = k) = [] := by
  induction js using List.reverseRecOn with
  | nil => exact ⟨rfl, rfl, rfl⟩
  | append_singleton js j ih =>
    obtain ⟨hlive, hwait, hout⟩ := ih fun j' hj' => hk j' (List.mem_append_left _ hj')
    have hj : j.key ≠ k := hk j (by simp)
    obtain ⟨hlive', hwait', hout'⟩ := judge_other d now (a.judgeAll d now js).1 j hj
    rw [judgeAll_append]
    refine ⟨hlive'.trans hlive, hwait'.trans hwait, ?_⟩
    rw [List.filter_append, hout, filter_key_eq_nil hj hout', List.append_nil]

/-- A key that is judged once sees just its own verdict. -/
theorem judgeAll_self (hj : j ∈ js) (hnodup : (js.map (·.key)).Nodup)
    (hone : a.byKey.lookup j.key = none ∨ a.pending.lookup j.key = none) :
    let at_ := judgeAt d now j (a.byKey.lookup j.key) (a.pending.lookup j.key)
    (a.judgeAll d now js).1.byKey.lookup j.key = at_.1 ∧
      (a.judgeAll d now js).1.pending.lookup j.key = none ∧
      (a.judgeAll d now js).2.filter (·.key = j.key) = at_.2 := by
  intro at_
  induction js using List.reverseRecOn with
  | nil => cases hj
  | append_singleton js j' ih =>
    rw [List.map_append, List.map_singleton, List.nodup_append] at hnodup
    obtain ⟨hjs, -, hdisjoint⟩ := hnodup
    rw [judgeAll_append]
    rcases List.mem_append.mp hj with hmem | hlast
    · -- The verdict came earlier, and the last one is of another key.
      have hne : j'.key ≠ j.key := by
        intro heq
        exact hdisjoint j.key (List.mem_map_of_mem hmem) j'.key (by simp) heq.symm
      obtain ⟨hlive, hwait, hout⟩ := ih hmem hjs
      obtain ⟨hlive', hwait', hout'⟩ := judge_other d now (a.judgeAll d now js).1 j' hne
      refine ⟨hlive'.trans hlive, hwait'.trans hwait, ?_⟩
      rw [List.filter_append, hout, filter_key_eq_nil hne hout', List.append_nil]
    · obtain rfl := List.mem_singleton.mp hlast
      have hothers : ∀ j' ∈ js, j'.key ≠ j.key := by
        intro j' hj' heq
        exact hdisjoint j'.key (List.mem_map_of_mem hj') j.key (by simp) heq
      obtain ⟨hlive, hwait, hout⟩ := judgeAll_other d now a hothers
      have hself := judge_self d now (a.judgeAll d now js).1 j (by rw [hlive, hwait]; exact hone)
      rw [hlive, hwait] at hself
      obtain ⟨hlive', hwait', hout'⟩ := hself
      refine ⟨hlive', hwait', ?_⟩
      have hkeys : ∀ o ∈ at_.2, o.key = j.key := judgeAt_keys
      rw [List.filter_append, hout, List.nil_append, hout', List.filter_eq_self]
      intro o ho
      simpa using hkeys o ho

/-- A pass at a key it judges once. -/
theorem pass_self (cfg : Settings) (a : Alerts κ) (now : Int) (live unclaimed : Map.Walk κ)
    (hj : j ∈ js) (hnodup : (js.map (·.key)).Nodup)
    (hone : a.byKey.lookup j.key = none ∨ a.pending.lookup j.key = none) :
    let at_ := judgeAt cfg.dwell now j (a.byKey.lookup j.key) (a.pending.lookup j.key)
    (a.pass cfg js now live unclaimed).1.byKey.lookup j.key = at_.1 ∧
      (a.pass cfg js now live unclaimed).1.pending.lookup j.key = none ∧
      (a.pass cfg js now live unclaimed).2.filter (·.key = j.key) = at_.2 := by
  intro at_
  obtain ⟨hlive, hwait, hout⟩ := judgeAll_self cfg.dwell now a hj hnodup hone
  have hseen : js.any (·.key = j.key) = true := by
    rw [List.any_eq_true]
    exact ⟨j, hj, by simp⟩
  unfold Alerts.pass
  generalize a.judgeAll cfg.dwell now js = res at hlive hwait hout ⊢
  obtain ⟨a', out⟩ := res
  simp only at hlive hwait hout ⊢
  have hkept : (Map.filter (fun k _ => js.any (·.key = k)) a'.byKey).lookup j.key = at_.1 := by
    rw [Map.lookup_filter, hlive, hseen]
    cases at_.1 <;> rfl
  -- What is reported for dropped episodes is reported for other keys.
  have huntracked : (((Map.walk live a'.byKey).filter fun k => !js.any (·.key = k)).filterMap
      fun k => (a'.byKey.lookup k).map fun e =>
        (⟨k, .none, e.state, e.tier, true⟩ : Outcome κ)).filter (·.key = j.key) = [] := by
    rw [List.filter_eq_nil_iff]
    intro o ho
    obtain ⟨k, hk, hmap⟩ := List.mem_filterMap.mp ho
    obtain ⟨e, -, rfl⟩ := Option.map_eq_some_iff.mp hmap
    have hunseen := (List.mem_filter.mp hk).2
    intro heq
    have hkey : k = j.key := by simpa using heq
    rw [hkey, hseen] at hunseen
    cases hunseen
  split
  next =>
    refine ⟨hkept, Finmap.lookup_empty _, ?_⟩
    have hunclaimed : ((Map.walk unclaimed a'.pending).map fun k =>
        (⟨k, .none, {}, .none, true⟩ : Outcome κ)).filter (·.key = j.key) = [] := by
      rw [List.filter_eq_nil_iff]
      intro o ho
      obtain ⟨k, hk, rfl⟩ := List.mem_map.mp ho
      intro heq
      have hkey : k = j.key := by simpa using heq
      rw [hkey, Map.mem_walk, Map.mem_iff_ne_none] at hk
      exact hk hwait
    rw [List.filter_append, List.filter_append, hout, huntracked, hunclaimed, List.append_nil,
      List.append_nil]
  next =>
    refine ⟨hkept, hwait, ?_⟩
    rw [List.filter_append, hout, huntracked, List.append_nil]

/-- An outcome written at its own row. -/
def persistAt (now : Int) (row : Option Row) (o : Outcome κ) : Option Row :=
  if o.gone then none
  else if o.transition = .none then row
  else some { state := o.state, updatedAt := now }

/-- Only the outcomes of a key touch its row. -/
theorem persist_lookup (c : RowCodec κ) (now : Int) (rows : Map RowKey Row)
    (out : List (Outcome κ)) (k : κ) :
    (out.foldl (persistOutcome c now) rows).lookup (c.render k) =
      (out.filter (·.key = k)).foldl (persistAt now) (rows.lookup (c.render k)) := by
  induction out generalizing rows with
  | nil => rfl
  | cons o out ih =>
    rw [List.foldl_cons, ih]
    by_cases hk : o.key = k
    · rw [List.filter_cons_of_pos (by simpa using hk), List.foldl_cons]
      congr 1
      have hnamed := c.named k
      simp only [persistOutcome, persistAt, hk]
      split
      · simp
      split
      · rfl
      · rw [if_neg (by simp [hnamed])]
        simp
    · rw [List.filter_cons_of_neg (by simpa using hk)]
      congr 1
      have hne : c.render k ≠ c.render o.key := fun h => hk (c.render_injective h).symm
      simp only [persistOutcome]
      split
      · simp [hne]
      split
      · rfl
      split
      · rfl
      · simp [hne]

/-- A pass at a key it judges once, with the row. -/
theorem seat_pass (c : RowCodec κ) (cfg : Settings) (s : Source κ) (now : Int)
    (live unclaimed : Map.Walk κ) (hj : j ∈ js) (hnodup : (js.map (·.key)).Nodup)
    (hone : (s.seat c j.key).live = none ∨ (s.seat c j.key).waiting = none) :
    let at_ := judgeAt cfg.dwell now j (s.seat c j.key).live (s.seat c j.key).waiting
    (s.step c cfg (.pass js now live unclaimed)).seat c j.key =
      { live := at_.1, waiting := none
        row := at_.2.foldl (persistAt now) (s.seat c j.key).row } := by
  intro at_
  obtain ⟨hlive, hwait, hout⟩ := pass_self cfg s.alerts now live unclaimed hj hnodup hone
  simp only [Source.seat, Source.step]
  rw [hlive, hwait, persist_lookup, hout]
  rfl

/-- Every row the source can read is named as the source names it. -/
def Readable (c : RowCodec κ) (rows : Map RowKey Row) : Prop :=
  ∀ r k, rows.lookup r ≠ none → c.parse r = some k → c.render k = r

omit [LinearOrder κ] in
theorem Readable.persist {rows : Map RowKey Row} (h : Readable c rows) (now : Int)
    (out : List (Outcome κ)) : Readable c (out.foldl (persistOutcome c now) rows) := by
  induction out generalizing rows with
  | nil => exact h
  | cons o out ih =>
    refine ih ?_
    intro r k hrow hparse
    by_cases hr : r = c.render o.key
    · rw [hr, c.parse_render] at hparse
      rw [hr, Option.some.inj hparse]
    · refine h r k ?_ hparse
      unfold persistOutcome at hrow
      split at hrow
      · rwa [Map.lookup_erase, if_neg hr] at hrow
      split at hrow
      · exact hrow
      split at hrow
      · exact hrow
      · rwa [Map.lookup_insert, if_neg hr] at hrow

/-- A restart moves the row of a key to the records that wait for a verdict. -/
theorem seat_restart (cfg : Settings) {s : Source κ} (h : Readable c s.rows) (now : Int)
    (order : Map.Walk RowKey) (k : κ) :
    (s.step c cfg (.restart now order)).seat c k =
      { live := none
        waiting := (s.seat c k).row.map (·.scan cfg.cluster (c.render k))
        row := (s.seat c k).row } := by
  simp only [Source.seat, Source.step, Alerts.load]
  congr 1
  apply Option.ext
  intro rec
  rw [Map.lookup_rebuild, Option.map_eq_some_iff]
  · constructor
    · rintro ⟨r, -, row, hrow, hparse⟩
      obtain ⟨k', hk', heq⟩ := Option.map_eq_some_iff.mp hparse
      obtain ⟨rfl, rfl⟩ := Prod.mk.inj heq
      have hr := h r k' (by simp [hrow]) hk'
      exact ⟨row, by rw [hr, hrow], by rw [hr]⟩
    · rintro ⟨row, hrow, rfl⟩
      refine ⟨c.render k, ?_, row, hrow, by rw [c.parse_render]; rfl⟩
      rw [Map.mem_walk, Map.mem_iff_ne_none, hrow]
      simp
  · intro r₁ r₂ row₁ row₂ k' b₁ b₂ hrow₁ hrow₂ h₁ h₂
    obtain ⟨k₁, hk₁, heq₁⟩ := Option.map_eq_some_iff.mp h₁
    obtain ⟨k₂, hk₂, heq₂⟩ := Option.map_eq_some_iff.mp h₂
    rw [← h r₁ k₁ (by simp [hrow₁]) hk₁, ← h r₂ k₂ (by simp [hrow₂]) hk₂, (Prod.mk.inj heq₁).1,
      (Prod.mk.inj heq₂).1]

end

end Lookout.Leeway
