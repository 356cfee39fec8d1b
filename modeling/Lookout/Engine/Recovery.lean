-- SUMMARY: The recovery tracker: the per-incident clearance state machine, its ticks, and its capacity.
import Lookout.Engine.Signal
import Lookout.Lib.Select

/-!
# Recovery tracker

The tracker watches bound incidents until their symptom is gone. On every tick
the clearance observers say for each incident whether its symptom is absent right
now and since when. An incident is called resolved once the symptom stayed clear
for the stability window, and a recurrence within the revert window takes the
resolution back.

The observers are symptom specific and live in the signal sources. A tick here
takes their answers as they are at that moment, so that the results hold whatever
the observers say.

A full tracker drops an incident for each new one, the oldest of the lowest class first.
Those that a handler tracks in a row are in the highest class and the newest.
-/

namespace Lookout.Engine

/-! ## Outcomes and verdicts -/

/-- `Resolution`: how an incident ended. -/
inductive Resolution where
  | recovered
  | objectDeleted
  deriving DecidableEq, Repr

/-- `Recovery`: the attachment of an outcome record. -/
structure Recovery where
  clearedAfter : Int := 0
  observedStableFor : Int := 0
  resolution : Resolution := .recovered
  resolvedAt : Int := 0
  revertedAfter : Int := 0
  deriving DecidableEq, Repr

/-- `Incident`: a bound incident as the tracker is told about it. -/
structure Incident where
  key : EventKey
  sessionID : GoString
  firstSeen : Int
  ref : IncidentRef
  deriving DecidableEq, Repr

/-- `Clearance`: an observer's verdict on one incident. A `stableSince` of zero
    vouches for this instant only. -/
structure Clearance where
  cleared : Bool
  stableSince : Int
  resolution : Resolution
  deriving DecidableEq, Repr

/-- `ClearanceObserver`: the verdict on an incident, none when it cannot judge it. -/
abbrev Observer : Type := Incident → Option Clearance

inductive OutcomeKind where
  | resolved
  | reverted
  deriving DecidableEq, Repr

/-- An emitted outcome: the signal that `resolvedSignal` composes. -/
structure Outcome where
  kind : OutcomeKind
  inc : Incident
  recovery : Recovery
  deriving DecidableEq, Repr

/-! ## The state machine -/

inductive RecoveryState where
  | symptomatic
  | clearing
  | resolved
  deriving DecidableEq, Repr

/-- `trackedIncident`. -/
structure TrackedIncident where
  inc : Incident
  state : RecoveryState := .symptomatic
  stabilityStart : Int := 0
  resolvedAt : Int := 0
  recovery : Recovery := {}
  trackedAt : Int
  judged : Bool := false
  deriving DecidableEq, Repr

/-- `defaultUncoveredTTL`. -/
def defaultUncoveredTTL : Int := hour

/-- `maxTrackedIncidents`. -/
def maxTrackedIncidents : Nat := 10000

/-- `RecoveryTracker`. It is only constructed with a positive stability window. -/
structure RecoveryTracker where
  incidents : Map EventKey TrackedIncident
  stableFor : Int
  revertWindow : Int
  uncoveredTTL : Int
  stableFor_pos : 0 < stableFor
  revertWindow_eq : revertWindow = stableFor

namespace RecoveryTracker

/-- `NewRecoveryTracker`. -/
def new (stableFor : Int) (h : 0 < stableFor) : RecoveryTracker :=
  { incidents := ∅, stableFor := stableFor, revertWindow := stableFor,
    uncoveredTTL := defaultUncoveredTTL, stableFor_pos := h, revertWindow_eq := rfl }

/-- The class an incident is evicted in: the lowest goes first. -/
def evictionTier (t : RecoveryTracker) (now : Int) (ti : TrackedIncident) : Nat :=
  if ti.state = .resolved then 0
  else if ti.judged = false ∧ since now ti.trackedAt > t.uncoveredTTL then 0
  else if ti.state = .clearing then 1
  else 2

/-- `evictOneLocked`: drop the oldest incident of the lowest class. -/
def evictOne (o : Map.Walk EventKey) (now : Int) (t : RecoveryTracker) : RecoveryTracker :=
  let visited := (Map.walk o t.incidents).filterMap fun k =>
    (t.incidents.lookup k).map fun ti => (k, t.evictionTier now ti, ti.trackedAt)
  let better := fun (x b : EventKey × Nat × Int) =>
    x.2.1 < b.2.1 || (x.2.1 == b.2.1 && x.2.2 < b.2.2)
  match Select.select better visited with
  | none => t
  | some victim => { t with incidents := t.incidents.erase victim.1 }

/-- `Track`: watch a bound incident, afresh when its key is already tracked. -/
def track (o : Map.Walk EventKey) (now : Int) (inc : Incident) (t : RecoveryTracker) :
    RecoveryTracker :=
  let inc := { inc with
    key := inc.key.canonical
    firstSeen := if inc.firstSeen = 0 then now else inc.firstSeen }
  let t := if inc.key ∉ t.incidents ∧ t.incidents.keys.card ≥ maxTrackedIncidents
    then t.evictOne o now else t
  { t with incidents := t.incidents.insert inc.key { inc := inc, trackedAt := now } }

/-- `Open`: the incident is tracked and not resolved. -/
def isOpen (t : RecoveryTracker) (key : EventKey) : Bool :=
  match t.incidents.lookup key.canonical with
  | none => false
  | some ti => ti.state != .resolved

/-- `RequeueResolved`: an outcome that could not be delivered goes back to clearing. -/
def requeueResolved (key : EventKey) (t : RecoveryTracker) : RecoveryTracker :=
  match t.incidents.lookup key.canonical with
  | none => t
  | some ti =>
    if ti.state = .resolved then
      { t with incidents := t.incidents.insert key.canonical { ti with state := .clearing } }
    else t

/-- `judge`: the first observer that can judge the incident wins. -/
def judge (observers : List Observer) (inc : Incident) : Option Clearance :=
  observers.findSome? fun o => o inc

/-- `stabilityStart`: when the current clear streak began, as the observer vouches
    for it, never in the future and never before the incident. -/
def stabilityStart (inc : Incident) (v : Clearance) (now : Int) : Int :=
  let s := if v.stableSince = 0 ∨ v.stableSince > now then now else v.stableSince
  if s < inc.firstSeen then inc.firstSeen else s

/-- The round of `Tick` for one incident that an observer judged. -/
def advance (t : RecoveryTracker) (now : Int) (v : Clearance) (ti : TrackedIncident) :
    Option TrackedIncident × Option Outcome :=
  match ti.state with
  | .symptomatic =>
    if v.cleared then
      (some { ti with state := .clearing, stabilityStart := stabilityStart ti.inc v now }, none)
    else (some ti, none)
  | .clearing =>
    if v.cleared then
      -- Only an observed `StableSince` moves the start of the streak forward.
      let start := if v.stableSince ≠ 0 ∧ ti.stabilityStart < stabilityStart ti.inc v now
        then stabilityStart ti.inc v now else ti.stabilityStart
      if since now start ≥ t.stableFor then
        let recovery : Recovery :=
          { clearedAfter := since start ti.inc.firstSeen, observedStableFor := since now start,
            resolution := v.resolution, resolvedAt := now }
        (some { ti with
            state := .resolved, stabilityStart := start, resolvedAt := now, recovery := recovery },
          some ⟨.resolved, ti.inc, recovery⟩)
      else (some { ti with stabilityStart := start }, none)
    else (some { ti with state := .symptomatic }, none)
  | .resolved =>
    if v.cleared = false ∧ since now ti.resolvedAt ≤ t.revertWindow then
      (some { ti with state := .symptomatic },
        some ⟨.reverted, ti.inc, { ti.recovery with revertedAfter := since now ti.resolvedAt }⟩)
    else if since now ti.resolvedAt > t.revertWindow then (none, none)
    else (some ti, none)

/-- The round of `Tick` for one incident. Nothing is left of an incident that is dropped. -/
def tickOne (t : RecoveryTracker) (observers : List Observer) (now : Int) (ti : TrackedIncident) :
    Option TrackedIncident × Option Outcome :=
  match judge observers ti.inc with
  | none =>
    if ti.judged = false ∧ since now ti.trackedAt > t.uncoveredTTL then (none, none)
    else (some ti, none)
  | some v => t.advance now v { ti with judged := true }

/-- `Tick`: judge every incident, and collect the outcomes in the order of the loop. -/
def tick (o : Map.Walk EventKey) (observers : List Observer) (now : Int) (t : RecoveryTracker) :
    RecoveryTracker × List Outcome :=
  let ks := Map.walk o t.incidents
  ({ t with incidents := Map.revise ks t.incidents fun _ ti => (t.tickOne observers now ti).1 },
    ks.filterMap fun k => (t.incidents.lookup k).bind fun ti => (t.tickOne observers now ti).2)

theorem lookup_tick (o : Map.Walk EventKey) (observers : List Observer) (now : Int)
    (t : RecoveryTracker) (k : EventKey) :
    (t.tick o observers now).1.incidents.lookup k =
      (t.incidents.lookup k).bind fun ti => (t.tickOne observers now ti).1 :=
  Map.lookup_revise (fun _ => Map.mem_walk.2) k

theorem mem_tick {o : Map.Walk EventKey} {observers : List Observer} {now : Int}
    {t : RecoveryTracker} {out : Outcome} :
    out ∈ (t.tick o observers now).2 ↔
      ∃ k ti, t.incidents.lookup k = some ti ∧ (t.tickOne observers now ti).2 = some out := by
  unfold tick
  rw [List.mem_filterMap]
  constructor
  · rintro ⟨k, -, h⟩
    obtain ⟨ti, hti, hout⟩ := Option.bind_eq_some_iff.1 h
    exact ⟨k, ti, hti, hout⟩
  · rintro ⟨k, ti, hti, hout⟩
    have hk : k ∈ t.incidents := Map.mem_iff_ne_none.2 (by rw [hti]; exact Option.some_ne_none ti)
    exact ⟨k, Map.mem_walk.2 hk, Option.bind_eq_some_iff.2 ⟨ti, hti, hout⟩⟩

end RecoveryTracker

end Lookout.Engine

namespace Lookout.Engine.RecoveryTracker

/-! ## Capacity -/

/-- The key was tracked at this instant and nobody has judged it cleared. -/
def Recent (now : Int) (k : EventKey) (t : RecoveryTracker) : Prop :=
  ∃ ti, t.incidents.lookup k = some ti ∧ ti.trackedAt = now ∧ ti.state = .symptomatic

/-- The keys tracked at this instant. -/
def recentKeys (now : Int) (t : RecoveryTracker) : Finset EventKey :=
  t.incidents.keys.filter fun k => (t.incidents.lookup k).any (·.trackedAt = now)

/-- There is room to track `n` more incidents at this instant. Everything else was
    tracked earlier. -/
structure Roomy (now : Int) (n : Nat) (t : RecoveryTracker) : Prop where
  ttl : 0 ≤ t.uncoveredTTL
  dated : ∀ k ti, t.incidents.lookup k = some ti →
    ti.trackedAt < now ∨ (ti.trackedAt = now ∧ ti.state = .symptomatic)
  room : (t.recentKeys now).card + n ≤ maxTrackedIncidents

variable {now now' : Int} {n : Nat} {t : RecoveryTracker} {k : EventKey} {ti : TrackedIncident}

theorem mem_recentKeys :
    k ∈ t.recentKeys now ↔ ∃ ti, t.incidents.lookup k = some ti ∧ ti.trackedAt = now := by
  rw [recentKeys, Finset.mem_filter, Finmap.mem_keys, Map.mem_iff_ne_none, Option.any_eq_true]
  constructor
  · rintro ⟨-, ti, hti, hnow⟩
    exact ⟨ti, hti, of_decide_eq_true hnow⟩
  · rintro ⟨ti, hti, hnow⟩
    exact ⟨by rw [hti]; exact Option.some_ne_none ti, ti, hti, decide_eq_true hnow⟩

theorem evictionTier_le (t : RecoveryTracker) (now : Int) (ti : TrackedIncident) :
    t.evictionTier now ti ≤ 2 := by
  unfold evictionTier
  split
  · omega
  · split
    · omega
    · split <;> omega

/-- An incident that was tracked just now is in the class that is evicted last. -/
theorem evictionTier_recent (h : 0 ≤ t.uncoveredTTL) (hnow : ti.trackedAt = now)
    (hstate : ti.state = .symptomatic) : t.evictionTier now ti = 2 := by
  have hage : ¬since now ti.trackedAt > t.uncoveredTTL := by
    rw [hnow, since_self]
    exact not_lt.2 h
  unfold evictionTier
  rw [if_neg (by rw [hstate]; decide), if_neg fun hold => hage hold.2,
    if_neg (by rw [hstate]; decide)]

/-- A full tracker with room for one more incident of this instant evicts an older one. -/
theorem evictOne_older (h : t.Roomy now (n + 1)) (hfull : t.incidents.keys.card ≥ maxTrackedIncidents)
    (o : Map.Walk EventKey) :
    ∃ k ti, t.evictOne o now = { t with incidents := t.incidents.erase k } ∧
      t.incidents.lookup k = some ti ∧ ti.trackedAt < now := by
  -- Not everything is recent, so something older is visited.
  obtain ⟨u, hu, hold⟩ : ∃ u ∈ t.incidents.keys, u ∉ t.recentKeys now := by
    refine Finset.exists_mem_notMem_of_card_lt_card (lt_of_lt_of_le ?_ hfull)
    have hroom := h.room
    omega
  obtain ⟨tu, htu⟩ := Option.ne_none_iff_exists'.1 (Map.mem_iff_ne_none.1 (Finmap.mem_keys.1 hu))
  have htuOld : tu.trackedAt < now :=
    (h.dated u tu htu).resolve_right fun hnow => hold (mem_recentKeys.2 ⟨tu, htu, hnow.1⟩)
  have hvisited : (u, t.evictionTier now tu, tu.trackedAt) ∈
      (Map.walk o t.incidents).filterMap fun k =>
        (t.incidents.lookup k).map fun ti => (k, t.evictionTier now ti, ti.trackedAt) :=
    List.mem_filterMap.2 ⟨u, Map.mem_walk.2 (Finmap.mem_keys.1 hu), by rw [htu, Option.map_some]⟩
  unfold evictOne
  dsimp only
  split
  · next hnone =>
    rw [Select.select_eq_none.1 hnone] at hvisited
    cases hvisited
  · next victim hvictim =>
    obtain ⟨k, -, hk⟩ := List.mem_filterMap.1 (Select.select_mem hvictim)
    obtain ⟨ti, hti, rfl⟩ := Option.map_eq_some_iff.1 hk
    refine ⟨k, ti, rfl, hti, ?_⟩
    refine (h.dated k ti hti).resolve_right fun hrecent => ?_
    have hbest := Select.select_best (by intro x; simp) (by
      intro x y z hxy hyz
      simp only [Bool.or_eq_true, decide_eq_true_eq, Bool.and_eq_true, beq_iff_eq] at hxy hyz ⊢
      omega) hvictim hvisited
    simp only [Bool.or_eq_true, decide_eq_true_eq, Bool.and_eq_true, beq_iff_eq,
      evictionTier_recent h.ttl hrecent.1 hrecent.2] at hbest
    have htier := evictionTier_le t now tu
    omega

theorem Recent.lookup_ne_none (h : Recent now k t) : t.incidents.lookup k ≠ none := by
  obtain ⟨ti, hti, -⟩ := h
  rw [hti]
  exact Option.some_ne_none ti

/-- What making room leaves: only something older may be gone. -/
theorem makeRoom_spec (h : t.Roomy now (n + 1)) (o : Map.Walk EventKey) (key : EventKey) :
    ∀ t', t' = (if key ∉ t.incidents ∧ t.incidents.keys.card ≥ maxTrackedIncidents
        then t.evictOne o now else t) →
      t'.Roomy now (n + 1) ∧ ∀ k, Recent now k t → Recent now k t' := by
  rintro t' rfl
  split
  · next hfull =>
    obtain ⟨k, ti, hevict, hti, hold⟩ := evictOne_older h hfull.2 o
    rw [hevict]
    refine ⟨⟨h.ttl, fun k' ti' hti' => h.dated k' ti' (Map.of_lookup_erase hti').2, ?_⟩, ?_⟩
    · refine le_trans (Nat.add_le_add_right (Finset.card_le_card fun k' hk' => ?_) _) h.room
      obtain ⟨ti', hti', hnow⟩ := mem_recentKeys.1 hk'
      exact mem_recentKeys.2 ⟨ti', (Map.of_lookup_erase hti').2, hnow⟩
    · rintro k' ⟨ti', hti', hnow, hstate⟩
      refine ⟨ti', ?_, hnow, hstate⟩
      rw [Map.lookup_erase, if_neg]
      · exact hti'
      · rintro rfl
        cases hti.symm.trans hti'
        omega
  · exact ⟨h, fun _ => id⟩

theorem recentKeys_insert_subset (t : RecoveryTracker) (now : Int) (key : EventKey)
    (ti : TrackedIncident) :
    ({ t with incidents := t.incidents.insert key ti }).recentKeys now ⊆
      insert key (t.recentKeys now) := by
  intro k hk
  obtain ⟨ti', hti, hnow⟩ := mem_recentKeys.1 hk
  rcases Map.of_lookup_insert hti with ⟨hkey, -⟩ | ⟨-, hti⟩
  · exact Finset.mem_insert.2 (Or.inl hkey)
  · exact Finset.mem_insert_of_mem (mem_recentKeys.2 ⟨ti', hti, hnow⟩)

/-- Tracking one incident: it is recent, and so is whatever was. -/
theorem track_spec (h : t.Roomy now (n + 1)) (o : Map.Walk EventKey) (inc : Incident) :
    (t.track o now inc).Roomy now n ∧ Recent now inc.key.canonical (t.track o now inc) ∧
      ∀ k, Recent now k t → Recent now k (t.track o now inc) := by
  obtain ⟨hroomy, hrecent⟩ := makeRoom_spec h o inc.key.canonical _ rfl
  unfold track
  dsimp only
  generalize (if inc.key.canonical ∉ t.incidents ∧ t.incidents.keys.card ≥ maxTrackedIncidents
    then t.evictOne o now else t) = t' at hroomy hrecent ⊢
  refine ⟨⟨hroomy.ttl, fun k ti hti => ?_, ?_⟩, ⟨_, Map.lookup_insert _ _ _ _ |>.trans (if_pos rfl),
    rfl, rfl⟩, fun k hk => ?_⟩
  · rcases Map.of_lookup_insert hti with ⟨-, rfl⟩ | ⟨-, hti⟩
    · exact Or.inr ⟨rfl, rfl⟩
    · exact hroomy.dated k ti hti
  · have hsub := recentKeys_insert_subset t' now inc.key.canonical { inc := { inc with
      key := inc.key.canonical
      firstSeen := if inc.firstSeen = 0 then now else inc.firstSeen }, trackedAt := now }
    have hcard := (Finset.card_le_card hsub).trans (Finset.card_insert_le _ _)
    have hroom := hroomy.room
    omega
  · obtain ⟨ti, hti, hnow, hstate⟩ := hrecent k hk
    rw [Recent, Map.lookup_insert]
    split
    · exact ⟨_, rfl, rfl, rfl⟩
    · exact ⟨ti, hti, hnow, hstate⟩

/-! ## Dates -/

/-- Nothing was tracked after the given time. -/
structure Dated (now : Int) (t : RecoveryTracker) : Prop where
  ttl : 0 ≤ t.uncoveredTTL
  tracked : ∀ k ti, t.incidents.lookup k = some ti → ti.trackedAt ≤ now

section

variable (h : t.Dated now)

include h

theorem Dated.mono (hle : now ≤ now') : t.Dated now' :=
  ⟨h.ttl, fun k ti hti => (h.tracked k ti hti).trans hle⟩

/-- At a later instant the whole capacity is there. -/
theorem Dated.roomy (hlt : now < now') : t.Roomy now' maxTrackedIncidents := by
  have hold (k : EventKey) (ti : TrackedIncident) (hti : t.incidents.lookup k = some ti) :
      ti.trackedAt < now' := (h.tracked k ti hti).trans_lt hlt
  refine ⟨h.ttl, fun k ti hti => Or.inl (hold k ti hti), ?_⟩
  have hnone : t.recentKeys now' = ∅ := by
    refine Finset.eq_empty_of_forall_notMem fun k hk => ?_
    obtain ⟨ti, hti, hnow⟩ := mem_recentKeys.1 hk
    exact absurd hnow (hold k ti hti).ne
  rw [hnone, Finset.card_empty, Nat.zero_add]

/-- Changing or dropping incidents keeps the dates as long as no date moves. -/
theorem Dated.of_incidents {t' : RecoveryTracker} (httl : t'.uncoveredTTL = t.uncoveredTTL)
    (hti : ∀ k ti', t'.incidents.lookup k = some ti' → ti'.trackedAt = now ∨
      ∃ ti, t.incidents.lookup k = some ti ∧ ti'.trackedAt = ti.trackedAt) : t'.Dated now := by
  refine ⟨httl ▸ h.ttl, fun k ti' hti' => ?_⟩
  rcases hti k ti' hti' with hnow | ⟨ti, hti, hsame⟩
  · exact hnow.le
  · exact hsame.trans_le (h.tracked k ti hti)

theorem Dated.evictOne (o : Map.Walk EventKey) : (t.evictOne o now).Dated now := by
  unfold RecoveryTracker.evictOne
  dsimp only
  split
  · exact h
  · exact h.of_incidents rfl fun k ti hti => Or.inr ⟨ti, (Map.of_lookup_erase hti).2, rfl⟩

theorem Dated.track (o : Map.Walk EventKey) (inc : Incident) : (t.track o now inc).Dated now := by
  unfold RecoveryTracker.track
  dsimp only
  generalize hroom : (if inc.key.canonical ∉ t.incidents ∧
    t.incidents.keys.card ≥ maxTrackedIncidents then t.evictOne o now else t) = t'
  have hdated : t'.Dated now := by
    rw [← hroom]
    split
    · exact h.evictOne o
    · exact h
  refine hdated.of_incidents rfl fun k ti hti => ?_
  rcases Map.of_lookup_insert hti with ⟨-, rfl⟩ | ⟨-, hti⟩
  · exact Or.inl rfl
  · exact Or.inr ⟨ti, hti, rfl⟩

end

theorem advance_trackedAt {v : Clearance} {ti' : TrackedIncident}
    (h : (t.advance now v ti).1 = some ti') : ti'.trackedAt = ti.trackedAt := by
  revert h
  fun_cases advance with
  | case7 => nofun
  | _ =>
    rintro ⟨⟩
    rfl

theorem Dated.tick (h : t.Dated now) (o : Map.Walk EventKey) (observers : List Observer)
    (now' : Int) : (t.tick o observers now').1.Dated now := by
  refine h.of_incidents rfl fun k ti' hti' => Or.inr ?_
  rw [lookup_tick] at hti'
  obtain ⟨ti, hti, hone⟩ := Option.bind_eq_some_iff.1 hti'
  refine ⟨ti, hti, ?_⟩
  unfold tickOne at hone
  split at hone
  · split at hone <;> cases hone
    rfl
  · exact (advance_trackedAt hone).trans rfl

theorem Dated.requeueResolved (h : t.Dated now) (key : EventKey) :
    (t.requeueResolved key).Dated now := by
  unfold RecoveryTracker.requeueResolved
  split
  · exact h
  · next ti hti =>
    split
    · refine h.of_incidents rfl fun k ti' hti' => Or.inr ?_
      rcases Map.of_lookup_insert hti' with ⟨hk, rfl⟩ | ⟨-, hti'⟩
      · exact ⟨ti, hk ▸ hti, rfl⟩
      · exact ⟨ti', hti', rfl⟩
    · exact h

end Lookout.Engine.RecoveryTracker
