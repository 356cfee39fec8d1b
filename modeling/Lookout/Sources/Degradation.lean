-- SUMMARY: The degradation source, and when the clearance of a flapping pod is right in every run.
import Lookout.Lib.Run
import Lookout.Sources.Objects
import Mathlib.Algebra.Order.Field.Rat

/-!
# Degradation source

The source keeps, for every Service, the ready and total endpoints of each of its
EndpointSlices and a series of samples of their ratio. A ratio that falls far enough, in
more than one step, within the window is a capacity incident. For every pod it counts how
often the readiness gate flipped within the window, and empties the count when it makes a
signal. The clearance of a flapping pod looks at the same count.

A tick samples every Service once more and drops what no event has touched for the time
of `StateTTL`. The text of a signal is composed from the evidence in `Decline` and `Flap`.
-/

namespace Lookout.Sources.Degradation

open Engine

/-! ## Objects and state -/

/-- `discoveryv1.EndpointSlice`. An endpoint is its ready condition. -/
structure EndpointSlice where
  ns : GoString
  name : GoString
  /-- The label of the Service, empty if there is none. -/
  serviceName : GoString
  owners : List OwnerReference := []
  endpoints : List (Option Bool) := []
  deriving DecidableEq, Repr

def EndpointSlice.key (sl : EndpointSlice) : ObjectName := ⟨sl.ns, sl.name⟩

/-- `serviceKey` of a slice. -/
def EndpointSlice.service (sl : EndpointSlice) : ObjectName := ⟨sl.ns, sl.serviceName⟩

/-- `Config`, without the interval at which the tick is called. -/
structure Config where
  window : Int := 0
  drop : ℚ := 0
  minDownSteps : Int := 0
  flapCount : Int := 0
  sampleFloor : Int := 0
  stateTTL : Int := 0

def defaultConfig : Config where
  window := 15 * minute
  drop := 3 / 10
  minDownSteps := 2
  flapCount := 4
  sampleFloor := 10 * second
  stateTTL := 24 * hour

def Config.normalize (c : Config) : Config where
  window := if c.window ≤ 0 then defaultConfig.window else c.window
  drop := if c.drop ≤ 0 ∨ 1 < c.drop then defaultConfig.drop else c.drop
  minDownSteps := if c.minDownSteps ≤ 0 then defaultConfig.minDownSteps else c.minDownSteps
  flapCount := if c.flapCount ≤ 0 then defaultConfig.flapCount else c.flapCount
  sampleFloor := if c.sampleFloor ≤ 0 then defaultConfig.sampleFloor else c.sampleFloor
  stateTTL := if c.stateTTL ≤ 0 then defaultConfig.stateTTL else c.stateTTL

/-- `sliceCounts` -/
structure SliceCounts where
  ready : Nat
  total : Nat
  deriving DecidableEq, Repr

structure Sample where
  at_ : Int
  ready : Nat
  total : Nat
  deriving DecidableEq, Repr

def Sample.ratio (s : Sample) : ℚ := if s.total = 0 then 0 else s.ready / s.total

/-- `svcState`. The keys of `slices` are the names of the slices. -/
structure SvcState where
  slices : Map GoString SliceCounts := ∅
  uid : UID := []
  samples : List Sample := []
  fired : Bool := false
  baseline : ℚ := 0
  recoveredSince : Int := 0
  lastSeen : Int := 0

def SvcState.totals (st : SvcState) : SliceCounts where
  ready := ∑ k ∈ st.slices.keys, ((st.slices.lookup k).map (·.ready)).getD 0
  total := ∑ k ∈ st.slices.keys, ((st.slices.lookup k).map (·.total)).getD 0

/-- `podFlapState` -/
structure PodFlapState where
  ns : GoString
  name : GoString
  node : GoString
  ready : Bool
  flips : List Int := []
  lastFlipAt : Int := 0
  lastSeen : Int

structure Source where
  cfg : Config
  armed : Bool := false
  services : Map ObjectName SvcState := ∅
  pods : Map UID PodFlapState := ∅

def new (cfg : Config) : Source := { cfg := cfg.normalize }

/-! ## Capacity of a Service -/

/-- What `evaluate` composes the signal of a decline from. -/
structure Decline where
  uid : UID
  service : ObjectName
  severity : Severity
  first : Sample
  last : Sample
  downSteps : Nat
  samples : List Sample
  now : Int

def sliceCountsOf (sl : EndpointSlice) : SliceCounts where
  ready := sl.endpoints.countP fun ready => ready.getD true
  total := sl.endpoints.length

/-- `sliceServiceUID` -/
def sliceServiceUID (sl : EndpointSlice) : UID :=
  ((sl.owners.find? fun ref => ref.kind = bytes "Service").map (·.uid)).getD []

def pruneSamples (samples : List Sample) (cutoff : Int) : List Sample :=
  samples.filter fun s => !(s.at_ < cutoff)

/-- The downward steps of a series. -/
def downSteps : List Sample → Nat
  | s :: s' :: rest => (if s'.ratio < s.ratio then 1 else 0) + downSteps (s' :: rest)
  | _ => 0

/-- `CriticalRatio` -/
def criticalRatio : ℚ := 1 / 2

/-- `evaluate`: the latch of a Service after its last sample, and a decline. -/
def evaluate (cfg : Config) (armed : Bool) (key : ObjectName) (now : Int) (st : SvcState) :
    SvcState × Option Decline :=
  match st.samples.head?, st.samples.getLast? with
  | some first, some cur =>
    let rn := cur.ratio
    if st.fired then
      if 0 < cur.total && (st.baseline ≤ rn || 1 ≤ rn) then
        ({ st with fired := false, recoveredSince := now }, none)
      else (st, none)
    else if !armed || st.samples.length < 3 then (st, none)
    -- No endpoint is ready at all: another source reports that.
    else if cur.total = 0 || rn ≤ 0 then (st, none)
    else if first.ratio - rn < cfg.drop then (st, none)
    else if (downSteps st.samples : Int) < cfg.minDownSteps then (st, none)
    else
      ({ st with fired := true, baseline := first.ratio, recoveredSince := 0 },
        some
          { uid := if st.uid = [] then
              bytes "service:" ++ key.ns ++ bytes "/" ++ key.name else st.uid
            service := key
            severity := if rn ≤ criticalRatio then .critical else .warning
            first := first, last := cur
            downSteps := downSteps st.samples
            samples := st.samples
            now := now })
  | _, _ => (st, none)

/-- `recordAndEvaluate`. A sample within the floor of the last one replaces its counts. -/
def recordAndEvaluate (cfg : Config) (armed : Bool) (key : ObjectName) (now : Int)
    (st : SvcState) : SvcState × Option Decline :=
  let counts := st.totals
  let samples := match st.samples.getLast? with
    | some last =>
      if since now last.at_ < cfg.sampleFloor then
        st.samples.dropLast ++ [⟨last.at_, counts.ready, counts.total⟩]
      else st.samples ++ [⟨now, counts.ready, counts.total⟩]
    | none => [⟨now, counts.ready, counts.total⟩]
  evaluate cfg armed key now { st with samples := pruneSamples samples (now - cfg.window) }

namespace Source

def onSlice (now : Int) (sl : EndpointSlice) (s : Source) : Source × Option Decline :=
  if sl.serviceName = [] then (s, none)
  else
    let st := (s.services.lookup sl.service).getD {}
    let (st, out) := recordAndEvaluate s.cfg s.armed sl.service now
      { st with
        uid := if st.uid = [] then sliceServiceUID sl else st.uid
        lastSeen := now
        slices := st.slices.insert sl.name (sliceCountsOf sl) }
    ({ s with services := s.services.insert sl.service st }, out)

def onSliceDelete (now : Int) (sl : EndpointSlice) (s : Source) : Source × Option Decline :=
  if sl.serviceName = [] then (s, none)
  else match s.services.lookup sl.service with
    | none => (s, none)
    | some st =>
      let slices := st.slices.erase sl.name
      if slices.keys = ∅ then ({ s with services := s.services.erase sl.service }, none)
      else
        let (st, out) := recordAndEvaluate s.cfg s.armed sl.service now
          { st with slices := slices, lastSeen := now }
        ({ s with services := s.services.insert sl.service st }, out)

/-! ## Flaps of a pod -/

/-- What `onPod` composes the signal of a flapping pod from. -/
structure Flap where
  pod : Pod
  flips : List Int
  now : Int

def onPod (now : Int) (p : Pod) (s : Source) : Source × Option Flap :=
  match p.readyCondition with
  | none => (s, none)
  | some ready =>
    match s.pods.lookup p.uid with
    | none =>
      ({ s with
        pods := s.pods.insert p.uid
          { ns := p.ns, name := p.name, node := p.node, ready := ready, lastSeen := now } }, none)
    | some st =>
      let st := { st with lastSeen := now }
      if ready = st.ready then ({ s with pods := s.pods.insert p.uid st }, none)
      else
        let flips := (st.flips ++ [now]).filter fun t => now - s.cfg.window < t
        let st := { st with ready := ready, flips := flips, lastFlipAt := now }
        if s.armed && s.cfg.flapCount ≤ flips.length then
          ({ s with pods := s.pods.insert p.uid { st with flips := [] } }, some ⟨p, flips, now⟩)
        else ({ s with pods := s.pods.insert p.uid st }, none)

def onPodDelete (p : Pod) (s : Source) : Source := { s with pods := s.pods.erase p.uid }

/-! ## The tick -/

/-- `tick`: a sample for every Service, in the order of the walk, and the prune. -/
def tick (w : Map.Walk ObjectName) (now : Int) (s : Source) : Source × List Decline :=
  let keys := Map.walk w s.services
  let cutoff := now - s.cfg.stateTTL
  let sampled := Map.revise keys s.services fun key st =>
    some (recordAndEvaluate s.cfg s.armed key now st).1
  ({ s with
      services := Map.filter (fun _ st => !(st.lastSeen < cutoff)) sampled
      pods := Map.filter (fun _ st => !(st.lastSeen < cutoff)) s.pods },
    keys.filterMap fun key =>
      (s.services.lookup key).bind fun st => (recordAndEvaluate s.cfg s.armed key now st).2)

/-! ## Clearance -/

def capacityReason : GoString := bytes "capacity"

def probeFlapReason : GoString := bytes "probe_flap"

/-- `clearance.Clearance` -/
def clearance (now : Int) (s : Source) (inc : Incident) : Option Clearance :=
  if !s.armed then none
  else if inc.key.reason = capacityReason then
    if !equalFold inc.ref.kindOfObject (bytes "Service") then none
    else match s.services.lookup ⟨inc.ref.ns, inc.ref.name⟩ with
      | none => some objectGone
      | some st => some (if st.fired then held else ⟨true, st.recoveredSince, .recovered⟩)
  else if inc.key.reason = probeFlapReason then
    if !equalFold inc.ref.kindOfObject (bytes "Pod") then none
    else match s.pods.lookup inc.key.uid with
      | none => some objectGone
      | some st =>
        let flips := st.flips.countP fun t => now - s.cfg.window < t
        some (if st.ready && flips = 0 then ⟨true, st.lastFlipAt, .recovered⟩ else held)
  else none

end Source

open Source (probeFlapReason capacityReason)

/-! ## Flapping pods -/

/-- The source with the last reported readiness of every pod, the time of its latest flip
    and the time of the latest update. -/
structure Watcher where
  source : Source
  reported : UID → Option Bool := fun _ => none
  lastFlip : UID → Option Int := fun _ => none
  clock : Int

namespace Watcher

variable (w : Watcher)

def new (cfg : Config) (start : Int) : Watcher := { source := Degradation.new cfg, clock := start }

inductive Event where
  | arm
  | pod (now : Int) (p : Pod)

/-- The update reports another readiness than the pod's last report. -/
def flips (p : Pod) : Bool :=
  match p.readyCondition, w.reported p.uid with
  | some ready, some old => ready != old
  | _, _ => false

def step : Event → Watcher
  | .arm => { w with source := { w.source with armed := true } }
  | .pod now p =>
    { source := (w.source.onPod now p).1
      reported := fun u => if u = p.uid then p.readyCondition.or (w.reported u) else w.reported u
      lastFlip := fun u => if u = p.uid ∧ w.flips p = true then some now else w.lastFlip u
      clock := now }

/-- A flapping pod is called recovered only if it is Ready and has not flipped for the time
    of the window. -/
def Honest : Prop :=
  ∀ now inc c, w.clock ≤ now → inc.key.reason = probeFlapReason →
    w.source.clearance now inc = some c → c.cleared = true → c.resolution = .recovered →
      w.reported inc.key.uid = some true ∧
        ∀ t, w.lastFlip inc.key.uid = some t → t ≤ now - w.source.cfg.window

/-- The flips of a pod that count at an update that is one more flip. -/
def flipsAt (now : Int) (st : PodFlapState) : List Int :=
  (st.flips ++ [now]).filter fun t => now - w.source.cfg.window < t

/-- An update that does not complete a burst of flips with a flip to Ready. -/
def Calm : Event → Prop
  | .arm => True
  | .pod now p => ∀ st, w.source.pods.lookup p.uid = some st → w.source.armed = true →
      st.ready = false → p.readyCondition = some true →
        (w.flipsAt now st).length < w.source.cfg.flapCount

/-! ## One update -/

/-- The memory of a pod after an update. -/
def podAfter (now : Int) (p : Pod) : Option PodFlapState :=
  match p.readyCondition, w.source.pods.lookup p.uid with
  | none, st => st
  | some ready, none =>
    some { ns := p.ns, name := p.name, node := p.node, ready := ready, lastSeen := now }
  | some ready, some st =>
    if ready = st.ready then some { st with lastSeen := now }
    else some
      { st with
        lastSeen := now, ready := ready, lastFlipAt := now
        flips := if w.source.armed ∧ w.source.cfg.flapCount ≤ (w.flipsAt now st).length then []
          else w.flipsAt now st }

theorem lookup_onPod (now : Int) (p : Pod) (u : UID) :
    (w.source.onPod now p).1.pods.lookup u =
      if u = p.uid then w.podAfter now p else w.source.pods.lookup u := by
  unfold Source.onPod podAfter flipsAt
  cases p.readyCondition with
  | none =>
    dsimp only
    split
    next hu => rw [hu]
    next => rfl
  | some ready =>
    cases w.source.pods.lookup p.uid with
    | none => exact Map.lookup_insert ..
    | some st =>
      simp only [Bool.and_eq_true, decide_eq_true_eq]
      by_cases hsame : ready = st.ready
      · simp only [if_pos hsame]
        exact Map.lookup_insert ..
      · simp only [if_neg hsame]
        split <;> exact Map.lookup_insert ..

theorem onPod_keeps (now : Int) (p : Pod) (s : Source) :
    (s.onPod now p).1.cfg = s.cfg ∧ (s.onPod now p).1.armed = s.armed := by
  unfold Source.onPod
  split
  · exact ⟨rfl, rfl⟩
  · split
    · exact ⟨rfl, rfl⟩
    · dsimp only
      repeat' split
      all_goals exact ⟨rfl, rfl⟩

variable {w : Watcher}

theorem mem_flipsAt (hwindow : 0 < w.source.cfg.window) (now : Int) (st : PodFlapState) :
    now ∈ w.flipsAt now st := by
  refine List.mem_filter.2 ⟨List.mem_append_right _ List.mem_cons_self, ?_⟩
  exact decide_eq_true (by omega)

/-- The memory of a pod agrees with its reports, and if it is Ready then its latest flip is
    still counted. -/
structure Agrees (reported : Option Bool) (lastFlip : Option Int) (memory : Option PodFlapState) :
    Prop where
  reported : reported = memory.map (·.ready)
  unflipped : memory = none → lastFlip = none
  counted : ∀ st t, memory = some st → st.ready = true → lastFlip = some t → t ∈ st.flips

structure Counted (w : Watcher) : Prop where
  window : 0 < w.source.cfg.window
  agrees : ∀ u, Agrees (w.reported u) (w.lastFlip u) (w.source.pods.lookup u)

theorem counted_new (cfg : Config) (start : Int) : (new cfg start).Counted := by
  refine ⟨?_, fun u => ⟨rfl, fun _ => rfl, fun st t hst => ?_⟩⟩
  · simp only [new, Degradation.new, Config.normalize]
    split
    · decide
    next h => exact not_le.1 h
  · exact absurd hst (by simp [new, Degradation.new])

variable {now : Int} {e : Event}

/-- A flapping pod is called recovered just if its memory says Ready and holds no flip
    within the window. -/
theorem recovered_iff {s : Source} {inc : Incident} (hreason : inc.key.reason = probeFlapReason) :
    (∃ c, s.clearance now inc = some c ∧ c.cleared = true ∧ c.resolution = .recovered) ↔
      s.armed = true ∧ equalFold inc.ref.kindOfObject (bytes "Pod") = true ∧
        ∃ st, s.pods.lookup inc.key.uid = some st ∧ st.ready = true ∧
          ∀ t ∈ st.flips, t ≤ now - s.cfg.window := by
  have hcapacity : probeFlapReason ≠ capacityReason := by decide +kernel
  unfold Source.clearance
  rw [hreason, if_neg hcapacity, if_pos rfl]
  cases s.armed with
  | false => simp
  | true =>
    cases equalFold inc.ref.kindOfObject (bytes "Pod") with
    | false => simp
    | true =>
      cases s.pods.lookup inc.key.uid with
      | none => simp [objectGone]
      | some st =>
        have hcalm : (st.ready && decide (st.flips.countP (fun t => now - s.cfg.window < t) = 0))
            = true ↔ st.ready = true ∧ ∀ t ∈ st.flips, t ≤ now - s.cfg.window := by
          simp
        by_cases h : st.ready = true ∧ ∀ t ∈ st.flips, t ≤ now - s.cfg.window
        · simp only [if_pos (hcalm.2 h)]
          simpa using h
        · simp only [if_neg (mt hcalm.1 h)]
          simpa [held] using h

theorem Counted.honest (h : w.Counted) : w.Honest := by
  intro now inc c _ hreason hc hcleared hrecovered
  obtain ⟨-, -, st, hst, hready, hflips⟩ := (recovered_iff hreason).1 ⟨c, hc, hcleared, hrecovered⟩
  have hagrees := h.agrees inc.key.uid
  refine ⟨by rw [hagrees.reported, hst, Option.map_some, hready], fun t ht => ?_⟩
  exact hflips t (hagrees.counted st t hst hready ht)

/-- What a calm update makes of the pod it is about. -/
theorem Counted.podAfter (h : w.Counted) {p : Pod} (hcalm : w.Calm (.pod now p)) :
    Agrees (p.readyCondition.or (w.reported p.uid))
      (if w.flips p = true then some now else w.lastFlip p.uid) (w.podAfter now p) := by
  have hagrees := h.agrees p.uid
  unfold Watcher.podAfter flips
  cases hready : p.readyCondition with
  | none => simpa using hagrees
  | some ready =>
    cases hst : w.source.pods.lookup p.uid with
    | none =>
      rw [hst] at hagrees
      rw [hagrees.reported, hagrees.unflipped rfl]
      exact ⟨rfl, fun _ => rfl, fun st t _ _ ht => nomatch ht⟩
    | some st =>
      rw [hst] at hagrees
      rw [hagrees.reported, Option.map_some]
      dsimp only
      by_cases hsame : ready = st.ready
      · rw [if_pos hsame, if_neg (by simp [hsame])]
        refine ⟨by simp [hsame], fun hnone => absurd hnone (Option.some_ne_none _), ?_⟩
        intro st' t hst' hup ht
        cases hst'
        exact hagrees.counted st t rfl hup ht
      · rw [if_neg hsame, if_pos (by simp [hsame])]
        refine ⟨rfl, fun hnone => absurd hnone (Option.some_ne_none _), ?_⟩
        intro st' t hst' hup ht
        cases hst'
        cases hup
        cases ht
        -- A flip to Ready does not empty the list, since the update is calm.
        have hfew := hcalm st hst
        rw [if_neg]
        · exact mem_flipsAt h.window now st
        · rintro ⟨harmed, hmany⟩
          have hdown : st.ready = false := by simpa using Ne.symm hsame
          exact absurd hmany (not_le.2 (hfew harmed hdown hready))

theorem Counted.step (h : w.Counted) (hcalm : w.Calm e) : (w.step e).Counted := by
  cases e with
  | arm => exact ⟨h.window, h.agrees⟩
  | pod now p =>
    refine ⟨(onPod_keeps now p w.source).1.symm ▸ h.window, fun u => ?_⟩
    simp only [Watcher.step, lookup_onPod]
    by_cases hu : u = p.uid
    · subst hu
      simpa using h.podAfter hcalm
    · simpa [hu] using h.agrees u

/-- After a flip to Ready that completes a burst, the pod is called recovered at once. -/
theorem Counted.calm (h : w.Counted) (hhonest : (w.step e).Honest) : w.Calm e := by
  cases e with
  | arm => trivial
  | pod now p =>
    intro st hst harmed hdown hready
    by_contra hmany
    have hflips : w.flips p = true := by
      rw [flips, hready, (h.agrees p.uid).reported, hst, Option.map_some, hdown]
      rfl
    have hafter : w.podAfter now p =
        some { st with lastSeen := now, ready := true, lastFlipAt := now, flips := [] } := by
      rw [Watcher.podAfter, hready, hst]
      simp [hdown, harmed, not_lt.1 hmany]
    let inc : Incident := ⟨⟨p.uid, probeFlapReason⟩, [], 0, { kindOfObject := bytes "Pod" }⟩
    have hkeeps := onPod_keeps now p w.source
    obtain ⟨c, hc, hcleared, hrecovered⟩ : ∃ c, (w.source.onPod now p).1.clearance now inc = some c ∧
        c.cleared = true ∧ c.resolution = .recovered := by
      refine (recovered_iff rfl).2 ⟨hkeeps.2.trans harmed, equalFold_self _, _,
        (w.lookup_onPod now p p.uid).trans ((if_pos rfl).trans hafter), rfl, fun t ht => ?_⟩
      exact absurd ht List.not_mem_nil
    have hlate := (hhonest now inc c le_rfl rfl hc hcleared hrecovered).2 now
      (if_pos ⟨rfl, hflips⟩)
    have hwindow : 0 < (w.source.onPod now p).1.cfg.window := hkeeps.1.symm ▸ h.window
    simp only [Watcher.step] at hlate
    omega

/-! ## Runs -/

/-- In every run a flapping pod is called recovered only when it is Ready and has stopped
    flapping, just if no flip to Ready completes a burst. -/
theorem flapping_cleared_late_iff (cfg : Config) (start : Int) (events : List Event) :
    Run.Always step Honest (new cfg start) events ↔ Run.Steps step Calm (new cfg start) events := by
  have hkeep : ∀ w e, Counted w → True → Calm w e → (step w e).Counted :=
    fun w e h _ hcalm => h.step hcalm
  have hlose : ∀ w e, Counted w → True → (step w e).Honest → Calm w e :=
    fun w e h _ hhonest => h.calm hhonest
  exact Run.always_iff_steps_of_invariant (fun w h => h.honest) hkeep hlose (counted_new cfg start)
    (Run.Steps.of_forall fun _ _ => trivial)

/-- A report of one pod in the given minute. -/
def report (m : Int) (status : String) : Event :=
  .pod (m * minute)
    { uid := bytes "p1", ns := bytes "prod", name := bytes "web-x"
      conditions := [⟨bytes "Ready", bytes status, 0⟩] }

/-- Four flips in four minutes, the last one to Ready. -/
def burst : List Event :=
  [.arm, report 0 "True", report 1 "False", report 2 "True", report 3 "False", report 4 "True"]

/-- In the minute of the fourth flip the pod is called recovered. -/
theorem burst_cleared_at_once : ¬ Run.Always step Honest (new {} 0) burst := by
  intro h
  have hend := h burst (List.prefix_refl _) (4 * minute)
    ⟨⟨bytes "p1", probeFlapReason⟩, [], 0, { kindOfObject := bytes "Pod" }⟩
    ⟨true, 4 * minute, .recovered⟩ (by decide +kernel) rfl (by decide +kernel) rfl rfl
  exact absurd (hend.2 (4 * minute) (by decide +kernel)) (by decide +kernel)

end Watcher

end Lookout.Sources.Degradation
