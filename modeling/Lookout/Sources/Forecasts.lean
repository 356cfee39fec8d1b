-- SUMMARY: The saturation and token-burn sources: series, their trends and triggers, the sampling cycles and the clearances.
import Lookout.Sources.Objects

/-!
# Forecasting sources

The saturation source samples the usage of every container and volume that has a limit. A
series whose trend reaches the limit soon is a forecast incident. A cycle fetches the
containers and the volumes, each of which may fail.

The token-burn source polls the list of sessions and the usage of each active one. A
session that burns tokens far faster than the others, or whose budget is about to run out,
is an incident.

A cycle, or a poll whose list was read, drops every series that has had no sample for the
time of `StaleAfter`. The texts of the signals and the throttled log lines are left out.
-/

namespace Lookout.Sources.Saturation

open Engine

/-! ## Saturation -/

/-- What is forecast of an object. -/
inductive Resource where
  | cpu
  | memory
  | pvc
  deriving DecidableEq

def Resource.text : Resource → GoString
  | .cpu => bytes "cpu"
  | .memory => bytes "memory"
  | .pvc => bytes "pvc"

def reasonPrefix : GoString := bytes "forecast_"

/-- `ReasonFor` -/
def reasonFor (resource : Resource) : GoString := reasonPrefix ++ resource.text

/-- `resourceOf`: the inverse of `ReasonFor`. -/
def resourceOf (reason : GoString) : Option Resource :=
  if reason = reasonFor .cpu then some .cpu
  else if reason = reasonFor .memory then some .memory
  else if reason = reasonFor .pvc then some .pvc
  else none

/-- `ContainerSample`. The resource is not a volume. A limit of zero means none. -/
structure ContainerSample where
  ns : GoString
  pod : GoString
  podUID : UID
  container : GoString
  node : GoString := []
  memory : Bool := false
  used : ℚ
  limit : ℚ

structure VolumeSample where
  ns : GoString
  claimName : GoString
  usedBytes : ℚ
  capacityBytes : ℚ

/-- `Config`, without the interval between the cycles. -/
structure Config where
  window : Int := 0
  warnETA : Int := 0
  critETA : Int := 0
  minSamples : Int := 0
  staleAfter : Int := 0

def defaultConfig : Config where
  window := 90 * minute
  warnETA := 60 * minute
  critETA := 15 * minute
  minSamples := 8
  staleAfter := 10 * minute

namespace Config

def normalize (c : Config) : Config :=
  let warnETA := if c.warnETA ≤ 0 then defaultConfig.warnETA else c.warnETA
  { window := if c.window ≤ 0 then defaultConfig.window else c.window
    warnETA := warnETA
    critETA := if c.critETA ≤ 0 ∨ warnETA ≤ c.critETA then defaultConfig.critETA else c.critETA
    minSamples := if c.minSamples ≤ 0 then defaultConfig.minSamples else c.minSamples
    staleAfter := if c.staleAfter ≤ 0 then defaultConfig.staleAfter else c.staleAfter }

def minSpan (c : Config) : Int := c.window / 2

def reobserve (c : Config) : Int := c.window / 2

def clearETA (c : Config) : Int := wrap64 (2 * c.warnETA)

end Config

/-- `targetKey` -/
structure TargetKey where
  uid : GoString
  resource : Resource
  deriving DecidableEq

/-- `series`. A time that is not set is none. -/
structure Series where
  kindOfObject : GoString := []
  ns : GoString := []
  name : GoString := []
  container : GoString := []
  node : GoString := []
  samples : List (Int × ℚ) := []
  limit : ℚ := 0
  firedSeverity : Option Severity := none
  nonPosSince : Option Int := none
  recededSince : Option Int := none
  lastSample : Int := 0

structure Source where
  cfg : Config
  series : Map TargetKey Series := ∅
  fetched : Bool := false

def new (cfg : Config) : Source := { cfg := cfg.normalize }

/-! ## One sample -/

/-- What a sample of either kind says about its target. -/
structure Reading where
  key : TargetKey
  kindOfObject : GoString
  ns : GoString
  name : GoString
  container : GoString := []
  node : GoString := []
  used : ℚ
  limit : ℚ

def ContainerSample.reading (cs : ContainerSample) : Reading where
  key := ⟨cs.podUID ++ bytes "/" ++ cs.container, if cs.memory then .memory else .cpu⟩
  kindOfObject := bytes "Pod"
  ns := cs.ns
  name := cs.pod
  container := cs.container
  node := cs.node
  used := cs.used
  limit := cs.limit

def VolumeSample.reading (vs : VolumeSample) : Reading where
  key := ⟨bytes "pvc:" ++ vs.ns ++ bytes "/" ++ vs.claimName, .pvc⟩
  kindOfObject := bytes "PersistentVolumeClaim"
  ns := vs.ns
  name := vs.claimName
  used := vs.usedBytes
  limit := vs.capacityBytes

/-- What `newForecast` composes the signal from. -/
structure Forecast where
  key : TargetKey
  series : Series
  severity : Severity
  current : ℚ
  slope : ℚ
  eta : Int
  at_ : Int

/-- The projected time until the limit is reached. -/
def projection (ser : Series) (slope current : ℚ) : Option Int :=
  if 0 < slope then
    if ser.limit - current ≤ 0 then some 0 else etaFromSeconds ((ser.limit - current) / slope)
  else none

/-- The severity of a projection, none if no threshold is crossed. -/
def Config.severityOf (c : Config) (eta : Int) : Option Severity :=
  if eta < c.critETA then some .critical
  else if eta < c.warnETA then some .warning
  else none

/-- `record`: one observation, and the forecast it leads to. -/
def record (c : Config) (key : TargetKey) (ser : Series) (value limit : ℚ) (now : Int) :
    Series × Option Forecast :=
  let samples := (ser.samples ++ [(now, value)]).filter fun p => now - c.window < p.1
  let ser := { ser with limit := limit, lastSample := now, samples := samples }
  match samples.head?, samples.getLast? with
  | some first, some last =>
    if limit ≤ 0 ∨ (samples.length : Int) < c.minSamples ∨ since last.1 first.1 < c.minSpan then
      (ser, none)
    else
      let slope := leastSquaresSlope samples
      match projection ser slope last.2 with
      | none =>
        let nonPosSince := ser.nonPosSince.getD now
        let released := ser.firedSeverity.isSome ∧ c.reobserve ≤ since now nonPosSince
        ({ ser with
            nonPosSince := some nonPosSince, recededSince := none
            firedSeverity := if released then none else ser.firedSeverity }, none)
      | some eta =>
        let ser := { ser with nonPosSince := none }
        if c.clearETA < eta then
          ({ ser with recededSince := some (ser.recededSince.getD now), firedSeverity := none }, none)
        else
          let ser := { ser with recededSince := none }
          match c.severityOf eta with
          | none => (ser, none)
          | some sev =>
            if severityRank (some sev) ≤ severityRank ser.firedSeverity then (ser, none)
            else
              let ser := { ser with firedSeverity := some sev }
              (ser, some ⟨key, ser, sev, last.2, slope, eta, now⟩)
  | _, _ => (ser, none)

theorem record_lastSample (c : Config) (key : TargetKey) (ser : Series) (value limit : ℚ)
    (now : Int) : (record c key ser value limit now).1.lastSample = now := by
  unfold record
  dsimp only
  repeat' split
  all_goals rfl

/-! ## Cycles -/

namespace Source

/-- One round of the loops in `ingestPods` and `ingestVolumes`. A target without a limit
    has no series. -/
def ingestOne (now : Int) (acc : Source × List Forecast) (r : Reading) : Source × List Forecast :=
  let s := acc.1
  if r.limit ≤ 0 then ({ s with series := s.series.erase r.key }, acc.2)
  else
    let ser := { Map.getD s.series r.key {} with
      kindOfObject := r.kindOfObject, ns := r.ns, name := r.name, container := r.container
      node := r.node }
    let (ser, forecast) := record s.cfg r.key ser r.used r.limit now
    ({ s with series := s.series.insert r.key ser }, acc.2 ++ forecast.toList)

def ingest (s : Source) (readings : List Reading) (now : Int) : Source × List Forecast :=
  readings.foldl (ingestOne now) (s, [])

def ingestPods (s : Source) (samples : List ContainerSample) (now : Int) :
    Source × List Forecast :=
  s.ingest (samples.map (·.reading)) now

def ingestVolumes (s : Source) (samples : List VolumeSample) (now : Int) :
    Source × List Forecast :=
  s.ingest (samples.map (·.reading)) now

/-- `finishCycle` -/
def finishCycle (s : Source) (now : Int) : Source :=
  { s with
    fetched := true
    series := Map.filter (fun _ ser => !(s.cfg.staleAfter < since now ser.lastSample)) s.series }

/-- `sampleOnce`. A fetch that failed has no samples. Without a volume fetcher there are
    no volumes. -/
def sampleOnce (s : Source) (pods : Option (List ContainerSample))
    (volumes : Option (List VolumeSample)) (now : Int) : Source × List Forecast :=
  let (s, first) := match pods with
    | none => (s, [])
    | some pods => s.ingestPods pods now
  let (s, second) := match volumes with
    | none => (s, [])
    | some volumes => s.ingestVolumes volumes now
  (s.finishCycle now, first ++ second)

/-- `Clearance`, where `now` is the time of the call. -/
def clearance (s : Source) (now : Int) (inc : Incident) : Option Clearance :=
  match resourceOf (canonicalReason inc.key.reason) with
  | none => none
  | some resource =>
    if !s.fetched then none
    else match s.series.lookup ⟨inc.key.uid, resource⟩ with
      | none => some objectGone
      | some ser =>
        match ser.recededSince, ser.nonPosSince with
        | some t, _ => some ⟨true, t, .recovered⟩
        | none, some t =>
          if s.cfg.reobserve ≤ since now t then some ⟨true, t, .recovered⟩ else some held
        | none, none => some held

/-! ## What a cycle leaves -/

/-- The last reading of a target in a fetch. -/
def lastReading (readings : List Reading) (k : TargetKey) : Option Reading :=
  (readings.filter (·.key = k)).getLast?

/-- The last time the series of the target was refreshed, if it has one. -/
def refreshed (s : Source) (k : TargetKey) : Option Int := (s.series.lookup k).map (·.lastSample)

/-- What a fetch makes of that: the last reading of the target decides. -/
def refresh (readings : List Reading) (k : TargetKey) (now : Int) (old : Option Int) : Option Int :=
  match lastReading readings k with
  | none => old
  | some r => if r.limit ≤ 0 then none else some now

theorem refreshed_ingestOne (now : Int) (acc : Source × List Forecast) (r : Reading)
    (k : TargetKey) :
    (ingestOne now acc r).1.refreshed k =
      if k = r.key then (if r.limit ≤ 0 then none else some now) else acc.1.refreshed k := by
  unfold ingestOne refreshed
  split
  · rw [Map.lookup_erase]
    split <;> rfl
  · rw [Map.lookup_insert]
    split
    · exact congrArg some (record_lastSample ..)
    · rfl

variable (s : Source)

theorem refreshed_ingest (readings : List Reading) (now : Int) (k : TargetKey) :
    (s.ingest readings now).1.refreshed k = refresh readings k now (s.refreshed k) := by
  induction readings using List.reverseRecOn with
  | nil => rfl
  | append_singleton readings r ih =>
    have hfold : s.ingest (readings ++ [r]) now = ingestOne now (s.ingest readings now) r := by
      rw [ingest, List.foldl_append]
      rfl
    rw [hfold, refreshed_ingestOne, ih, refresh, refresh]
    split
    next hkey => simp [lastReading, hkey]
    next hkey => simp [lastReading, Ne.symm hkey]

theorem ingest_keeps (readings : List Reading) (now : Int) :
    (s.ingest readings now).1.cfg = s.cfg ∧ (s.ingest readings now).1.fetched = s.fetched := by
  refine List.foldlRecOn (motive := fun acc : Source × List Forecast =>
    acc.1.cfg = s.cfg ∧ acc.1.fetched = s.fetched) readings _ ⟨rfl, rfl⟩ fun acc h r _ => ?_
  unfold ingestOne
  split <;> exact h

/-- The fetch of the dimension that a target belongs to. -/
def fetchOf (pods : Option (List ContainerSample)) (volumes : Option (List VolumeSample))
    (resource : Resource) : Option (List Reading) :=
  if resource = .pvc then volumes.map (·.map (·.reading)) else pods.map (·.map (·.reading))

variable {k : TargetKey}

theorem lastReading_eq_none {readings : List Reading} :
    lastReading readings k = none ↔ ∀ r ∈ readings, r.key ≠ k := by
  simp [lastReading]

theorem lastReading_pods (samples : List ContainerSample) (hk : k.resource = .pvc) :
    lastReading (samples.map (·.reading)) k = none := by
  rw [lastReading_eq_none, List.forall_mem_map]
  rintro cs - rfl
  revert hk
  simp only [ContainerSample.reading]
  split <;> exact fun h => nomatch h

theorem lastReading_volumes (samples : List VolumeSample) (hk : k.resource ≠ .pvc) :
    lastReading (samples.map (·.reading)) k = none := by
  rw [lastReading_eq_none, List.forall_mem_map]
  rintro vs - rfl
  exact hk rfl

theorem refreshed_finishCycle (now : Int) (k : TargetKey) :
    (s.finishCycle now).series.lookup k ≠ none ↔
      ∃ t, s.refreshed k = some t ∧ since now t ≤ s.cfg.staleAfter := by
  unfold finishCycle refreshed
  rw [Map.lookup_filter]
  cases s.series.lookup k with
  | none => simp
  | some ser => simp

section

variable (pods : Option (List ContainerSample)) (volumes : Option (List VolumeSample)) (now : Int)

/-- A target has a series after a cycle just if it was refreshed within `StaleAfter`,
    whether or not the cycle fetched its dimension. -/
theorem lookup_sampleOnce (k : TargetKey) :
    (s.sampleOnce pods volumes now).1.series.lookup k ≠ none ↔
      ∃ t, (match fetchOf pods volumes k.resource with
        | none => s.refreshed k
        | some readings => refresh readings k now (s.refreshed k)) = some t ∧
          since now t ≤ s.cfg.staleAfter := by
  unfold sampleOnce
  rw [refreshed_finishCycle]
  have hrefresh : ∀ {readings old}, lastReading readings k = none →
      refresh readings k now old = old := fun h => by rw [refresh, h]
  by_cases hk : k.resource = .pvc
  · rw [fetchOf, if_pos hk]
    cases pods <;> cases volumes <;>
      simp [ingestPods, ingestVolumes, refreshed_ingest, ingest_keeps, hrefresh,
        lastReading_pods _ hk]
  · rw [fetchOf, if_neg hk]
    cases pods <;> cases volumes <;>
      simp [ingestPods, ingestVolumes, refreshed_ingest, ingest_keeps, hrefresh,
        lastReading_volumes _ hk]

theorem sampleOnce_keeps :
    (s.sampleOnce pods volumes now).1.cfg = s.cfg ∧
      (s.sampleOnce pods volumes now).1.fetched = true := by
  unfold sampleOnce finishCycle
  cases pods <;> cases volumes <;> simp [ingestPods, ingestVolumes, ingest_keeps]

end

end Source

end Lookout.Sources.Saturation

namespace Lookout.Sources.TokenBurn

open Engine

/-! ## Token burn -/

def reason : GoString := bytes "token_burn"

def sustainPolls : Nat := 2

/-- `UID` -/
def sessionUID (app sid : GoString) : GoString := bytes "session:" ++ app ++ bytes "/" ++ sid

/-- `Config`, without the interval between the polls. -/
structure Config where
  burnMultiple : ℚ := 0
  burnETA : Int := 0
  budgetUSD : ℚ := 0
  window : Int := 0
  minSamples : Int := 0
  staleAfter : Int := 0

def defaultConfig : Config where
  burnMultiple := 4
  burnETA := 30 * minute
  window := 15 * minute
  minSamples := 3
  staleAfter := 10 * minute

def Config.normalize (c : Config) : Config where
  burnMultiple := if c.burnMultiple ≤ 1 then defaultConfig.burnMultiple else c.burnMultiple
  burnETA := if c.burnETA ≤ 0 then defaultConfig.burnETA else c.burnETA
  budgetUSD := if c.budgetUSD < 0 then 0 else c.budgetUSD
  window := if c.window ≤ 0 then defaultConfig.window else c.window
  minSamples := if c.minSamples < 2 then defaultConfig.minSamples else c.minSamples
  staleAfter := if c.staleAfter ≤ 0 then defaultConfig.staleAfter else c.staleAfter

def Config.clearETA (c : Config) : Int := wrap64 (2 * c.burnETA)

structure SessionRef where
  app : GoString
  id : GoString
  status : GoString
  deriving DecidableEq

def SessionRef.uid (ref : SessionRef) : GoString := sessionUID ref.app ref.id

def sessionActive : GoString := bytes "active"

def SessionRef.active (ref : SessionRef) : Bool := ref.status = sessionActive

structure Usage where
  totalTokens : Int
  costUSD : ℚ

structure Sample where
  at_ : Int
  tokens : ℚ
  cost : ℚ

/-- `series`. A time that is not set is none. -/
structure Series where
  app : GoString
  sid : GoString
  samples : List Sample := []
  rate : ℚ := 0
  baseline : ℚ := 0
  hot : Nat := 0
  calm : Nat := 0
  calmSince : Option Int := none
  firedSeverity : Option Severity := none
  lastActive : Int := 0

structure Source where
  cfg : Config
  series : Map GoString Series := ∅
  polled : Bool := false

def new (cfg : Config) : Source := { cfg := cfg.normalize }

/-! ## Rates -/

def positivePart (slope : ℚ) : ℚ := if slope ≤ 0 then 0 else slope

def tokenRate (c : Config) (ser : Series) : ℚ :=
  if (ser.samples.length : Int) < c.minSamples then 0
  else positivePart (leastSquaresSlope (ser.samples.map fun s => (s.at_, s.tokens)))

def costRate (ser : Series) : ℚ :=
  if ser.samples.length < 2 then 0
  else positivePart (leastSquaresSlope (ser.samples.map fun s => (s.at_, s.cost)))

/-- `medianPositive` -/
def medianPositive (rates : List ℚ) : ℚ :=
  let sorted := (rates.filter fun r => 0 < r).insertionSort (· ≤ ·)
  let n := sorted.length
  if n = 0 then 0
  else if n % 2 = 1 then sorted.getD (n / 2) 0
  else (sorted.getD (n / 2 - 1) 0 + sorted.getD (n / 2) 0) / 2

/-! ## Triggers -/

/-- What `newBurn` composes the signal from. The budget's fraction is none if there is no
    budget, and the projection if there is none. -/
structure Burn where
  series : Series
  severity : Severity
  fraction : Option ℚ
  eta : Option Int
  exhausted : Bool
  budgetBased : Bool
  at_ : Int

/-- What is known of a session's budget. -/
structure Budget where
  fraction : Option ℚ := none
  eta : Option Int := none
  hot : Bool := false
  exhausted : Bool := false
  costRate : ℚ := 0

def budgetOf (c : Config) (ser : Series) : Budget :=
  match ser.samples.getLast? with
  | some last =>
    if 0 < c.budgetUSD ∧ 2 ≤ ser.samples.length then
      let fraction := last.cost / c.budgetUSD
      let rate := costRate ser
      if 1 ≤ fraction then
        { fraction := some fraction, eta := some 0, hot := true, exhausted := true, costRate := rate }
      else
        let eta := if 0 < rate then etaFromSeconds ((c.budgetUSD - last.cost) / rate) else none
        { fraction := some fraction, eta := eta, costRate := rate
          hot := match eta with
            | some eta => eta < c.burnETA
            | none => false }
    else {}
  | none => {}

/-- The condition is absent, not only below the threshold. -/
def calmNow (c : Config) (rateHot : Bool) (b : Budget) : Bool :=
  !rateHot && (match b.fraction with
    | some fraction => fraction < 1
    | none => true) && (match b.eta with
    | some eta => b.costRate ≤ 0 || c.clearETA ≤ eta
    | none => true)

/-- `evaluate` -/
def evaluate (c : Config) (ser : Series) (baseline : ℚ) (now : Int) : Series × Option Burn :=
  let rateHot : Bool := 0 < baseline ∧ c.burnMultiple * baseline ≤ ser.rate
  let ser := { ser with baseline := baseline, hot := if rateHot then ser.hot + 1 else 0 }
  let b := budgetOf c ser
  let sev : Option Severity :=
    if b.hot then some .critical
    else if rateHot && sustainPolls ≤ ser.hot then some .warning
    else none
  match sev with
  | none =>
    if calmNow c rateHot b then
      let calm := ser.calm + 1
      ({ ser with
          calmSince := if ser.calm = 0 then some now else ser.calmSince
          calm := calm
          firedSeverity := if sustainPolls ≤ calm then none else ser.firedSeverity }, none)
    else ({ ser with calm := 0, calmSince := none }, none)
  | some sev =>
    let ser := { ser with calm := 0, calmSince := none }
    if severityRank (some sev) ≤ severityRank ser.firedSeverity then (ser, none)
    else
      let ser := { ser with firedSeverity := some sev }
      (ser, some ⟨ser, sev, b.fraction, b.eta, b.exhausted, b.hot, now⟩)

/-! ## Polls -/

/-- A session of the list, and its usage unless that call failed. -/
structure Row where
  ref : SessionRef
  usage : Option Usage

/-- The usage that a poll got of an active session. -/
def Row.observed (row : Row) : Option (SessionRef × Usage) :=
  if row.ref.active then row.usage.map fun u => (row.ref, u) else none

/-- A session's series with one more sample. -/
def recordUsage (c : Config) (now : Int) (series : Map GoString Series)
    (o : SessionRef × Usage) : Map GoString Series :=
  let ser := Map.getD series o.1.uid ⟨o.1.app, o.1.id, [], 0, 0, 0, 0, none, none, 0⟩
  let sample : Sample := ⟨now, o.2.totalTokens, o.2.costUSD⟩
  let samples := (ser.samples ++ [sample]).filter fun p => now - c.window < p.at_
  let ser := { ser with lastActive := now, samples := samples }
  series.insert o.1.uid { ser with rate := tokenRate c ser }

/-- One round of the loop over the sampled sessions. -/
def evaluateSession (c : Config) (baseline : ℚ) (now : Int)
    (acc : Map GoString Series × List Burn) (uid : GoString) : Map GoString Series × List Burn :=
  match acc.1.lookup uid with
  | none => acc
  | some ser =>
    let (ser, burn) := evaluate c ser baseline now
    (acc.1.insert uid ser, acc.2 ++ burn.toList)

namespace Source

/-- `ingest` -/
def ingest (s : Source) (rows : List Row) (now : Int) : Source × List Burn :=
  let observed := rows.filterMap (·.observed)
  let series := observed.foldl (recordUsage s.cfg now) s.series
  let sampled := observed.map (·.1.uid)
  let baseline := medianPositive (sampled.map fun uid => ((series.lookup uid).map (·.rate)).getD 0)
  let (series, burns) := sampled.foldl (evaluateSession s.cfg baseline now) (series, [])
  let series := Map.filter (fun _ ser => !(s.cfg.staleAfter < since now ser.lastActive)) series
  ({ s with polled := true, series := series }, burns)

/-- `pollOnce`. The rows are missing when the list could not be fetched. -/
def pollOnce (s : Source) (rows : Option (List Row)) (now : Int) : Source × List Burn :=
  match rows with
  | none => (s, [])
  | some rows => s.ingest rows now

/-- `Clearance` -/
def clearance (s : Source) (inc : Incident) : Option Clearance :=
  if canonicalReason inc.key.reason ≠ reason then none
  else if !s.polled then none
  else match s.series.lookup inc.key.uid with
    | none => some objectGone
    | some ser =>
      match ser.calmSince with
      | some t =>
        if ser.firedSeverity = none ∧ sustainPolls ≤ ser.calm then some ⟨true, t, .recovered⟩
        else some held
      | none => some held

/-! ## What a poll leaves -/

/-- A poll got the usage of the session. -/
def Observed (rows : List Row) (uid : GoString) : Prop :=
  ∃ o ∈ rows.filterMap (·.observed), o.1.uid = uid

instance (rows : List Row) (uid : GoString) : Decidable (Observed rows uid) :=
  inferInstanceAs (Decidable (∃ o ∈ rows.filterMap (·.observed), o.1.uid = uid))

/-- The last time the series of the session was refreshed, if it has one. -/
def refreshed (series : Map GoString Series) (uid : GoString) : Option Int :=
  (series.lookup uid).map (·.lastActive)

variable (c : Config)

theorem refreshed_recordUsage (now : Int) (series : Map GoString Series) (o : SessionRef × Usage)
    (uid : GoString) :
    refreshed (recordUsage c now series o) uid =
      if uid = o.1.uid then some now else refreshed series uid := by
  unfold refreshed recordUsage
  rw [Map.lookup_insert]
  split <;> rfl

theorem refreshed_record (now : Int) (observed : List (SessionRef × Usage))
    (series : Map GoString Series) (uid : GoString) :
    refreshed (observed.foldl (recordUsage c now) series) uid =
      if ∃ o ∈ observed, o.1.uid = uid then some now else refreshed series uid := by
  induction observed generalizing series with
  | nil => simp
  | cons o observed ih =>
    rw [List.foldl_cons, ih, refreshed_recordUsage]
    by_cases hrest : ∃ o ∈ observed, o.1.uid = uid <;> by_cases huid : o.1.uid = uid <;>
      simp [hrest, @eq_comm _ uid]

theorem evaluate_lastActive (ser : Series) (baseline : ℚ) (now : Int) :
    (evaluate c ser baseline now).1.lastActive = ser.lastActive := by
  unfold evaluate
  dsimp only
  repeat' split
  all_goals rfl

/-- The triggers refresh nothing. -/
theorem refreshed_evaluate (baseline : ℚ) (now : Int) (uids : List GoString)
    (acc : Map GoString Series × List Burn) (uid : GoString) :
    refreshed (uids.foldl (evaluateSession c baseline now) acc).1 uid = refreshed acc.1 uid := by
  induction uids generalizing acc with
  | nil => rfl
  | cons u uids ih =>
    rw [List.foldl_cons, ih]
    unfold evaluateSession refreshed
    cases hser : acc.1.lookup u with
    | none => rfl
    | some ser =>
      rw [Map.lookup_insert]
      by_cases huid : uid = u
      · rw [if_pos huid, huid, hser, Option.map_some, Option.map_some, evaluate_lastActive]
      · rw [if_neg huid]

/-- A session has a series after a poll just if it was refreshed within `StaleAfter`. -/
theorem lookup_ingest (s : Source) (rows : List Row) (now : Int) (uid : GoString) :
    (s.ingest rows now).1.series.lookup uid ≠ none ↔
      ∃ t, (if Observed rows uid then some now else refreshed s.series uid) = some t ∧
        since now t ≤ s.cfg.staleAfter := by
  have hrefreshed : ∀ baseline, refreshed ((rows.filterMap (·.observed)).map (·.1.uid) |>.foldl
      (evaluateSession s.cfg baseline now)
      ((rows.filterMap (·.observed)).foldl (recordUsage s.cfg now) s.series, [])).1 uid =
        if Observed rows uid then some now else refreshed s.series uid :=
    fun baseline => (refreshed_evaluate ..).trans (refreshed_record ..)
  rw [← hrefreshed]
  unfold ingest refreshed
  rw [Map.lookup_filter]
  generalize Finmap.lookup uid _ = found
  cases found with
  | none => simp
  | some ser => simp

end Source

end Lookout.Sources.TokenBurn
