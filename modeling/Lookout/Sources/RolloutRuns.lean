-- SUMMARY: The sweeps of the rollout source, and the runs in which the clearance of a rollout borrows no older completion.
import Lookout.Sources.Clearance

/-!
# The date of a completion

A sweep visits the workloads in four loops over the same table of tracks. What it makes of
a workload is the verdict on it, from its own object and its own track.

The clearance of a stalled rollout reads the completion from the newest object, and its
date from the track, which only sweeps update. A track that saw the workload complete, and
then incomplete again, keeps the old date. So an event that tells of the next completion
makes the clearance answer with the old date until a sweep has passed.

The source is paired with what its sweeps saw: for every workload, the times at which a
sweep saw it incomplete and at which a stall was emitted for it. Sweeps begin when the
source is armed, and a UID belongs to one kind of object for good.
-/

namespace Lookout.Sources.Rollout

open Engine

namespace Source

section Judge

variable {α : Type} {objects : Map UID (ObjEntry α)} {now : Int}
  {eval : UID → α → Track → Track × Option Stall}

/-- One round of a loop over workloads. -/
def judgeOne (objects : Map UID (ObjEntry α)) (now : Int)
    (eval : UID → α → Track → Track × Option Stall) (acc : Map UID Track × List Stall) (uid : UID) :
    Map UID Track × List Stall :=
  match objects.lookup uid with
  | none => acc
  | some e =>
    let (tr, stall) := eval uid e.obj (trackFor acc.1 uid now)
    (acc.1.insert uid tr, acc.2 ++ stall.toList)

/-- What a loop makes of one workload, if it is there. -/
def judgement (objects : Map UID (ObjEntry α)) (now : Int)
    (eval : UID → α → Track → Track × Option Stall) (tracks : Map UID Track) (uid : UID) :
    Option (Track × Option Stall) :=
  (objects.lookup uid).map fun e => eval uid e.obj (trackFor tracks uid now)

theorem lookup_judgeOne (acc : Map UID Track × List Stall) (uid u : UID) :
    (judgeOne objects now eval acc uid).1.lookup u =
      if u = uid then ((judgement objects now eval acc.1 uid).map (·.1)).or (acc.1.lookup u)
      else acc.1.lookup u := by
  unfold judgeOne judgement
  cases objects.lookup uid with
  | none => simp
  | some e =>
    rw [Map.lookup_insert]
    rfl

theorem judgement_congr {tracks tracks' : Map UID Track} {uid : UID}
    (h : tracks.lookup uid = tracks'.lookup uid) :
    judgement objects now eval tracks uid = judgement objects now eval tracks' uid := by
  unfold judgement trackFor
  rw [h]

variable {keys : List UID}

theorem lookup_judgeFrom (hkeys : keys.Nodup) (acc : Map UID Track × List Stall) (u : UID) :
    (keys.foldl (judgeOne objects now eval) acc).1.lookup u =
      if u ∈ keys then ((judgement objects now eval acc.1 u).map (·.1)).or (acc.1.lookup u)
      else acc.1.lookup u := by
  induction keys generalizing acc with
  | nil => simp
  | cons uid keys ih =>
    obtain ⟨hnotin, hrest⟩ := List.nodup_cons.1 hkeys
    rw [List.foldl_cons, ih hrest, lookup_judgeOne]
    by_cases hu : u = uid
    · subst hu
      rw [if_neg hnotin, if_pos rfl, if_pos List.mem_cons_self]
    · have hsame : (judgeOne objects now eval acc uid).1.lookup u = acc.1.lookup u := by
        rw [lookup_judgeOne, if_neg hu]
      rw [judgement_congr hsame, if_neg hu]
      simp [hu]

theorem mem_judgeFrom (hkeys : keys.Nodup) (acc : Map UID Track × List Stall) (stall : Stall) :
    stall ∈ (keys.foldl (judgeOne objects now eval) acc).2 ↔
      stall ∈ acc.2 ∨ ∃ uid ∈ keys, (judgement objects now eval acc.1 uid).bind (·.2) = some stall := by
  induction keys generalizing acc with
  | nil => simp
  | cons uid keys ih =>
    obtain ⟨hnotin, hrest⟩ := List.nodup_cons.1 hkeys
    have hone : stall ∈ (judgeOne objects now eval acc uid).2 ↔
        stall ∈ acc.2 ∨ (judgement objects now eval acc.1 uid).bind (·.2) = some stall := by
      unfold judgeOne judgement
      cases objects.lookup uid with
      | none => simp
      | some e => simp
    have hlater : ∀ u ∈ keys, judgement objects now eval (judgeOne objects now eval acc uid).1 u =
        judgement objects now eval acc.1 u := by
      intro u hu
      refine judgement_congr ?_
      rw [lookup_judgeOne, if_neg (ne_of_mem_of_not_mem hu hnotin)]
    rw [List.foldl_cons, ih hrest, hone, or_assoc, List.exists_mem_cons_iff]
    refine or_congr_right (or_congr_right (exists_congr fun u => and_congr_right fun hu => ?_))
    rw [hlater u hu]

theorem lookup_judge (w : Map.Walk UID) (tracks : Map UID Track) (u : UID) :
    (judge (Map.walk w objects) objects now eval tracks).1.lookup u =
      ((judgement objects now eval tracks u).map (·.1)).or (tracks.lookup u) := by
  refine (lookup_judgeFrom (Map.nodup_walk w objects) (tracks, []) u).trans ?_
  by_cases hu : u ∈ Map.walk w objects
  · rw [if_pos hu]
  · have hnone : objects.lookup u = none := by
      rw [Map.mem_walk, Map.mem_iff_ne_none, not_not] at hu
      exact hu
    rw [if_neg hu, judgement, hnone]
    rfl

theorem mem_judge (w : Map.Walk UID) (tracks : Map UID Track) (stall : Stall) :
    stall ∈ (judge (Map.walk w objects) objects now eval tracks).2 ↔
      ∃ uid, (judgement objects now eval tracks uid).bind (·.2) = some stall := by
  refine (mem_judgeFrom (Map.nodup_walk w objects) (tracks, []) stall).trans ?_
  constructor
  · rintro (hnil | ⟨uid, -, hstall⟩)
    · exact absurd hnil List.not_mem_nil
    · exact ⟨uid, hstall⟩
  · rintro ⟨uid, hstall⟩
    refine Or.inr ⟨uid, Map.mem_walk.2 (Map.mem_iff_ne_none.2 fun hnone => ?_), hstall⟩
    rw [judgement, hnone] at hstall
    cases hstall

end Judge

/-! ## The verdict of a sweep -/

/-- No UID is that of a Deployment and of a StatefulSet. -/
def Apart (s : Source) : Prop :=
  ∀ uid, s.deployments.lookup uid = none ∨ s.statefulsets.lookup uid = none

/-- The verdict of a sweep on one workload. -/
def verdict (w : Walks) (now : Int) (s : Source) (uid : UID) : Option (Track × Option Stall) :=
  (judgement s.deployments now (fun _ => evalDeployment s.cfg s.armed (s.indexOwners w) now) s.tracks
    uid).or
  (judgement s.statefulsets now (fun _ => evalStatefulSet s.cfg s.armed (s.indexOwners w) now)
    s.tracks uid)

/-- Whether the workload is being rolled out. -/
def rolling (w : Walks) (s : Source) (uid : UID) : Bool :=
  match s.deployments.lookup uid with
  | some e => deploymentRollingOut e.obj ((s.indexOwners w).activeReplicaSets uid)
  | none => ((s.statefulsets.lookup uid).map fun e => stsRollingOut e.obj).getD false

/-- The track that a sweep leaves of a workload, before the prune. -/
def swept (w : Walks) (now : Int) (s : Source) (uid : UID) : Option Track :=
  match s.verdict w now uid with
  | some (tr, _) => some ({ tr with lastSeen := now }.observeEdge (s.rolling w uid) now)
  | none => s.tracks.lookup uid

/-- The prune keeps a track. -/
def kept (now : Int) (s : Source) (uid : UID) (tr : Track) : Bool :=
  !staleAt s.deployments (now - s.cfg.stateTTL) uid &&
    !staleAt s.statefulsets (now - s.cfg.stateTTL) uid && !(tr.lastSeen < now - s.cfg.stateTTL)

variable {s : Source}

theorem lookup_sweep_tracks (hapart : s.Apart) (w : Walks) (now : Int) (u : UID) :
    (s.sweep w now).1.tracks.lookup u = (s.swept w now u).filter (s.kept now u) := by
  unfold sweep swept verdict rolling
  rw [Map.lookup_filter]
  refine congrArg₂ Option.filter rfl ?_
  simp only [lookup_judge]
  rcases hapart u with hd | hs
  · cases hs : s.statefulsets.lookup u with
    | none => simp [judgement, hd, hs]
    | some e => simp [judgement, trackFor, lookup_judge, hd, hs]
  · cases hd : s.deployments.lookup u with
    | none => simp [judgement, hd, hs]
    | some e => simp [judgement, trackFor, lookup_judge, hd, hs]

theorem mem_sweep_stalls (hapart : s.Apart) (w : Walks) (now : Int) (stall : Stall) :
    stall ∈ (s.sweep w now).2 ↔ ∃ uid, (s.verdict w now uid).bind (·.2) = some stall := by
  unfold sweep verdict
  rw [List.mem_append, mem_judge, mem_judge]
  have hsame : ∀ uid, s.deployments.lookup uid = none →
      judgement s.statefulsets now (fun _ => evalStatefulSet s.cfg s.armed (s.indexOwners w) now)
        (judge (Map.walk w.deployments s.deployments) s.deployments now
          (fun _ => evalDeployment s.cfg s.armed (s.indexOwners w) now) s.tracks).1 uid =
      judgement s.statefulsets now (fun _ => evalStatefulSet s.cfg s.armed (s.indexOwners w) now)
        s.tracks uid := by
    intro uid hd
    refine judgement_congr ?_
    rw [lookup_judge, judgement, hd]
    rfl
  constructor
  · rintro (⟨uid, hstall⟩ | ⟨uid, hstall⟩)
    · refine ⟨uid, ?_⟩
      obtain ⟨v, hv, hstall⟩ := Option.bind_eq_some_iff.1 hstall
      rw [hv]
      exact hstall
    · refine ⟨uid, ?_⟩
      rcases hapart uid with hd | hs
      · rw [hsame uid hd] at hstall
        rw [judgement, hd]
        exact hstall
      · rw [judgement, hs] at hstall
        cases hstall
  · rintro ⟨uid, hstall⟩
    cases hd : s.deployments.lookup uid with
    | none =>
      refine Or.inr ⟨uid, ?_⟩
      rw [hsame uid hd]
      rw [judgement, hd] at hstall
      exact hstall
    | some e =>
      refine Or.inl ⟨uid, ?_⟩
      rw [judgement, hd] at hstall ⊢
      exact hstall

end Source

/-! ## Dates in runs -/

namespace Source

/-! ## Completion -/

/-- Whether the mirrored workload is complete, none if it is not mirrored. -/
def workload (s : Source) (uid : UID) : Option Bool :=
  ((s.deployments.lookup uid).map fun e => deploymentComplete e.obj).or
    ((s.statefulsets.lookup uid).map fun e => stsComplete e.obj)

/-- Whether the last sweep saw the workload complete. -/
def seenComplete (s : Source) (uid : UID) : Bool := (s.tracks.lookup uid).any (·.complete)

/-- The date of the completion in the track, zero if there is none. -/
def completedAt (s : Source) (uid : UID) : Int :=
  ((s.tracks.lookup uid).map (·.completedAt)).getD 0

/-- What a verdict does to the date: a completion that was not seen before is dated now. -/
structure Dates (complete : Bool) (now : Int) (uid : UID) (tr : Track) (v : Track × Option Stall) :
    Prop where
  seen : v.1.complete = complete
  dated : v.1.completedAt = if complete = true ∧ tr.complete = false then now else tr.completedAt
  stall : ∀ stall, v.2 = some stall → complete = false ∧ stall.uid = uid

theorem observeRevision_dates (cfg : Config) (revision : GoString) (newReady now : Int) (tr : Track) :
    (tr.observeRevision cfg revision newReady now).1.complete = tr.complete ∧
      (tr.observeRevision cfg revision newReady now).1.completedAt = tr.completedAt := by
  unfold Track.observeRevision
  repeat' split
  all_goals exact ⟨rfl, rfl⟩

variable {complete : Bool} {now : Int} {uid : UID} {tr : Track} {v : Track × Option Stall}

theorem dates_markComplete : Dates true now uid tr (tr.markComplete now, none) := by
  refine ⟨rfl, ?_, fun stall h => nomatch h⟩
  cases htr : tr.complete <;> simp [Track.markComplete, htr]

/-- While the rollout goes on, the date stays. -/
theorem dates_ongoing (hseen : v.1.complete = false) (hdated : v.1.completedAt = tr.completedAt)
    (hstall : ∀ stall, v.2 = some stall → stall.uid = uid) : Dates false now uid tr v :=
  ⟨hseen, by simpa using hdated, fun stall h => ⟨rfl, hstall stall h⟩⟩

theorem evalDeployment_dates (cfg : Config) (armed : Bool) (ix : OwnerIndex) (now : Int)
    (d : Deployment) (tr : Track) :
    Dates (deploymentComplete d) now d.uid tr (evalDeployment cfg armed ix now d tr) := by
  unfold evalDeployment
  dsimp only
  cases hcomplete : deploymentComplete d with
  | true =>
    exact dates_markComplete
  | false =>
    rw [if_neg (by decide)]
    split
    · exact dates_ongoing rfl rfl nofun
    next newest _ =>
      have hobs := observeRevision_dates cfg newest.name newest.readyReplicas now
        { tr with complete := false }
      split
      · exact dates_ongoing rfl rfl nofun
      · repeat' split
        all_goals refine dates_ongoing hobs.1 hobs.2 ?_
        · nofun
        · nofun
        · rintro stall ⟨⟩
          rfl

theorem evalStatefulSet_dates (cfg : Config) (armed : Bool) (ix : OwnerIndex) (now : Int)
    (sts : StatefulSet) (tr : Track) :
    Dates (stsComplete sts) now sts.uid tr (evalStatefulSet cfg armed ix now sts tr) := by
  unfold evalStatefulSet
  dsimp only
  cases hcomplete : stsComplete sts with
  | true =>
    exact dates_markComplete
  | false =>
    rw [if_neg (by decide)]
    generalize ((ix.podsOf sts.uid).countP fun p => p.revisionHash = sts.updateRevision && p.ready)
      = newReady
    have hobs := observeRevision_dates cfg sts.updateRevision newReady now
      { tr with complete := false }
    -- With a partition or without one, only the number of wanted replicas differs.
    split
    all_goals
      split
      · exact dates_ongoing rfl rfl nofun
      · repeat' split
        all_goals refine dates_ongoing hobs.1 hobs.2 ?_
        · nofun
        · nofun
        · rintro stall ⟨⟩
          rfl

/-- The mirror is keyed by the UIDs of its objects. -/
structure Keyed (s : Source) : Prop where
  deployments : ∀ uid e, s.deployments.lookup uid = some e → e.obj.uid = uid
  statefulsets : ∀ uid e, s.statefulsets.lookup uid = some e → e.obj.uid = uid

variable {s : Source}

theorem verdict_dates (hkeyed : s.Keyed) (w : Walks) (now : Int) (uid : UID) :
    match s.workload uid with
    | none => s.verdict w now uid = none
    | some complete => ∃ v, s.verdict w now uid = some v ∧
        Dates complete now uid (trackFor s.tracks uid now) v := by
  unfold workload verdict judgement
  cases hd : s.deployments.lookup uid with
  | some e =>
    have hdates := evalDeployment_dates s.cfg s.armed (s.indexOwners w) now e.obj
      (trackFor s.tracks uid now)
    rw [hkeyed.deployments uid e hd] at hdates
    exact ⟨_, rfl, hdates⟩
  | none =>
    cases hs : s.statefulsets.lookup uid with
    | none => rfl
    | some e =>
      have hdates := evalStatefulSet_dates s.cfg s.armed (s.indexOwners w) now e.obj
        (trackFor s.tracks uid now)
      rw [hkeyed.statefulsets uid e hs] at hdates
      exact ⟨_, rfl, hdates⟩

/-! ## One sweep -/

/-- The sweep drops the workload from the mirror. -/
def dropped (now : Int) (s : Source) (uid : UID) : Bool :=
  staleAt s.deployments (now - s.cfg.stateTTL) uid ||
    staleAt s.statefulsets (now - s.cfg.stateTTL) uid

theorem sweep_workload (hapart : s.Apart) (w : Walks) (now : Int) (uid : UID) :
    (s.sweep w now).1.workload uid = if s.dropped now uid then none else s.workload uid := by
  unfold workload dropped staleAt sweep
  rw [Map.lookup_filter, Map.lookup_filter]
  rcases hapart uid with hd | hs
  · rw [hd]
    cases s.statefulsets.lookup uid with
    | none => rfl
    | some e => by_cases h : e.lastSeen < now - s.cfg.stateTTL <;> simp [Option.filter, h]
  · rw [hs]
    cases s.deployments.lookup uid with
    | none => rfl
    | some e => by_cases h : e.lastSeen < now - s.cfg.stateTTL <;> simp [Option.filter, h]

theorem swept_seen (hkeyed : s.Keyed) (w : Walks) (now : Int) (uid : UID) :
    match s.workload uid with
    | none => s.swept w now uid = s.tracks.lookup uid
    | some complete => ∃ tr, s.swept w now uid = some tr ∧ tr.lastSeen = now ∧
        tr.complete = complete ∧ tr.completedAt =
          if complete = true ∧ s.seenComplete uid = false then now else s.completedAt uid := by
  have hverdict := verdict_dates hkeyed w now uid
  unfold swept
  cases hwl : s.workload uid with
  | none =>
    rw [hwl] at hverdict
    rw [hverdict]
  | some complete =>
    rw [hwl] at hverdict
    obtain ⟨v, hv, hdates⟩ := hverdict
    rw [hv]
    refine ⟨_, rfl, rfl, hdates.seen, hdates.dated.trans ?_⟩
    unfold trackFor seenComplete completedAt
    cases s.tracks.lookup uid <;> rfl

/-- A sweep dates a completion that it is the first to see, and keeps every other date of a
    workload that it does not drop. -/
theorem sweep_seen (hkeyed : s.Keyed) (hapart : s.Apart) (httl : 0 ≤ s.cfg.stateTTL) (w : Walks)
    (now : Int) (uid : UID) (complete : Bool) (hwl : s.workload uid = some complete)
    (hdropped : s.dropped now uid = false) :
    (s.sweep w now).1.seenComplete uid = complete ∧ (s.sweep w now).1.completedAt uid =
      if complete = true ∧ s.seenComplete uid = false then now else s.completedAt uid := by
  have hswept := swept_seen hkeyed w now uid
  rw [hwl] at hswept
  obtain ⟨tr, htr, hlast, hseen, hdated⟩ := hswept
  have hkept : s.kept now uid tr = true := by
    rw [dropped, Bool.or_eq_false_iff] at hdropped
    simp [kept, hdropped.1, hdropped.2, hlast, httl]
  have hlookup : (s.sweep w now).1.tracks.lookup uid = some tr := by
    rw [lookup_sweep_tracks hapart, htr, Option.filter_some, if_pos hkept]
  rw [seenComplete, completedAt, hlookup]
  exact ⟨hseen, hdated⟩

/-- Of a workload that it drops, and of one that is not mirrored, a sweep leaves no date or
    the date that was there. -/
theorem sweep_unseen (hkeyed : s.Keyed) (hapart : s.Apart) (w : Walks) (now : Int) (uid : UID)
    (h : s.dropped now uid = true ∨ s.workload uid = none) :
    (s.sweep w now).1.completedAt uid = 0 ∨ s.workload uid = none ∧
      (s.sweep w now).1.completedAt uid = s.completedAt uid ∧
        (s.sweep w now).1.seenComplete uid = s.seenComplete uid := by
  by_cases hdropped : s.dropped now uid = true
  · left
    have hkept : ∀ tr, s.kept now uid tr = false := by
      intro tr
      rw [dropped, Bool.or_eq_true] at hdropped
      rcases hdropped with hd | hs
      · simp [kept, hd]
      · simp [kept, hs]
    rw [completedAt, lookup_sweep_tracks hapart]
    cases s.swept w now uid with
    | none => rfl
    | some tr => simp [Option.filter, hkept]
  · have hwl := h.resolve_left hdropped
    have hswept := swept_seen hkeyed w now uid
    rw [hwl] at hswept
    rw [completedAt, seenComplete, lookup_sweep_tracks hapart, hswept, completedAt, seenComplete]
    cases s.tracks.lookup uid with
    | none => exact Or.inr ⟨hwl, rfl, rfl⟩
    | some tr =>
      cases hkept : s.kept now uid tr with
      | true => exact Or.inr ⟨hwl, by simp [Option.filter, hkept], by simp [hkept]⟩
      | false => exact Or.inl (by simp [Option.filter, hkept])

/-- A sweep emits stalls only of mirrored workloads that are incomplete. -/
theorem incomplete_of_stall (hkeyed : s.Keyed) (hapart : s.Apart) {w : Walks} {now : Int}
    {stall : Stall} (h : stall ∈ (s.sweep w now).2) : s.workload stall.uid = some false := by
  obtain ⟨uid, huid⟩ := (mem_sweep_stalls hapart w now stall).1 h
  obtain ⟨v, hv, hstall⟩ := Option.bind_eq_some_iff.1 huid
  have hverdict := verdict_dates hkeyed w now uid
  cases hwl : s.workload uid with
  | none =>
    rw [hwl] at hverdict
    rw [hverdict] at hv
    cases hv
  | some complete =>
    rw [hwl] at hverdict
    obtain ⟨v', hv', hdates⟩ := hverdict
    rw [hv] at hv'
    cases hv'
    obtain ⟨rfl, hsame⟩ := hdates.stall stall hstall
    exact hsame ▸ hwl

end Source

open Source (clearance completedAt workload)

/-! ## Runs with the history of the sweeps -/

variable {uid : UID}

/-- The source, the time of the latest event, and the history of the sweeps. -/
structure Chronicle where
  source : Source
  clock : Int
  incomplete : UID → List Int := fun _ => []
  stalls : UID → List Int := fun _ => []

variable {m : Chronicle}

namespace Chronicle

def new (cfg : Config) (start : Int) : Chronicle := { source := Rollout.new cfg, clock := start }

inductive Event where
  | deployment (now : Int) (e : Informer.Event Deployment)
  | statefulSet (now : Int) (e : Informer.Event StatefulSet)
  | replicaSet (now : Int) (e : Informer.Event ReplicaSet)
  | pod (now : Int) (e : Informer.Event Pod)
  | arm
  | sweep (w : Walks) (now : Int)

def step (m : Chronicle) : Event → Chronicle
  | .deployment now e => { m with source := m.source.deploymentEvent now e, clock := now }
  | .statefulSet now e => { m with source := m.source.statefulSetEvent now e, clock := now }
  | .replicaSet now e => { m with source := m.source.replicaSetEvent now e, clock := now }
  | .pod now e => { m with source := m.source.podEvent now e, clock := now }
  | .arm => { m with source := { m.source with armed := true } }
  | .sweep w now =>
    { source := (m.source.sweep w now).1
      clock := now
      incomplete := fun uid =>
        if m.source.workload uid = some false then now :: m.incomplete uid else m.incomplete uid
      stalls := fun uid =>
        if ∃ stall ∈ (m.source.sweep w now).2, stall.uid = uid then now :: m.stalls uid
        else m.stalls uid }

/-- A workload that is cleared as recovered with a date was not seen incomplete from that
    date on, and no stall was emitted for it later. -/
def Honest (m : Chronicle) : Prop :=
  ∀ inc c, m.source.clearance inc = some c → c.cleared = true → c.resolution = .recovered →
    c.stableSince ≠ 0 → (∀ t ∈ m.incomplete inc.key.uid, t < c.stableSince) ∧
      ∀ t ∈ m.stalls inc.key.uid, t ≤ c.stableSince

/-- The two kinds of workloads. -/
inductive Kind where
  | deployment
  | statefulSet
  deriving DecidableEq

/-- The clock does not go back, sweeps begin when the source is armed, and the objects are
    of the kind that their UID belongs to. -/
def Lawful (kindOf : UID → Kind) (m : Chronicle) : Event → Prop
  | .deployment now e => m.clock ≤ now ∧ kindOf e.object.uid = .deployment
  | .statefulSet now e => m.clock ≤ now ∧ kindOf e.object.uid = .statefulSet
  | .replicaSet now _ => m.clock ≤ now
  | .pod now _ => m.clock ≤ now
  | .arm => True
  | .sweep _ now => m.clock ≤ now ∧ m.source.armed = true

/-- The workload's track has no date, or the date of a completion that still holds. -/
def Undated (m : Chronicle) (uid : UID) : Prop :=
  m.source.seenComplete uid = false → m.source.completedAt uid = 0

/-- No event tells of the completion of a workload whose track holds the date of an older
    one, and no sweep dates a completion in the instant in which an earlier sweep saw the
    workload incomplete. -/
def Timely (m : Chronicle) : Event → Prop
  | .deployment _ (.upsert d) => deploymentComplete d = true → m.Undated d.uid
  | .statefulSet _ (.upsert sts) => stsComplete sts = true → m.Undated sts.uid
  | .sweep _ now => ∀ uid, m.source.workload uid = some true → m.source.seenComplete uid = false →
      m.source.dropped now uid = false → now ≠ 0 → now ∉ m.incomplete uid
  | _ => True

/-! ## The invariant -/

/-- What holds in every lawful run. -/
structure Orderly (kindOf : UID → Kind) (m : Chronicle) : Prop where
  ttl : 0 ≤ m.source.cfg.stateTTL
  keyed : m.source.Keyed
  deployments : ∀ uid, m.source.deployments.lookup uid ≠ none → kindOf uid = .deployment
  statefulsets : ∀ uid, m.source.statefulsets.lookup uid ≠ none → kindOf uid = .statefulSet
  unarmed : m.source.armed = false → m.source.tracks = ∅
  past : ∀ uid, (∀ t ∈ m.incomplete uid, t ≤ m.clock) ∧ ∀ t ∈ m.stalls uid, t ≤ m.clock
  stamped : ∀ uid, m.source.completedAt uid ≠ 0 → m.source.completedAt uid ≤ m.clock
  /-- A date that no longer holds lies before a sweep that saw the workload incomplete. -/
  reopened : ∀ uid, m.source.seenComplete uid = false → m.source.completedAt uid ≠ 0 →
    ∃ t ∈ m.incomplete uid, m.source.completedAt uid ≤ t

/-- The dates that a clearance may answer with come after all that the sweeps saw. -/
structure Dated (m : Chronicle) : Prop where
  holds : ∀ uid, m.source.seenComplete uid = true → m.source.completedAt uid ≠ 0 →
    (∀ t ∈ m.incomplete uid, t < m.source.completedAt uid) ∧
      ∀ t ∈ m.stalls uid, t ≤ m.source.completedAt uid
  open_ : ∀ uid, m.source.seenComplete uid = false → m.source.completedAt uid ≠ 0 →
    m.source.workload uid ≠ some true

variable {kindOf : UID → Kind}

theorem Orderly.apart (h : m.Orderly kindOf) : m.source.Apart := by
  intro uid
  by_contra hboth
  rw [not_or] at hboth
  exact absurd ((h.deployments uid hboth.1).symm.trans (h.statefulsets uid hboth.2)) (by decide)

theorem orderly_new (kindOf : UID → Kind) (cfg : Config) (start : Int) :
    (new cfg start).Orderly kindOf := by
  refine ⟨?_, ⟨?_, ?_⟩, ?_, ?_, fun _ => rfl, ?_, ?_, ?_⟩
  · simp only [new, Rollout.new, Config.normalize]
    split
    · decide
    next h => exact (not_le.1 h).le
  · exact fun uid e he => absurd he (by simp [new, Rollout.new])
  · exact fun uid e he => absurd he (by simp [new, Rollout.new])
  · exact fun uid he => absurd rfl he
  · exact fun uid he => absurd rfl he
  · exact fun uid => ⟨fun t ht => absurd ht List.not_mem_nil, fun t ht => absurd ht List.not_mem_nil⟩
  · exact fun uid hne => absurd rfl hne
  · exact fun uid _ hne => absurd rfl hne

theorem dated_new (cfg : Config) (start : Int) : (new cfg start).Dated :=
  ⟨fun _ _ hne => absurd rfl hne, fun _ _ hne => absurd rfl hne⟩

/-- What a clearance with a date says. -/
theorem workload_of_cleared (h : m.Orderly kindOf) {inc : Incident} {c : Clearance}
    (hc : m.source.clearance inc = some c) (hcleared : c.cleared = true)
    (hrecovered : c.resolution = .recovered) :
    m.source.workload inc.key.uid = some true ∧ c.stableSince = m.source.completedAt inc.key.uid := by
  have hverdict : ∀ complete, m.source.workloadVerdict complete inc.key.uid = c →
      complete = some true ∧ c.stableSince = m.source.completedAt inc.key.uid := by
    rintro complete rfl
    cases complete with
    | none => cases hrecovered
    | some complete => exact ⟨congrArg some hcleared, rfl⟩
  unfold clearance at hc
  dsimp only at hc
  split at hc
  · cases hc
  split at hc
  · cases hc
  split at hc
  · cases hc
  split at hc
  · obtain ⟨hcomplete, hsince⟩ := hverdict _ (Option.some.inj hc)
    exact ⟨by rw [workload, hcomplete]; rfl, hsince⟩
  · obtain ⟨hcomplete, hsince⟩ := hverdict _ (Option.some.inj hc)
    obtain ⟨e, he, -⟩ := Option.map_eq_some_iff.1 hcomplete
    have hnone := (h.apart inc.key.uid).resolve_right (by rw [he]; exact Option.some_ne_none e)
    exact ⟨by rw [workload, hcomplete, hnone]; rfl, hsince⟩

theorem Dated.honest (horderly : m.Orderly kindOf) (h : m.Dated) : m.Honest := by
  intro inc c hc hcleared hrecovered hdate
  obtain ⟨hcomplete, hsince⟩ := workload_of_cleared horderly hc hcleared hrecovered
  rw [hsince] at hdate ⊢
  cases hseen : m.source.seenComplete inc.key.uid with
  | true => exact h.holds _ hseen hdate
  | false => exact absurd hcomplete (h.open_ _ hseen hdate)

variable {s s' : Source} {e : Event}

/-- A complete workload is cleared with the date of its track. -/
theorem exists_cleared (harmed : m.source.armed = true)
    (hcomplete : m.source.workload uid = some true) :
    ∃ inc, inc.key.uid = uid ∧
      m.source.clearance inc = some ⟨true, m.source.completedAt uid, .recovered⟩ := by
  unfold workload at hcomplete
  cases hd : m.source.deployments.lookup uid with
  | some e =>
    refine ⟨incidentAbout (bytes "Deployment") (bytes "rollout_stall") uid ⟨[], []⟩, rfl, ?_⟩
    rw [hd] at hcomplete
    have hdone : deploymentComplete e.obj = true := Option.some.inj hcomplete
    simp [clearance, incidentAbout, harmed, hd, Source.workloadVerdict, hdone, completedAt]
  | none =>
    refine ⟨incidentAbout (bytes "StatefulSet") (bytes "rollout_stall") uid ⟨[], []⟩, rfl, ?_⟩
    rw [hd] at hcomplete
    obtain ⟨e, he, hdone⟩ := Option.map_eq_some_iff.1 hcomplete
    simp [clearance, incidentAbout, harmed, he, Source.workloadVerdict, hdone, completedAt]

/-! ## Sweeps -/

section Sweeps

variable {kindOf : UID → Kind} (h : m.Orderly kindOf) (w : Walks) (now : Int)

include h

/-- The sweep's effect on one workload: it is dropped or not mirrored, or its date is set. -/
theorem sweep_cases (uid : UID) :
    ((m.source.sweep w now).1.workload uid = none ∧
      ((m.source.sweep w now).1.completedAt uid = 0 ∨ m.source.workload uid = none ∧
        (m.source.sweep w now).1.completedAt uid = m.source.completedAt uid ∧
          (m.source.sweep w now).1.seenComplete uid = m.source.seenComplete uid)) ∨
    ∃ complete, m.source.workload uid = some complete ∧ m.source.dropped now uid = false ∧
      (m.source.sweep w now).1.workload uid = some complete ∧
      (m.source.sweep w now).1.seenComplete uid = complete ∧
      (m.source.sweep w now).1.completedAt uid =
        if complete = true ∧ m.source.seenComplete uid = false then now
        else m.source.completedAt uid := by
  have hworkload := Source.sweep_workload h.apart w now uid
  by_cases hgone : m.source.dropped now uid = true ∨ m.source.workload uid = none
  · refine Or.inl ⟨?_, Source.sweep_unseen h.keyed h.apart w now uid hgone⟩
    rw [hworkload]
    rcases hgone with hdropped | hnone
    · rw [if_pos hdropped]
    · rw [hnone]
      split <;> rfl
  · rw [not_or] at hgone
    obtain ⟨complete, hwl⟩ := Option.ne_none_iff_exists'.1 hgone.2
    have hdropped := Bool.eq_false_iff.2 hgone.1
    rw [if_neg hgone.1] at hworkload
    exact Or.inr ⟨complete, hwl, hdropped, hworkload.trans hwl,
      Source.sweep_seen h.keyed h.apart h.ttl w now uid complete hwl hdropped⟩

variable {w now}

theorem Orderly.sweep (hlaw : m.Lawful kindOf (.sweep w now)) :
    (m.step (.sweep w now)).Orderly kindOf := by
  have hpast : ∀ (l : List Int) (p : Prop) [Decidable p], (∀ t ∈ l, t ≤ m.clock) →
      ∀ t ∈ (if p then now :: l else l), t ≤ now := by
    intro l p _ hl t ht
    split at ht
    · rcases List.mem_cons.1 ht with rfl | ht
      · exact le_rfl
      · exact (hl t ht).trans hlaw.1
    · exact (hl t ht).trans hlaw.1
  refine ⟨h.ttl, ⟨fun uid e he => ?_, fun uid e he => ?_⟩, fun uid hne => ?_, fun uid hne => ?_,
    fun hunarmed => ?_, fun uid => ⟨hpast _ _ (h.past uid).1, hpast _ _ (h.past uid).2⟩,
    fun uid hne => ?_, fun uid hseen hne => ?_⟩
  · simp only [step, Source.sweep, Map.lookup_filter] at he
    exact h.keyed.deployments uid e (Option.filter_eq_some_iff.1 he).1
  · simp only [step, Source.sweep, Map.lookup_filter] at he
    exact h.keyed.statefulsets uid e (Option.filter_eq_some_iff.1 he).1
  · simp only [step, Source.sweep, Map.lookup_filter] at hne
    exact h.deployments uid fun hnone => hne (by rw [hnone]; rfl)
  · simp only [step, Source.sweep, Map.lookup_filter] at hne
    exact h.statefulsets uid fun hnone => hne (by rw [hnone]; rfl)
  · exact absurd (hlaw.2.symm.trans hunarmed) (by decide)
  · simp only [step] at hne ⊢
    rcases sweep_cases h w now uid with ⟨-, hdate⟩ | ⟨complete, -, -, -, -, hdate⟩
    · obtain ⟨-, hdate, -⟩ := hdate.resolve_left hne
      rw [hdate] at hne ⊢
      exact (h.stamped uid hne).trans hlaw.1
    · rw [hdate] at hne ⊢
      split at hne
      next hnew => rw [if_pos hnew]
      next hold =>
        rw [if_neg hold]
        exact (h.stamped uid hne).trans hlaw.1
  · simp only [step] at hseen hne ⊢
    rcases sweep_cases h w now uid with
      ⟨-, hdate⟩ | ⟨complete, hwl, -, -, hseen', hdate⟩
    · obtain ⟨hnone, hdate, hsame⟩ := hdate.resolve_left hne
      rw [hdate] at hne ⊢
      rw [hnone, if_neg (by decide)]
      exact h.reopened uid (hsame ▸ hseen) hne
    · obtain rfl : complete = false := hseen'.symm.trans hseen
      rw [hdate] at hne ⊢
      rw [hwl, if_pos rfl]
      exact ⟨now, List.mem_cons_self, (h.stamped uid hne).trans hlaw.1⟩

/-- A sweep adds nothing to the history of a workload that it does not see incomplete. -/
theorem history_sweep (hwl : m.source.workload uid ≠ some false) :
    (m.step (.sweep w now)).incomplete uid = m.incomplete uid ∧
      (m.step (.sweep w now)).stalls uid = m.stalls uid := by
  refine ⟨if_neg hwl, if_neg ?_⟩
  rintro ⟨stall, hstall, rfl⟩
  exact hwl (Source.incomplete_of_stall h.keyed h.apart hstall)

theorem Dated.sweep (hdated : m.Dated) (hlaw : m.Lawful kindOf (.sweep w now))
    (htimely : m.Timely (.sweep w now)) : (m.step (.sweep w now)).Dated := by
  constructor
  · intro uid hseen hne
    change (m.source.sweep w now).1.completedAt uid ≠ 0 at hne
    change (∀ t ∈ (m.step (.sweep w now)).incomplete uid,
      t < (m.source.sweep w now).1.completedAt uid) ∧
        ∀ t ∈ (m.step (.sweep w now)).stalls uid, t ≤ (m.source.sweep w now).1.completedAt uid
    rcases sweep_cases h w now uid with ⟨-, hdate⟩ | ⟨complete, hwl, hdropped, -, hseen', hdate⟩
    · obtain ⟨hnone, hdate, hsame⟩ := hdate.resolve_left hne
      obtain ⟨hincomplete, hstalls⟩ := history_sweep h (w := w) (by rw [hnone]; decide)
      rw [hdate] at hne
      rw [hincomplete, hstalls, hdate]
      exact hdated.holds uid (hsame ▸ hseen) hne
    · obtain rfl : complete = true := hseen'.symm.trans hseen
      obtain ⟨hincomplete, hstalls⟩ := history_sweep h (w := w) (by rw [hwl]; decide)
      rw [hdate] at hne
      rw [hincomplete, hstalls, hdate]
      by_cases hfirst : m.source.seenComplete uid = false
      · -- The date is new, so nothing that was recorded before comes after it.
        rw [if_pos ⟨rfl, hfirst⟩] at hne ⊢
        have hnot := htimely uid hwl hfirst hdropped hne
        refine ⟨fun t ht => ?_, fun t ht => ((h.past uid).2 t ht).trans hlaw.1⟩
        refine lt_of_le_of_ne (((h.past uid).1 t ht).trans hlaw.1) fun heq => ?_
        exact hnot (heq ▸ ht)
      · rw [if_neg fun hboth => hfirst hboth.2] at hne ⊢
        exact hdated.holds uid (Bool.not_eq_false _ ▸ hfirst) hne
  · intro uid hseen hne hdone
    simp only [step] at hseen hne hdone
    rcases sweep_cases h w now uid with ⟨hgone, -⟩ | ⟨complete, -, -, hwl', hseen', -⟩
    · rw [hgone] at hdone
      cases hdone
    · rw [hwl', ← hseen', hseen] at hdone
      cases hdone

theorem timely_of_sweep (hlaw : m.Lawful kindOf (.sweep w now))
    (hhonest : (m.step (.sweep w now)).Honest) : m.Timely (.sweep w now) := by
  intro uid hwl hfirst hdropped hnow hmem
  have hseen := Source.sweep_seen h.keyed h.apart h.ttl w now uid true hwl hdropped
  rw [if_pos ⟨rfl, hfirst⟩] at hseen
  have hdone : (m.step (.sweep w now)).source.workload uid = some true := by
    refine (Source.sweep_workload h.apart w now uid).trans ?_
    rw [hdropped]
    exact hwl
  obtain ⟨inc, huid, hc⟩ := exists_cleared (m := m.step (.sweep w now)) hlaw.2 hdone
  have hdate : (m.step (.sweep w now)).source.completedAt uid = now := hseen.2
  have hsame : (m.step (.sweep w now)).incomplete uid = m.incomplete uid :=
    (history_sweep h (by rw [hwl]; decide)).1
  rw [hdate] at hc
  have hlate := (hhonest inc _ hc rfl rfl hnow).1 now
  rw [huid, hsame] at hlate
  exact lt_irrefl now (hlate hmem)

end Sweeps

/-! ## Events -/

/-- The date and state in the track of every workload are as they were, or the date is
    gone. -/
def Follows (s s' : Source) : Prop :=
  ∀ uid, s'.completedAt uid = 0 ∨
    s'.completedAt uid = s.completedAt uid ∧ s'.seenComplete uid = s.seenComplete uid

theorem follows_of_tracks (h : s'.tracks = s.tracks) : Follows s s' := by
  intro uid
  rw [completedAt, Source.seenComplete, h]
  exact Or.inr ⟨rfl, rfl⟩

theorem completedAt_of_erase (h : s'.tracks = s.tracks.erase uid) : s'.completedAt uid = 0 := by
  rw [completedAt, h, Map.lookup_erase, if_pos rfl]
  rfl

theorem follows_of_erase (h : s'.tracks = s.tracks.erase uid) : Follows s s' := by
  intro u
  by_cases hu : u = uid
  · subst hu
    exact Or.inl (completedAt_of_erase h)
  · rw [completedAt, Source.seenComplete, h, Map.lookup_erase, if_neg hu]
    exact Or.inr ⟨rfl, rfl⟩

section Events

variable {kindOf : UID → Kind} {m' : Chronicle} (h : m.Orderly kindOf)

include h

/-- What an event has to leave in place. -/
theorem Orderly.of_event (hcfg : m'.source.cfg = m.source.cfg)
    (hd : ∀ uid e, m'.source.deployments.lookup uid = some e →
      e.obj.uid = uid ∧ kindOf uid = .deployment)
    (hs : ∀ uid e, m'.source.statefulsets.lookup uid = some e →
      e.obj.uid = uid ∧ kindOf uid = .statefulSet)
    (harmed : m'.source.armed = false → m'.source.tracks = ∅)
    (hfollows : Follows m.source m'.source) (hclock : m.clock ≤ m'.clock)
    (hincomplete : m'.incomplete = m.incomplete) (hstalls : m'.stalls = m.stalls) :
    m'.Orderly kindOf := by
  refine ⟨hcfg ▸ h.ttl, ⟨fun uid e he => (hd uid e he).1, fun uid e he => (hs uid e he).1⟩,
    fun uid hne => ?_, fun uid hne => ?_, harmed, fun uid => ?_, fun uid hne => ?_,
    fun uid hseen hne => ?_⟩
  · obtain ⟨e, he⟩ := Option.ne_none_iff_exists'.1 hne
    exact (hd uid e he).2
  · obtain ⟨e, he⟩ := Option.ne_none_iff_exists'.1 hne
    exact (hs uid e he).2
  · rw [hincomplete, hstalls]
    exact ⟨fun t ht => ((h.past uid).1 t ht).trans hclock,
      fun t ht => ((h.past uid).2 t ht).trans hclock⟩
  · obtain ⟨hdate, -⟩ := (hfollows uid).resolve_left hne
    rw [hdate] at hne ⊢
    exact (h.stamped uid hne).trans hclock
  · obtain ⟨hdate, hsame⟩ := (hfollows uid).resolve_left hne
    rw [hdate] at hne ⊢
    rw [hincomplete]
    exact h.reopened uid (hsame ▸ hseen) hne

omit h in
/-- The dates stay right if no workload with an old date becomes complete. -/
theorem Dated.of_event (hdated : m.Dated) (hfollows : Follows m.source m'.source)
    (hincomplete : m'.incomplete = m.incomplete) (hstalls : m'.stalls = m.stalls)
    (hopen : ∀ uid, m'.source.completedAt uid ≠ 0 → m.source.seenComplete uid = false →
      m.source.completedAt uid ≠ 0 → m'.source.workload uid = some true →
        m.source.workload uid = some true) : m'.Dated := by
  refine ⟨fun uid hseen hne => ?_, fun uid hseen hne hdone => ?_⟩
  · obtain ⟨hdate, hsame⟩ := (hfollows uid).resolve_left hne
    rw [hdate] at hne ⊢
    rw [hincomplete, hstalls]
    exact hdated.holds uid (hsame ▸ hseen) hne
  · obtain ⟨hdate, hsame⟩ := (hfollows uid).resolve_left hne
    have hne' : m.source.completedAt uid ≠ 0 := hdate ▸ hne
    have hseen' : m.source.seenComplete uid = false := hsame ▸ hseen
    exact hdated.open_ uid hseen' hne' (hopen uid hne hseen' hne' hdone)

/-- A workload with an old date that becomes complete is cleared with that date. -/
theorem undated_of_honest (hhonest : m'.Honest) (htracks : m'.source.tracks = m.source.tracks)
    (harmed : m'.source.armed = m.source.armed) (hincomplete : m'.incomplete = m.incomplete)
    (hdone : m'.source.workload uid = some true) : m.Undated uid := by
  intro hseen
  by_contra hne
  have harm : m'.source.armed = true := by
    rw [harmed]
    by_contra hunarmed
    refine hne ?_
    rw [completedAt, h.unarmed (Bool.eq_false_iff.2 hunarmed)]
    rfl
  have hdate : m'.source.completedAt uid = m.source.completedAt uid := by
    rw [completedAt, completedAt, htracks]
  obtain ⟨inc, huid, hc⟩ := exists_cleared harm hdone
  obtain ⟨t, ht, hle⟩ := h.reopened uid hseen hne
  have hlate := (hhonest inc _ hc rfl rfl (hdate ▸ hne)).1 t (by rw [huid, hincomplete]; exact ht)
  rw [hdate] at hlate
  exact absurd hlate (not_lt.2 hle)

variable {e : Event}

theorem Orderly.step (hlaw : m.Lawful kindOf e) : (m.step e).Orderly kindOf := by
  have hd : ∀ uid e, m.source.deployments.lookup uid = some e →
      e.obj.uid = uid ∧ kindOf uid = .deployment := fun uid e he =>
    ⟨h.keyed.deployments uid e he, h.deployments uid (he ▸ Option.some_ne_none e)⟩
  have hs : ∀ uid e, m.source.statefulsets.lookup uid = some e →
      e.obj.uid = uid ∧ kindOf uid = .statefulSet := fun uid e he =>
    ⟨h.keyed.statefulsets uid e he, h.statefulsets uid (he ▸ Option.some_ne_none e)⟩
  have hunarmed (uid : UID) (hfalse : m.source.armed = false) : m.source.tracks.erase uid = ∅ := by
    rw [h.unarmed hfalse]
    exact Map.erase_of_lookup_none rfl
  cases e with
  | deployment now e =>
    cases e with
    | upsert d =>
      exact h.of_event rfl ((Map.writes_insert _ _ _).forall_lookup
        (fun e he => Option.some.inj he ▸ ⟨rfl, hlaw.2⟩) hd) hs h.unarmed (follows_of_tracks rfl)
        hlaw.1 rfl rfl
    | delete d =>
      exact h.of_event rfl ((Map.writes_erase _ _).forall_lookup nofun hd) hs (hunarmed d.uid)
        (follows_of_erase rfl) hlaw.1 rfl rfl
  | statefulSet now e =>
    cases e with
    | upsert sts =>
      exact h.of_event rfl hd ((Map.writes_insert _ _ _).forall_lookup
        (fun e he => Option.some.inj he ▸ ⟨rfl, hlaw.2⟩) hs) h.unarmed (follows_of_tracks rfl)
        hlaw.1 rfl rfl
    | delete sts =>
      exact h.of_event rfl hd ((Map.writes_erase _ _).forall_lookup nofun hs) (hunarmed sts.uid)
        (follows_of_erase rfl) hlaw.1 rfl rfl
  | replicaSet now e | pod now e =>
    cases e <;> exact h.of_event rfl hd hs h.unarmed (follows_of_tracks rfl) hlaw rfl rfl
  | arm => exact h.of_event rfl hd hs nofun (follows_of_tracks rfl) le_rfl rfl rfl
  | sweep w now => exact h.sweep hlaw

omit h in
/-- What an upserted Deployment makes of the mirrored workloads. -/
theorem workload_onDeployment (now : Int) (d : Deployment) (uid : UID) :
    (m.source.onDeployment now d).workload uid =
      if uid = d.uid then some (deploymentComplete d) else m.source.workload uid := by
  rw [workload, Source.onDeployment, Map.lookup_insert]
  split <;> rfl

theorem workload_onStatefulSet (now : Int) {sts : StatefulSet}
    (hkind : kindOf sts.uid = .statefulSet) (uid : UID) :
    (m.source.onStatefulSet now sts).workload uid =
      if uid = sts.uid then some (stsComplete sts) else m.source.workload uid := by
  have hnone : m.source.deployments.lookup sts.uid = none := by
    by_contra hne
    exact absurd (hkind.symm.trans (h.deployments _ hne)) (by decide)
  rw [workload, Source.onStatefulSet, Map.lookup_insert]
  split
  next hu => rw [hu, hnone]; rfl
  next => rfl

/-- A step that is timely keeps the dates right. -/
theorem Dated.step (hdated : m.Dated) (hlaw : m.Lawful kindOf e) (htimely : m.Timely e) :
    (m.step e).Dated := by
  cases e with
  | deployment now e =>
    cases e with
    | upsert d =>
      refine hdated.of_event (follows_of_tracks rfl) rfl rfl fun uid _ hseen hne hdone => ?_
      rw [show (m.step (.deployment now (.upsert d))).source.workload uid = _ from
        workload_onDeployment now d uid] at hdone
      split at hdone
      next hu =>
        subst hu
        exact absurd (htimely (Option.some.inj hdone) hseen) hne
      next => exact hdone
    | delete d =>
      refine hdated.of_event (follows_of_erase rfl) rfl rfl fun uid hne' _ _ hdone => ?_
      have hu : uid ≠ d.uid := fun hu => hne' (hu ▸ completedAt_of_erase rfl)
      simpa [step, Source.deploymentEvent, Source.onDeploymentDelete, workload, hu] using hdone
  | statefulSet now e =>
    cases e with
    | upsert sts =>
      refine hdated.of_event (follows_of_tracks rfl) rfl rfl fun uid _ hseen hne hdone => ?_
      rw [show (m.step (.statefulSet now (.upsert sts))).source.workload uid = _ from
        workload_onStatefulSet h now hlaw.2 uid] at hdone
      split at hdone
      next hu =>
        subst hu
        exact absurd (htimely (Option.some.inj hdone) hseen) hne
      next => exact hdone
    | delete sts =>
      refine hdated.of_event (follows_of_erase rfl) rfl rfl fun uid hne' _ _ hdone => ?_
      have hu : uid ≠ sts.uid := fun hu => hne' (hu ▸ completedAt_of_erase rfl)
      simpa [step, Source.statefulSetEvent, Source.onStatefulSetDelete, workload, hu] using hdone
  | replicaSet now e | pod now e =>
    cases e <;>
      exact hdated.of_event (follows_of_tracks rfl) rfl rfl fun uid _ _ _ hdone => hdone
  | arm => exact hdated.of_event (follows_of_tracks rfl) rfl rfl fun uid _ _ _ hdone => hdone
  | sweep w now => exact hdated.sweep h hlaw htimely

theorem timely_of_honest (hlaw : m.Lawful kindOf e) (hhonest : (m.step e).Honest) :
    m.Timely e := by
  cases e with
  | deployment now e =>
    cases e with
    | upsert d =>
      intro hdone
      refine undated_of_honest h hhonest rfl rfl rfl ?_
      exact (workload_onDeployment now d d.uid).trans ((if_pos rfl).trans (congrArg some hdone))
    | delete d => trivial
  | statefulSet now e =>
    cases e with
    | upsert sts =>
      intro hdone
      refine undated_of_honest h hhonest rfl rfl rfl ?_
      exact (workload_onStatefulSet h now hlaw.2 sts.uid).trans
        ((if_pos rfl).trans (congrArg some hdone))
    | delete sts => trivial
  | replicaSet now e | pod now e | arm => trivial
  | sweep w now => exact timely_of_sweep h hlaw hhonest

end Events

/-! ## Runs -/

/-- In every lawful run the clearance of a rollout borrows no older completion, just if
    every step is timely. -/
theorem clearance_dated_iff (kindOf : UID → Kind) (cfg : Config) (start : Int)
    (events : List Event) (hlaw : Run.Steps step (Lawful kindOf) (new cfg start) events) :
    Run.Always step Honest (new cfg start) events ↔
      Run.Steps step Timely (new cfg start) events := by
  have himp : ∀ m, Orderly kindOf m ∧ Dated m → m.Honest := fun m hinv => hinv.2.honest hinv.1
  have hkeep : ∀ m e, Orderly kindOf m ∧ Dated m → Lawful kindOf m e → Timely m e →
      Orderly kindOf (step m e) ∧ Dated (step m e) :=
    fun m e hinv hlaw htimely => ⟨hinv.1.step hlaw, hinv.2.step hinv.1 hlaw htimely⟩
  have hlose : ∀ m e, Orderly kindOf m ∧ Dated m → Lawful kindOf m e → (step m e).Honest →
      Timely m e := fun m e hinv hlaw hhonest => timely_of_honest hinv.1 hlaw hhonest
  exact Run.always_iff_steps_of_invariant himp hkeep hlose
    ⟨orderly_new kindOf cfg start, dated_new cfg start⟩ hlaw

/-- The Deployment `web` with one replica, complete or in the middle of a rollout. -/
def web (complete : Bool) : Deployment where
  uid := bytes "d1"
  ns := bytes "prod"
  name := bytes "web"
  replicas := some 1
  updatedReplicas := if complete then 1 else 0
  statusReplicas := 1
  availableReplicas := 1

/-- A rollout that a sweep sees in progress, and the next one complete. -/
def rolledOut : List Event :=
  [.arm, .deployment minute (.upsert (web false)), .sweep .listed minute,
    .deployment (2 * minute) (.upsert (web true)), .sweep .listed (2 * minute)]

theorem rolledOut_lawful :
    Run.Steps step (Lawful fun _ => .deployment) (new {} 0) rolledOut := by
  refine ⟨trivial, ⟨?_, rfl⟩, ⟨?_, rfl⟩, ⟨?_, rfl⟩, ⟨?_, rfl⟩, trivial⟩ <;> decide

/-- A rollout that completes is cleared with the date of the sweep that saw it complete. -/
theorem rolledOut_dated : Run.Always step Honest (new {} 0) rolledOut := by
  refine (clearance_dated_iff (fun _ => .deployment) {} 0 rolledOut rolledOut_lawful).2 ?_
  refine ⟨trivial, fun hfalse => absurd hfalse (by decide +kernel), fun uid _ _ _ _ => ?_,
    fun _ _ => by decide +kernel, fun uid _ _ _ _ => ?_, trivial⟩
  · exact List.not_mem_nil
  · -- The only earlier sweep was in the first minute.
    change 2 * minute ∉ (if _ then minute :: [] else [])
    split
    · decide
    · exact List.not_mem_nil

/-- Complete in the first minute, in progress in the second, and complete by an event in the
    third. -/
def rolledOutAgain : List Event :=
  [.arm, .deployment minute (.upsert (web true)), .sweep .listed minute,
    .deployment (2 * minute) (.upsert (web false)), .sweep .listed (2 * minute),
    .deployment (3 * minute) (.upsert (web true))]

/-- The second completion is cleared with the date of the first one. -/
theorem older_completion_borrowed :
    Run.Steps step (Lawful fun _ => .deployment) (new {} 0) rolledOutAgain ∧
      ¬ Run.Always step Honest (new {} 0) rolledOutAgain := by
  constructor
  · refine ⟨trivial, ⟨?_, rfl⟩, ⟨?_, rfl⟩, ⟨?_, rfl⟩, ⟨?_, rfl⟩, ⟨?_, rfl⟩, trivial⟩ <;> decide
  · intro h
    have hend := h rolledOutAgain (List.prefix_refl _)
      (incidentAbout (bytes "Deployment") (bytes "rollout_stall") (bytes "d1") ⟨[], []⟩)
      ⟨true, minute, .recovered⟩ (by decide +kernel) rfl rfl (by decide)
    exact absurd (hend.1 (2 * minute) (by decide +kernel)) (by decide)

end Chronicle

end Lookout.Sources.Rollout
