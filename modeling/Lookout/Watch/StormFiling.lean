-- SUMMARY: Filing an incident under its storm: which entries and which tracked incidents a verdict reaches.
import Lookout.Watch.Outcomes
import Lookout.Watch.StepEffects

/-!
# Filing under a storm

An incident that a storm takes must be filed under it: its dedup entry carries the
storm's fingerprint, and the tracker knows its key. Otherwise a duplicate finds an
incident without a session and without a storm, and opens a session beside the storm's.
The handlers file by the keys of the member records and by the key of the signal, and
the two are made in different ways. This module says which keys each handler files.
-/

namespace Lookout.Engine.DedupCache

variable {key : EventKey} {keys keys' : List EventKey} {member : StormMember} {fp sid : GoString}
  {now : Int} {env : Env} {cleared info : StormInfo}

/-- The storm that the entry of a key is filed under, none without an entry. -/
def stormOn (key : EventKey) (c : DedupCache) : Option GoString :=
  (c.entries.lookup key).map (·.storm)

theorem stormOn_update {c : DedupCache} (f : DedupEntry → DedupEntry)
    (hf : ∀ e, (f e).storm = e.storm) (k : EventKey) :
    (c.update key f).stormOn k = c.stormOn k := by
  unfold stormOn
  rw [lookup_update]
  split
  · rw [Option.map_map]
    exact Option.map_congr fun e _ => hf e
  · rfl

theorem stormOn_attachToStorm (key k : EventKey) (sid fp : GoString) (ref : IncidentRef)
    (c : DedupCache) :
    (c.attachToStorm key sid fp ref).stormOn k =
      if k = key.canonical then (c.stormOn k).map (fun _ => fp) else c.stormOn k := by
  unfold stormOn attachToStorm
  rw [lookup_update]
  split
  · rw [Option.map_map, Option.map_map]
    rfl
  · rfl

end Lookout.Engine.DedupCache

namespace Lookout.Watch.Dispatcher

open Engine

/-! ## Filing -/

/-- The storm that the incident of a key is filed under. -/
def stormOn (key : EventKey) (d : Dispatcher) : Option GoString := d.dedup.stormOn key

/-- The tracker, if there is one, has room for `n` more incidents at this instant. -/
def Roomy (now : Int) (n : Nat) (d : Dispatcher) : Prop := ∀ t ∈ d.tracker, t.Roomy now n

/-- The tracker, if there is one, was told about the key at this instant. -/
def TracksNow (now : Int) (key : EventKey) (d : Dispatcher) : Prop :=
  ∀ t ∈ d.tracker, t.Recent now key

/-- The keys, and no others, are filed under the storm, and each of them is tracked. -/
structure Files (now : Int) (fp : GoString) (keys : List EventKey) (d d' : Dispatcher) : Prop where
  storm : ∀ k, d'.stormOn k = if k ∈ keys then (d.stormOn k).map (fun _ => fp) else d.stormOn k
  room : ∀ n, d.Roomy now (n + keys.length) → d'.Roomy now n
  tracked : d.Roomy now keys.length → ∀ k, k ∈ keys ∨ d.TracksNow now k → d'.TracksNow now k

variable {d : Dispatcher}

theorem Roomy.mono {n m : Nat} (h : d.Roomy now m) (hnm : n ≤ m) :
    d.Roomy now n := fun t ht =>
  ⟨(h t ht).ttl, (h t ht).dated, le_trans (Nat.add_le_add_left hnm _) (h t ht).room⟩

section Files

variable {d d' d'' : Dispatcher}

theorem Files.of_frame (now : Int) (fp : GoString) (hstorm : ∀ k, d'.stormOn k = d.stormOn k)
    (htracker : d'.tracker = d.tracker) : Files now fp [] d d' := by
  refine ⟨fun k => ?_, fun n h => ?_, fun _ k h => ?_⟩
  · rw [hstorm, if_neg List.not_mem_nil]
  · rw [Roomy, htracker]
    exact h
  · rw [TracksNow, htracker]
    exact h.resolve_left List.not_mem_nil

theorem stormOn_of_dedup (h : d'.dedup = d.dedup) (k : EventKey) : d'.stormOn k = d.stormOn k := by
  rw [stormOn, stormOn, h]

theorem Files.trans (h : Files now fp keys d d') (h' : Files now fp keys' d' d'') :
    Files now fp (keys ++ keys') d d'' := by
  refine ⟨fun k => ?_, fun n hroom => ?_, fun hroom k hk => ?_⟩
  · rw [h'.storm, h.storm]
    by_cases hk : k ∈ keys
    · rw [if_pos hk, if_pos (List.mem_append_left keys' hk), Option.map_map]
      exact ite_self _
    · rw [if_neg hk]
      exact if_congr (by rw [List.mem_append, or_iff_right hk]) rfl rfl
  · refine h'.room n (h.room (n + keys'.length) (hroom.mono ?_))
    rw [List.length_append]
    omega
  · rw [List.length_append] at hroom
    have hfirst : d.Roomy now keys.length := hroom.mono (by omega)
    refine h'.tracked (h.room keys'.length (hroom.mono (by omega))) k ?_
    rcases hk with hmem | hnow
    · rcases List.mem_append.1 hmem with hmem | hmem
      · exact Or.inr (h.tracked hfirst k (Or.inl hmem))
      · exact Or.inl hmem
    · exact Or.inr (h.tracked hfirst k (Or.inr hnow))

/-- What leaves the entries and the tracker alone may follow, or come first. -/
theorem Files.then_frame (h : Files now fp keys d d') (hdedup : d''.dedup = d'.dedup)
    (htracker : d''.tracker = d'.tracker) : Files now fp keys d d'' := by
  have hall := h.trans (Files.of_frame now fp (stormOn_of_dedup hdedup) htracker)
  rwa [List.append_nil] at hall

theorem Files.after_frame (h : Files now fp keys d' d'') (hdedup : d'.dedup = d.dedup)
    (htracker : d'.tracker = d.tracker) : Files now fp keys d d'' :=
  (Files.of_frame now fp (stormOn_of_dedup hdedup) htracker).trans h

theorem Files.then_supersede (h : Files now fp keys d d') (env : Env) (members : List StormMember)
    (sid : GoString) (info : StormInfo) : Files now fp keys d (d'.supersede env members sid info) := by
  obtain ⟨hdedup, htracker, -⟩ := supersede_frame env members sid info d'
  exact h.then_frame hdedup htracker

end Files

/-! ## The handlers -/

section

variable (env)

/-- File one incident and track it. -/
theorem attach_files (key : EventKey) (sid fp : GoString) (ref : IncidentRef) {inc : Incident}
    (hinc : inc.key.canonical = key.canonical) (d : Dispatcher) :
    Files env.now fp [key.canonical] d
      ((d.onDedup (·.attachToStorm key sid fp ref)).track env inc) := by
  refine ⟨fun k => ?_, fun n hroom t ht => ?_, fun hroom k hk t ht => ?_⟩
  · exact (DedupCache.stormOn_attachToStorm key k sid fp ref d.dedup).trans
      (if_congr List.mem_singleton.symm rfl rfl)
  · obtain ⟨t₀, ht₀, rfl⟩ := Option.map_eq_some_iff.1 ht
    exact (RecoveryTracker.track_spec (hroom t₀ ht₀) env.tracked inc).1
  · obtain ⟨t₀, ht₀, rfl⟩ := Option.map_eq_some_iff.1 ht
    obtain ⟨-, hown, hothers⟩ := RecoveryTracker.track_spec (hroom t₀ ht₀) env.tracked inc
    rcases hk with hk | hnow
    · rw [List.mem_singleton.1 hk, ← hinc]
      exact hown
    · exact hothers k (hnow t₀ ht₀)

theorem rebindStormMembers_files (members : List StormMember) (sid fp : GoString)
    (triggerKey : EventKey) (triggerRef : IncidentRef) (d : Dispatcher) :
    Files env.now fp (members.map (·.key.canonical)) d
      (d.rebindStormMembers env members sid fp triggerKey triggerRef) := by
  induction members generalizing d with
  | nil => exact Files.of_frame env.now fp (fun _ => rfl) rfl
  | cons m members ih =>
    exact (attach_files env m.key sid fp (d.memberRef triggerKey triggerRef m) rfl d).trans (ih _)

/-- The keys of a storm's member records. -/
def memberKeys (id : GoString) (d : Dispatcher) : List EventKey :=
  ((d.storm.map (·.stormMembers id)).getD []).map (·.key.canonical)

/-- The sink opens a session for the storm, when it is asked now. -/
def stormOpens (env : Env) (info : StormInfo) (d : Dispatcher) : Bool :=
  (env.sink.openIncident d.sent (d.stormKey info.ancestor) (.storm info)).sessionID ≠ []

theorem openSession_eq (info : StormInfo) (d : Dispatcher) :
    ∃ d' sid failed, d'.dedup = d.dedup ∧ d'.tracker = d.tracker ∧ d'.storm = d.storm ∧
      d.openSession env (d.stormKey info.ancestor) (.storm info) =
        (d', if d.stormOpens env info then some (sid, failed) else none) := by
  let reply := env.sink.openIncident d.sent (d.stormKey info.ancestor) (.storm info)
  refine ⟨(d.openSession env (d.stormKey info.ancestor) (.storm info)).1, reply.sessionID,
    reply.failed, openSession_dedup _ _ _ _, ?_, openSession_storm _ _ _ _, Prod.ext rfl ?_⟩
  · rw [openSession_fst]
    rfl
  · unfold openSession stormOpens
    dsimp only
    split
    · next hfailed => rw [if_neg (by simp [hfailed])]
    · next hopened => exact (if_pos (decide_eq_true hopened)).symm

/-- The keys that opening the storm's session files. -/
def openedKeys (env : Env) (info : StormInfo) (d : Dispatcher) : List EventKey :=
  if d.stormOpens env info then d.memberKeys info.id else []

/-- A retry that opens the storm's session files its members. -/
theorem retryStormOpen_files (sig : Signal) (info : StormInfo) (d : Dispatcher) :
    Files env.now info.fingerprint (d.openedKeys env info) d (d.retryStormOpen env sig info).1 := by
  obtain ⟨d', sid, failed, hdedup, htracker, hstorm, hopen⟩ := openSession_eq env info d
  unfold retryStormOpen openedKeys
  rw [hopen]
  by_cases hopens : d.stormOpens env info
  · rw [if_pos hopens, if_pos hopens]
    dsimp only
    rw [stormMembers_onStorm_bind, hstorm]
    have hfiles := rebindStormMembers_files env ((d.storm.map (·.stormMembers info.id)).getD []) sid
      info.fingerprint sig.canonicalKey sig.incidentRef
      (d'.onStorm (·.bindStormSession info.id sid))
    exact (hfiles.after_frame hdedup htracker).then_supersede env _ sid info
  · rw [if_neg hopens, if_neg hopens]
    exact Files.of_frame env.now info.fingerprint (stormOn_of_dedup hdedup) htracker

/-- The keys that the retry for a late arrival files: those of a storm without a session
    that can open one now. -/
def retriedKeys (env : Env) (info : StormInfo) (d : Dispatcher) : List EventKey :=
  if d.mode ≠ .shared ∧ info.sessionID = [] ∧ d.dryRun = false then d.openedKeys env info else []

theorem stormHome_files (sig : Signal) (info : StormInfo) (d : Dispatcher) :
    Files env.now info.fingerprint (d.retriedKeys env info) d (d.stormHome env sig info).1 := by
  unfold stormHome retriedKeys
  by_cases hmode : d.mode = .shared
  · rw [if_pos hmode, if_neg (by simp [hmode])]
    exact Files.of_frame _ _ (fun _ => rfl) rfl
  · rw [if_neg hmode]
    by_cases hretry : info.sessionID = [] ∧ d.dryRun = false
    · rw [if_pos hretry, if_pos ⟨hmode, hretry⟩]
      exact retryStormOpen_files env sig info d
    · rw [if_neg hretry, if_neg fun h => hretry h.2]
      exact Files.of_frame _ _ (fun _ => rfl) rfl

/-- A lost session is taken off its storm, but the members stay filed. -/
theorem clearDeadStormSession_frame (fp deadSid : GoString) (d : Dispatcher) :
    (∀ k, (d.clearDeadStormSession env fp deadSid).1.stormOn k = d.stormOn k) ∧
      (d.clearDeadStormSession env fp deadSid).1.tracker = d.tracker := by
  have hkept (y : Dispatcher) (m : StormMember) (k : EventKey) :
      (y.dedup.unbind env.now m.key).stormOn k = y.dedup.stormOn k :=
    DedupCache.stormOn_update (·.unbind env.now) (fun _ => rfl) k
  have hunbind := Run.foldl_keeps
    (f := fun d m => d.onDedup (·.unbind env.now m.key))
    (g := fun y => (fun k => y.stormOn k, y.tracker))
    fun y m => congrArg (·, y.tracker) (funext (hkept y m))
  unfold clearDeadStormSession
  split
  · exact ⟨fun _ => rfl, rfl⟩
  · split
    · exact ⟨fun _ => rfl, rfl⟩
    · exact ⟨congrFun (congrArg Prod.fst (hunbind _ _)), congrArg Prod.snd (hunbind _ _)⟩

theorem stormSizeUpdate_frame (sid : GoString) (update : StormSizeUpdate) (info : StormInfo)
    (d : Dispatcher) :
    (∀ k, (d.stormSizeUpdate env sid update info).stormOn k = d.stormOn k) ∧
      (d.stormSizeUpdate env sid update info).tracker = d.tracker := by
  unfold stormSizeUpdate
  split
  · exact ⟨fun _ => rfl, rfl⟩
  · split
    · next y hy =>
      cases congrArg Prod.fst hy
      exact clearDeadStormSession_frame env info.fingerprint sid
        (d.append env sid (.stormUpdate update info)).1
    · next y hy =>
      cases congrArg Prod.fst hy
      exact ⟨fun _ => rfl, rfl⟩

end

/-- The storm that a late arrival finds without its session, once the session is gone. -/
def lostStorm (env : Env) (info : StormInfo) (member : StormMember) (sid : GoString)
    (d : Dispatcher) : Option (Dispatcher × StormInfo) :=
  if d.dryRun ∨ sid = [] then none
  else
    match d.append env sid (.stormMember member { info with sessionID := sid }) with
    | (d, .gone) =>
      match d.clearDeadStormSession env info.fingerprint sid with
      | (d, some cleared) => some (d, cleared)
      | (_, none) => none
    | _ => none

/-- Announcing a late arrival files nobody, unless the storm is opened afresh. -/
theorem announceMember_files_of_kept (h : d.lostStorm env info member sid = none) (sig : Signal)
    (fp : GoString) : Files env.now fp [] d (d.announceMember env sig info member sid).1 := by
  unfold lostStorm at h
  unfold announceMember
  split
  · exact Files.of_frame _ _ (fun _ => rfl) rfl
  · next hsent =>
    rw [if_neg hsent] at h
    split
    · next y hy =>
      rw [hy] at h
      dsimp only at h
      have hy' : Files env.now fp [] d y := by
        cases congrArg Prod.fst hy
        exact Files.of_frame _ _ (fun _ => rfl) rfl
      split
      · next z cleared hz =>
        rw [hz] at h
        cases h
      · next z hz =>
        obtain ⟨hstorm, htracker⟩ := clearDeadStormSession_frame env info.fingerprint sid y
        rw [hz] at hstorm htracker
        exact hy'.trans (Files.of_frame _ _ hstorm htracker)
    · next y _ hy =>
      cases congrArg Prod.fst hy
      exact Files.of_frame _ _ (fun _ => rfl) rfl

theorem announceMember_files_of_lost {w : Dispatcher}
    (h : d.lostStorm env info member sid = some (w, cleared)) (sig : Signal) :
    Files env.now cleared.fingerprint (w.openedKeys env cleared) d
      (d.announceMember env sig info member sid).1 := by
  unfold lostStorm at h
  unfold announceMember
  split at h
  · cases h
  · next hsent =>
    rw [if_neg hsent]
    split at h
    · next y hy =>
      rw [hy]
      obtain ⟨hstorm, htracker⟩ := clearDeadStormSession_frame env info.fingerprint sid y
      rcases hz : clearDeadStormSession env info.fingerprint sid y with ⟨z, _ | cleared'⟩
      · simp only [hz] at h
        cases h
      · simp only [hz] at h hstorm htracker ⊢
        cases h
        cases congrArg Prod.fst hy
        have hframe := Files.of_frame env.now cleared.fingerprint (d := d) hstorm htracker
        exact hframe.trans (retryStormOpen_files env sig cleared w)
    · cases h

/-! ## The verdicts -/

/-- The incident of the key is filed under the storm: its entry carries the fingerprint,
    and the tracker, if there is one, tracks it. -/
def FiledUnder (key : EventKey) (fp : GoString) (d : Dispatcher) : Prop :=
  d.stormOn key = some fp ∧ ∀ t ∈ d.tracker, t.incidents.lookup key ≠ none

/-- When a formation files the incident that completed it. A storm without a session
    files the key of the signal, which is made without the message, and tracks nobody. -/
def FormFiles (env : Env) (sig : Signal) (info : StormInfo) (members : List StormMember)
    (d : Dispatcher) : Prop :=
  if d.mode = .perIncident ∧ d.dryRun = false ∧ d.stormOpens env info = false then
    sig.canonicalKey = sig.key.canonical ∧ ∀ t ∈ d.tracker, t.incidents.lookup sig.canonicalKey ≠ none
  else sig.canonicalKey ∈ members.map (·.key.canonical)

/-- The dispatcher that announces a late arrival, and the storm's session as it knows it. -/
def beforeAnnounce (env : Env) (sig : Signal) (info : StormInfo) (member : StormMember)
    (d : Dispatcher) : Dispatcher × GoString :=
  let (d, sid) := d.stormHome env sig info
  ((d.onDedup (·.attachToStorm sig.key sid info.fingerprint sig.incidentRef)).track env
    ⟨sig.key, sid, member.firstSeen, sig.incidentRef⟩, sid)

/-- When an attachment files the late arrival: the key of the signal is made without the
    message, so it is the incident's key or the retried storm has to know the incident.
    A storm that is opened afresh files its own members last. -/
def AttachFiles (env : Env) (sig : Signal) (info : StormInfo) (member : StormMember)
    (d : Dispatcher) : Prop :=
  let filed := sig.canonicalKey ∈ d.retriedKeys env info ∨ sig.canonicalKey = sig.key.canonical
  let (y, sid) := d.beforeAnnounce env sig info member
  match y.lostStorm env info member sid with
  | none => filed
  | some (w, cleared) =>
    if sig.canonicalKey ∈ w.openedKeys env cleared then cleared.fingerprint = info.fingerprint
    else filed

section Verdicts

variable {sig : Signal} {d d' d'' : Dispatcher} {fp' : GoString}

theorem TracksNow.tracked (h : d.TracksNow now key) :
    ∀ t ∈ d.tracker, t.incidents.lookup key ≠ none := fun t ht => (h t ht).lookup_ne_none

/-- A new entry is filed if and only if its key is. -/
theorem Files.filed_iff (h : Files now fp keys d d') (hroom : d.Roomy now keys.length)
    (hnew : d.stormOn key = some []) (hfp : fp ≠ []) : FiledUnder key fp d' ↔ key ∈ keys := by
  have hstorm := h.storm key
  rw [hnew] at hstorm
  constructor
  · rintro ⟨hfiled, -⟩
    by_contra hkey
    rw [if_neg hkey, hfiled] at hstorm
    exact hfp (Option.some.inj hstorm)
  · intro hkey
    rw [if_pos hkey] at hstorm
    exact ⟨hstorm, (h.tracked hroom key (Or.inl hkey)).tracked⟩

/-- What a second filing, under another storm perhaps, makes of the first. -/
theorem Files.filed_again_iff (h : Files now fp keys d d') (h' : Files now fp' keys' d' d'')
    (hroom : d.Roomy now (keys'.length + keys.length)) (hnew : d.stormOn key = some [])
    (hfp : fp ≠ []) : FiledUnder key fp d'' ↔ if key ∈ keys' then fp' = fp else key ∈ keys := by
  have hroom' : d'.Roomy now keys'.length := h.room keys'.length hroom
  have hfirst := h.filed_iff (hroom.mono (Nat.le_add_left _ _)) hnew hfp
  have hstorm := h'.storm key
  by_cases hkey : key ∈ keys'
  · have hentry : (d'.stormOn key).map (fun _ => fp') = some fp' := by
      rw [h.storm, hnew]
      split <;> rfl
    rw [if_pos hkey, hentry] at hstorm
    rw [if_pos hkey]
    constructor
    · rintro ⟨hfiled, -⟩
      exact Option.some.inj (hstorm.symm.trans hfiled)
    · rintro rfl
      exact ⟨hstorm, (h'.tracked hroom' key (Or.inl hkey)).tracked⟩
  · rw [if_neg hkey] at hstorm
    rw [if_neg hkey]
    constructor
    · rintro ⟨hfiled, -⟩
      by_contra hkeys
      rw [hstorm, h.storm, if_neg hkeys, hnew] at hfiled
      exact hfp (Option.some.inj hfiled).symm
    · intro hkeys
      have htracks := h.tracked (hroom.mono (Nat.le_add_left _ _)) key (Or.inl hkeys)
      exact ⟨hstorm.trans (hfirst.2 hkeys).1, (h'.tracked hroom' key (Or.inr htracks)).tracked⟩

theorem filedUnder_of_frame (hstorm : ∀ k, d'.stormOn k = d.stormOn k)
    (htracker : d'.tracker = d.tracker) : FiledUnder key fp d' ↔ FiledUnder key fp d := by
  rw [FiledUnder, FiledUnder, hstorm, htracker]

theorem beforeAnnounce_files (env : Env) (sig : Signal) (info : StormInfo) (member : StormMember)
    (d : Dispatcher) :
    Files env.now info.fingerprint (d.retriedKeys env info ++ [sig.key.canonical]) d
      (d.beforeAnnounce env sig info member).1 :=
  (stormHome_files env sig info d).trans (attach_files env sig.key _ _ _ rfl _)

/-- Every open storm is sound. -/
def SoundStorms (d : Dispatcher) : Prop := ∀ c ∈ d.storm, c.Sound

section

variable (h : d.SoundStorms)

include h

theorem SoundStorms.of_storm (hstorm : d'.storm = d.storm) : d'.SoundStorms := by
  rw [SoundStorms, hstorm]
  exact h

theorem SoundStorms.onStorm (op : StormStep) : (d.onStorm (·.step op)).SoundStorms := by
  intro c hc
  obtain ⟨c₀, hc₀, rfl⟩ := Option.map_eq_some_iff.1 hc
  exact StormCorrelator.sound_step (h c₀ hc₀) op

theorem SoundStorms.memberKeys (id : GoString) : (d.memberKeys id).length ≤ maxStormMembers := by
  unfold Dispatcher.memberKeys
  rw [List.length_map]
  cases hc : d.storm with
  | none => exact Nat.zero_le _
  | some c =>
    rw [Option.map_some, Option.getD_some, StormCorrelator.stormMembers]
    cases hst : c.storms.lookup id with
    | none => exact Nat.zero_le _
    | some st => exact (h c hc id st hst).members

theorem SoundStorms.openedKeys (env : Env) (info : StormInfo) :
    (d.openedKeys env info).length ≤ maxStormMembers := by
  unfold Dispatcher.openedKeys
  split
  · exact h.memberKeys info.id
  · exact Nat.zero_le _

theorem SoundStorms.retriedKeys (env : Env) (info : StormInfo) :
    (d.retriedKeys env info).length ≤ maxStormMembers := by
  unfold Dispatcher.retriedKeys
  split
  · exact h.openedKeys env info
  · exact Nat.zero_le _

theorem SoundStorms.stormHome (env : Env) (sig : Signal) (info : StormInfo) :
    (d.stormHome env sig info).1.SoundStorms := by
  rcases storm_stormHome env sig info d with hstorm | ⟨sid, hstorm⟩
  · exact h.of_storm hstorm
  · exact (h.onStorm (.bindStormSession info.id sid)).of_storm hstorm

theorem SoundStorms.lostStorm (hlost : d.lostStorm env info member sid = some (d', cleared)) :
    d'.SoundStorms := by
  revert hlost
  fun_cases Dispatcher.lostStorm with
  | case2 _ y hy w _ hw =>
    rintro ⟨⟩
    cases congrArg Prod.fst hy
    revert hw
    fun_cases clearDeadStormSession with
    | case3 c hc c' _ hc' =>
      rintro ⟨⟩ c'' hc''
      rw [unbindMembers_storm] at hc''
      cases hc''
      have hstep := StormCorrelator.sound_step (h c hc)
        (.clearStormSession env.storms info.fingerprint sid)
      rwa [StormCorrelator.step, hc'] at hstep
    | _ => nofun
  | _ => nofun

end

/-- An attachment files the late arrival exactly under its condition. -/
theorem stormAttached_filed_iff (hsound : d.SoundStorms)
    (hroom : d.Roomy env.now (2 * maxStormMembers + 1))
    (hnew : d.stormOn sig.canonicalKey = some []) (hfp : info.fingerprint ≠ [])
    (update : Option StormSizeUpdate) :
    FiledUnder sig.canonicalKey info.fingerprint (d.stormAttached env sig info member update) ↔
      AttachFiles env sig info member d := by
  have hfirst := beforeAnnounce_files env sig info member d
  have hkeys := hsound.retriedKeys env info
  have hlen : (d.retriedKeys env info ++ [sig.key.canonical]).length ≤ maxStormMembers + 1 := by
    rw [List.length_append, List.length_singleton]
    omega
  have hmem : sig.canonicalKey ∈ d.retriedKeys env info ++ [sig.key.canonical] ↔
      sig.canonicalKey ∈ d.retriedKeys env info ∨ sig.canonicalKey = sig.key.canonical := by
    rw [List.mem_append, List.mem_singleton]
  have hsoundY : (d.beforeAnnounce env sig info member).1.SoundStorms :=
    hsound.stormHome env sig info
  -- The size report comes last and files nobody.
  have hlast : FiledUnder sig.canonicalKey info.fingerprint
        (d.stormAttached env sig info member update) ↔
      FiledUnder sig.canonicalKey info.fingerprint
        ((d.beforeAnnounce env sig info member).1.announceMember env sig info member
          (d.beforeAnnounce env sig info member).2).1 := by
    unfold stormAttached
    dsimp only
    split
    · split
      · obtain ⟨hstorm, htracker⟩ := stormSizeUpdate_frame env _ _ info _
        exact filedUnder_of_frame hstorm htracker
      · rfl
    · rfl
  rw [hlast]
  unfold AttachFiles
  generalize d.beforeAnnounce env sig info member = before at *
  obtain ⟨y, sid⟩ := before
  dsimp only at *
  cases hlost : y.lostStorm env info member sid with
  | none =>
    have hkept := announceMember_files_of_kept hlost sig info.fingerprint
    have hall := (hfirst.trans hkept).filed_iff (hroom.mono ?_) hnew hfp
    · rw [hall, List.append_nil, hmem]
    · rw [List.append_nil]
      omega
  | some lost =>
    obtain ⟨w, cleared⟩ := lost
    have hagain := announceMember_files_of_lost hlost sig
    have hopened := (hsoundY.lostStorm hlost).openedKeys env cleared
    rw [hfirst.filed_again_iff hagain (hroom.mono (by omega)) hnew hfp, hmem]

/-- A formation with a session files its members. -/
theorem bindStorm_files (env : Env) (sig : Signal) (info : StormInfo) (members : List StormMember)
    (sid : GoString) (d : Dispatcher) :
    Files env.now info.fingerprint (members.map (·.key.canonical)) d
      (let x := d.onStorm (·.bindStormSession info.id sid)
      let x := x.rebindStormMembers env members sid info.fingerprint sig.key sig.incidentRef
      let x := if x.dryRun = false ∧ x.mode = .shared then (x.append env sid (.storm info)).1 else x
      x.supersede env members sid info) := by
  have hfiles := (rebindStormMembers_files env members sid info.fingerprint sig.key
    sig.incidentRef (d.onStorm (·.bindStormSession info.id sid))).after_frame (d := d) rfl rfl
  refine Files.then_supersede ?_ env members sid info
  split
  · exact hfiles.then_frame rfl rfl
  · exact hfiles

/-- A formation files the incident that completed it exactly under its condition. -/
theorem stormFormed_filed_iff {members : List StormMember}
    (hmembers : members.length ≤ maxStormMembers)
    (hroom : d.Roomy env.now (2 * maxStormMembers + 1))
    (hnew : d.stormOn sig.canonicalKey = some []) (hfp : info.fingerprint ≠ []) :
    FiledUnder sig.canonicalKey info.fingerprint (d.stormFormed env sig info members) ↔
      FormFiles env sig info members d := by
  have hopened (x : Dispatcher) (sid : GoString) (hdedup : x.dedup = d.dedup)
      (htracker : x.tracker = d.tracker) := ((bindStorm_files env sig info members sid x).after_frame
        hdedup htracker).filed_iff (hroom.mono (by rw [List.length_map]; omega)) hnew hfp
  unfold stormFormed FormFiles
  by_cases hasks : d.mode = .perIncident ∧ d.dryRun = false
  · obtain ⟨x, sid, failed, hdedup, htracker, -, hopen⟩ := openSession_eq env info d
    simp only [if_pos hasks, hopen]
    cases hok : d.stormOpens env info with
    | true =>
      rw [if_pos rfl, if_neg fun h => Bool.noConfusion h.2.2]
      exact hopened x sid hdedup htracker
    | false =>
      rw [if_neg Bool.false_ne_true, if_pos ⟨hasks.1, hasks.2, rfl⟩]
      dsimp only
      have hstorm := DedupCache.stormOn_attachToStorm sig.key sig.canonicalKey [] info.fingerprint
        sig.incidentRef x.dedup
      rw [show x.dedup.stormOn sig.canonicalKey = some [] from
        (stormOn_of_dedup hdedup sig.canonicalKey).trans hnew] at hstorm
      refine and_congr ?_ (by rw [← htracker]; rfl)
      rw [stormOn, onDedup, hstorm]
      split
      · next hkey => exact ⟨fun _ => hkey, fun _ => rfl⟩
      · next hkey => exact ⟨fun h => absurd (Option.some.inj h).symm hfp, fun h => absurd h hkey⟩
  · have hkept : ¬(d.mode = .perIncident ∧ d.dryRun = false ∧ d.stormOpens env info = false) :=
      fun h => hasks ⟨h.1, h.2.1⟩
    simp only [if_neg hasks]
    rw [if_neg hkept]
    exact hopened d d.targetSid rfl rfl

end Verdicts

end Lookout.Watch.Dispatcher
