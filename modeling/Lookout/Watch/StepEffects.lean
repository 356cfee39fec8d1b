-- SUMMARY: The effects of storm handlers, signals and outcomes, and of every step of the pipeline; the stages keep their invariants in every run.
import Lookout.Engine.RecoveryRuns
import Lookout.Watch.Effects

/-!
# Effects of a step

The second half of the account of what a handler does. The storm handlers file members
under a storm, which is the one way a key other than the signal's own changes its
session while the sink keeps its sessions. A step of the pipeline is a sequence of
permitted effects, so the stages keep their invariants whatever the sink replies.
-/

namespace Lookout.Watch

open Engine

variable {sig : Signal} {c : StormCorrelator} {env : Env}

namespace Dispatcher

variable {d x : Dispatcher} {s : Step}

/-! ## Storm sessions -/

variable {fp : GoString} {info : StormInfo} {y : Dispatcher} {members : List StormMember}

theorem Knows.of_storm (h : x.Knows fp) (hstorm : y.storm = x.storm) : y.Knows fp := by
  unfold Knows
  rwa [hstorm]

theorem Knows.onStorm_bind (h : x.Knows fp) (id sid : GoString) :
    (x.onStorm (·.bindStormSession id sid)).Knows fp := by
  obtain ⟨c, id', st, hc, hst, hfp⟩ := h
  refine ⟨c.bindStormSession id sid, id', if id' = id then { st with sessionID := sid } else st,
    ?_, ?_, ?_⟩
  · rw [onStorm, hc, Option.map_some]
  · rw [StormCorrelator.lookup_bindStormSession, hst, Option.map_some]
  · split <;> exact hfp

theorem stormMembers_onStorm_bind (id sid : GoString) (x : Dispatcher) :
    ((x.onStorm (·.bindStormSession id sid)).storm.map (·.stormMembers id)).getD [] =
      (x.storm.map (·.stormMembers id)).getD [] := by
  rw [onStorm, Option.map_map]
  refine congrArg (Option.getD · []) (Option.map_congr fun c _ => ?_)
  exact StormCorrelator.stormMembers_bindStormSession id id sid c

theorem openSession_storm (env : Env) (key : IncidentKey) (payload : Payload) (x : Dispatcher) :
    (x.openSession env key payload).1.storm = x.storm := by
  rw [openSession_fst]
  rfl

theorem rebindStormMembers_performs (sid : GoString) (triggerKey : EventKey)
    (triggerRef : IncidentRef)
    (hkeys : ∀ m ∈ members, s.env.sink.Lasting → m.key.canonical ∈ d.claims s) (hfp : x.Knows fp) :
    Performs (Does d s) x (x.rebindStormMembers s.env members sid fp triggerKey triggerRef) := by
  induction members generalizing x with
  | nil => exact .refl
  | cons m members ih =>
    have hattach := (Does.claim sid (x.memberRef triggerKey triggerRef m)
      (hkeys m List.mem_cons_self) hfp).performs.trans (track_performs
        ⟨m.key, sid, m.firstSeen, x.memberRef triggerKey triggerRef m⟩)
    exact hattach.trans (ih (fun m' hm' => hkeys m' (List.mem_cons_of_mem m hm')) hfp)

theorem supersede_performs (members : List StormMember) (sid : GoString) (info : StormInfo) :
    Performs (Does d s) x (x.supersede s.env members sid info) := by
  refine performs_foldl fun m _ y _ => ?_
  unfold supersedeMember
  split
  · exact .refl
  · exact append_performs _ _

theorem stormFormed_performs (hown : sig.key.canonical ∈ d.claims s)
    (hkeys : ∀ m ∈ members, m.key.canonical ∈ d.claims s) (hfp : x.Knows info.fingerprint) :
    Performs (Does d s) x (x.stormFormed s.env sig info members) := by
  unfold stormFormed
  generalize hopen : (if x.mode = .perIncident ∧ x.dryRun = false
    then x.openSession s.env (x.stormKey info.ancestor) (.storm info)
    else (x, some (x.targetSid, false))) = opened
  -- The session is opened first, which only adds a call.
  have hopened : Performs (Does d s) x opened.1 ∧ opened.1.storm = x.storm := by
    rw [← hopen]
    split
    · exact ⟨openSession_performs _ _, openSession_storm _ _ _ _⟩
    · exact ⟨.refl, rfl⟩
  obtain ⟨y, _ | ⟨sid, failed⟩⟩ := opened
  · obtain ⟨hperf, hstorm⟩ := hopened
    exact hperf.trans (Does.claim _ _ (fun _ => hown) (hfp.of_storm hstorm)).performs
  · obtain ⟨hperf, hstorm⟩ := hopened
    have hknows : y.Knows info.fingerprint := hfp.of_storm hstorm
    have hbound := hperf.trans (Does.storm (.bindStormSession info.id sid)).performs
    have hrebound := hbound.trans (rebindStormMembers_performs sid sig.key
      sig.incidentRef (fun m hm _ => hkeys m hm) (hknows.onStorm_bind info.id sid))
    dsimp only
    split
    · exact (hrebound.trans (append_performs _ _)).trans (supersede_performs _ _ _)
    · exact hrebound.trans (supersede_performs _ _ _)

theorem retryStormOpen_performs (hkeys : ∀ m ∈ (x.storm.map (·.stormMembers info.id)).getD [],
      s.env.sink.Lasting → m.key.canonical ∈ d.claims s) (hfp : x.Knows info.fingerprint) :
    Performs (Does d s) x (x.retryStormOpen s.env sig info).1 := by
  have hopen := openSession_performs (d := d) (x := x) (s := s) (x.stormKey info.ancestor)
    (.storm info)
  have hstorm := openSession_storm s.env (x.stormKey info.ancestor) (.storm info) x
  unfold retryStormOpen
  split
  · next hy => exact hopen.fst hy
  · next y sid failed hy =>
    rw [hy] at hopen hstorm
    have hknows : y.Knows info.fingerprint := hfp.of_storm hstorm
    have hmembers : ((y.onStorm (·.bindStormSession info.id sid)).storm.map
        (·.stormMembers info.id)).getD [] = (x.storm.map (·.stormMembers info.id)).getD [] := by
      rw [stormMembers_onStorm_bind, show y.storm = x.storm from hstorm]
    have hbound := hopen.trans (Does.storm (.bindStormSession info.id sid)).performs
    have hrebound := hbound.trans (rebindStormMembers_performs sid sig.canonicalKey
      sig.incidentRef (fun m hm => hkeys m (hmembers ▸ hm)) (hknows.onStorm_bind info.id sid))
    exact hrebound.trans (supersede_performs _ _ _)

/-- The snapshot of a cleared storm is of a storm that stays open. -/
theorem clearStormSession_knows {c' : StormCorrelator} {o : Map.Walk GoString} {deadSid : GoString}
    (h : c.clearStormSession o fp deadSid = (c', some info)) :
    ∃ id st, c'.storms.lookup id = some st ∧ st.info = info := by
  rcases StormCorrelator.clearStormSession_cases o fp deadSid c with ⟨hc, -⟩ | ⟨id, st, -, -, hc⟩
  · rw [hc] at h
    cases h
  · rw [hc] at h
    cases h
    exact ⟨id, _, (Map.lookup_insert _ _ _ _).trans (if_pos rfl), rfl⟩

theorem unbindMembers_storm (now : Int) (members : List StormMember) (y : Dispatcher) :
    (members.foldl (fun d m => d.onDedup (·.unbind now m.key)) y).storm = y.storm :=
  Run.foldl_keeps (f := fun d m => d.onDedup (·.unbind now m.key))
    (fun _ _ => rfl) members y

theorem storm_performs (hc : x.storm = some c) (op : StormStep) :
    Performs (Does d s) x { x with storm := some (c.step op) } := by
  have h := (Does.storm (d := d) (s := s) (x := x) op).performs
  rwa [perform, onStorm, hc, Option.map_some] at h

theorem clearDeadStormSession_performs (fp deadSid : GoString) (hlost : ¬s.env.sink.Lasting) :
    Performs (Does d s) x (x.clearDeadStormSession s.env fp deadSid).1 ∧
      ∀ info, (x.clearDeadStormSession s.env fp deadSid).2 = some info →
        (x.clearDeadStormSession s.env fp deadSid).1.Knows info.fingerprint := by
  unfold clearDeadStormSession
  split
  · exact ⟨.refl, nofun⟩
  · next c hc =>
    have hclear : Performs (Does d s) x
        { x with storm := some (c.clearStormSession s.env.storms fp deadSid).1 } :=
      storm_performs hc (.clearStormSession s.env.storms fp deadSid)
    split
    · next c' hc' =>
      rw [hc'] at hclear
      exact ⟨hclear, nofun⟩
    · next c' info hc' =>
      rw [hc'] at hclear
      refine ⟨hclear.trans (performs_foldl fun m _ y _ => (Does.unbind _ hlost).performs), ?_⟩
      rintro _ ⟨rfl⟩
      obtain ⟨id, st, hst, hinfo⟩ := clearStormSession_knows hc'
      exact ⟨c', id, st, unbindMembers_storm _ _ _, hst, congrArg StormInfo.fingerprint hinfo⟩

/-- A session that is gone shows that the sink loses sessions. -/
theorem not_lasting_of_gone {sid : GoString} {payload : Payload}
    (h : x.append env sid payload = (y, .gone)) : ¬env.sink.Lasting :=
  fun hlasting => hlasting _ _ _ (congrArg Prod.snd h)

theorem stormSizeUpdate_performs (sid : GoString) (update : StormSizeUpdate) (info : StormInfo) :
    Performs (Does d s) x (x.stormSizeUpdate s.env sid update info) := by
  have hsent := append_performs (d := d) (x := x) (s := s) sid (.stormUpdate update info)
  unfold stormSizeUpdate
  split
  · exact .refl
  · split
    · next hy =>
      exact (hsent.fst hy).trans (clearDeadStormSession_performs _ _ (not_lasting_of_gone hy)).1
    · next hy => exact hsent.fst hy

theorem announceMember_performs (sig : Signal) (info : StormInfo) (member : StormMember)
    (sid : GoString) : Performs (Does d s) x (x.announceMember s.env sig info member sid).1 := by
  have hsent := append_performs (d := d) (x := x) (s := s) sid
    (.stormMember member { info with sessionID := sid })
  unfold announceMember
  split
  · exact .refl
  · split
    · next y hy =>
      have hlost := not_lasting_of_gone hy
      rw [hy] at hsent
      obtain ⟨hclear, hknows⟩ := clearDeadStormSession_performs
        info.fingerprint sid hlost
      split
      · next z cleared hz =>
        rw [hz] at hclear hknows
        exact (hsent.trans hclear).trans
          (retryStormOpen_performs (fun _ _ hlasting => absurd hlasting hlost) (hknows cleared rfl))
      · next hz => exact hsent.trans (hclear.fst hz)
    · next hy => exact hsent.fst hy

section

variable (env) (members)

theorem rebindStormMembers_storm (sid fp : GoString) (triggerKey : EventKey)
    (triggerRef : IncidentRef) (y : Dispatcher) :
    (y.rebindStormMembers env members sid fp triggerKey triggerRef).storm = y.storm :=
  Run.foldl_keeps (f := rebindStormMember env sid fp triggerKey triggerRef)
    (fun _ _ => rfl) members y

/-- Pointers are only sent. -/
theorem supersede_frame (sid : GoString) (info : StormInfo) (y : Dispatcher) :
    (y.supersede env members sid info).dedup = y.dedup ∧
      (y.supersede env members sid info).tracker = y.tracker ∧
      (y.supersede env members sid info).storm = y.storm := by
  have hall := Run.foldl_keeps (f := supersedeMember env sid info)
    (g := fun y => (y.dedup, y.tracker, y.storm))
    (fun y m => by unfold supersedeMember; split <;> rfl) members y
  exact ⟨congrArg (·.1) hall, congrArg (·.2.1) hall, congrArg (·.2.2) hall⟩

end

/-- Finding the session of a late arrival binds a session to the storm, or does nothing to
    the storms. -/
theorem storm_stormHome (env : Env) (sig : Signal) (info : StormInfo) (x : Dispatcher) :
    (x.stormHome env sig info).1.storm = x.storm ∨ ∃ sid, (x.stormHome env sig info).1.storm =
      (x.onStorm (·.bindStormSession info.id sid)).storm := by
  have hstorm := openSession_storm env (x.stormKey info.ancestor) (.storm info) x
  unfold stormHome
  split
  · exact Or.inl rfl
  · split
    · unfold retryStormOpen
      split
      · next y hy =>
        rw [hy] at hstorm
        exact Or.inl hstorm
      · next y sid failed hy =>
        rw [hy] at hstorm
        refine Or.inr ⟨sid, ?_⟩
        rw [(supersede_frame _ _ _ _ _).2.2, rebindStormMembers_storm]
        exact congrArg (Option.map _) hstorm
    · exact Or.inl rfl

theorem Knows.stormHome (h : x.Knows fp) (env : Env) (sig : Signal) (info : StormInfo) :
    (x.stormHome env sig info).1.Knows fp := by
  rcases storm_stormHome env sig info x with hstorm | ⟨sid, hstorm⟩
  · exact h.of_storm hstorm
  · exact (h.onStorm_bind info.id sid).of_storm hstorm

theorem stormAttached_performs (member : StormMember) (update : Option StormSizeUpdate)
    (hown : sig.key.canonical ∈ d.claims s)
    (hkeys : info.sessionID = [] → ∀ m ∈ (x.storm.map (·.stormMembers info.id)).getD [],
      m.key.canonical ∈ d.claims s) (hfp : x.Knows info.fingerprint) :
    Performs (Does d s) x (x.stormAttached s.env sig info member update) := by
  have hhome : Performs (Does d s) x (x.stormHome s.env sig info).1 := by
    unfold stormHome
    split
    · exact .refl
    · split
      · next hnone => exact retryStormOpen_performs (fun m hm _ => hkeys hnone.1 m hm) hfp
      · exact .refl
  have hattach := hhome.trans ((Does.claim (x.stormHome s.env sig info).2
    sig.incidentRef (fun _ => hown) (hfp.stormHome s.env sig info)).performs.trans
    (track_performs ⟨sig.key, (x.stormHome s.env sig info).2, member.firstSeen, sig.incidentRef⟩))
  have hannounced := hattach.trans (announceMember_performs sig info member
    (x.stormHome s.env sig info).2)
  unfold stormAttached
  dsimp only
  split
  · split
    · exact hannounced.trans (stormSizeUpdate_performs _ _ _)
    · exact hannounced
  · exact hannounced

theorem adoptBinding_frame (sig : Signal) (info : StormInfo) (y : Dispatcher) :
    (y.adoptBinding sig info).id = info.id ∧
      (y.adoptBinding sig info).fingerprint = info.fingerprint ∧
      ((y.adoptBinding sig info).sessionID = [] → info.sessionID = []) := by
  unfold adoptBinding
  split
  · next hnil => exact ⟨rfl, rfl, fun _ => hnil⟩
  · exact ⟨rfl, rfl, id⟩

section Signals

variable {a : Arrival}

/-- The storm stage claims only the keys that the verdict calls for. -/
theorem correlateStormSignal_performs (hstorm : x.storm = d.storm)
    (hsetup : x.toSetup = d.toSetup) :
    Performs (Does d (.signal env a)) x (x.correlateStormSignal env a.sig).1 := by
  cases hc : x.storm with
  | none =>
    unfold correlateStormSignal
    rw [hc]
    exact .refl
  | some c =>
    have htopo : x.topology env a.sig = d.topology env a.sig := by
      unfold topology
      rw [hsetup]
    have hverdict : d.verdict env a.sig =
        some (c.observe env.now env.fleet (x.topology env a.sig) a.sig) := by
      rw [verdict, ← hstorm, hc, Option.map_some, htopo]
    have hobserve : Performs (Does d (.signal env a)) x
        { x with storm := some (c.observe env.now env.fleet (x.topology env a.sig) a.sig).1 } :=
      storm_performs hc (.observe env.now env.fleet (x.topology env a.sig) a.sig)
    unfold correlateStormSignal
    rw [hc]
    dsimp only
    split
    · next c' info members member hv =>
      rw [hv] at hobserve hverdict
      obtain ⟨st, hst, hinfo, -, -⟩ := StormCorrelator.observe_formed hv
      have hclaims : d.claims (.signal env a) =
          a.sig.key.canonical :: members.map (·.key.canonical) := by
        rw [claims, hverdict]
      refine hobserve.trans (stormFormed_performs ?_ (fun m hm => ?_) ?_)
      · rw [hclaims]
        exact List.mem_cons_self
      · rw [hclaims]
        exact List.mem_cons_of_mem _ (List.mem_map_of_mem hm)
      · exact ⟨c', info.id, st, rfl, hst, congrArg StormInfo.fingerprint hinfo⟩
    · next c' info member update hv =>
      rw [hv] at hobserve hverdict
      obtain ⟨st, hst, hinfo⟩ := StormCorrelator.observe_attached hv
      obtain ⟨hid, hfp, hsession⟩ := adoptBinding_frame a.sig info { x with storm := some c' }
      have hclaims : d.claims (.signal env a) = a.sig.key.canonical ::
          if info.sessionID = [] then (c'.stormMembers info.id).map (·.key.canonical) else [] := by
        rw [claims, hverdict]
      refine hobserve.trans (stormAttached_performs member update ?_
        (fun hnone m hm => ?_) ?_)
      · rw [hclaims]
        exact List.mem_cons_self
      · rw [hid] at hm
        rw [hclaims, if_pos (hsession hnone)]
        exact List.mem_cons_of_mem _ (List.mem_map_of_mem hm)
      · rw [hfp]
        exact ⟨c', info.id, st, rfl, hst, congrArg StormInfo.fingerprint hinfo⟩
    · next c' hv =>
      rw [hv] at hobserve
      exact hobserve

variable {key : EventKey}

theorem reopen_performs (result : DedupResult) (hlost : ¬s.env.sink.Lasting) :
    Performs (Does d s) x (x.reopen s.env sig key result) := by
  have hunbound := (Does.unbind (d := d) (x := x) key hlost).performs
  unfold reopen
  dsimp only
  split
  · split
    · exact hunbound.trans (retryIncidentOpen_performs sig result.count)
    · exact hunbound
  · obtain ⟨hclear, hknows⟩ := clearDeadStormSession_performs
      (x := x.onDedup (·.unbind s.env.now key)) result.storm result.sessionID hlost
    split
    · next hy => exact hunbound.trans (hclear.fst hy)
    · next y info hy =>
      rw [hy] at hclear hknows
      split
      · exact (hunbound.trans hclear).trans
          (retryStormOpen_performs (fun _ _ hlasting => absurd hlasting hlost) (hknows info rfl))
      · exact hunbound.trans hclear

theorem injectRepeat_performs (sig : Signal) (key : EventKey) (result : DedupResult) :
    Performs (Does d s) x (x.injectRepeat s.env sig key result) := by
  unfold injectRepeat
  dsimp only
  split
  · exact .refl
  · have hsent := append_performs (d := d) (x := x) (s := s) result.sessionID
      (if result.change = .open then Payload.incident sig result.count
        else .followup sig result.count result.repeatCount)
    split
    · next hy => exact hsent.fst hy
    · next y hy =>
      have hlost := not_lasting_of_gone hy
      rw [hy] at hsent
      exact hsent.trans (reopen_performs result hlost)
    · next hy => exact (hsent.fst hy).trans (note_performs (.undelivered key result.change))

theorem injectTriageRegressed_performs (a : Arrival) (result : DedupResult) :
    Performs (Does d s) x (x.injectTriageRegressed s.env a result) := by
  unfold injectTriageRegressed
  split
  · exact .refl
  · split
    · exact .refl
    · exact append_performs _ _

theorem handleDuplicateSignal_performs (a : Arrival) (key : EventKey) (result : DedupResult) :
    Performs (Does d s) x (x.handleDuplicateSignal s.env a key result) := by
  unfold handleDuplicateSignal
  split
  · exact .refl
  · have hreport := injectTriageRegressed_performs (d := d) (x := x) (s := s) a result
    generalize x.injectTriageRegressed s.env a result = y at hreport ⊢
    dsimp only
    generalize hjoined : (if y.mode = .perIncident ∧ result.sessionID ≠ [] ∧ result.storm = []
      then y.dedup.crossSourceJoin key a.sig.kind else (y.dedup, none)) = joined
    -- The join stamps the entry, and nothing changes without one.
    have hjoin : Performs (Does d s) y { y with dedup := joined.1 } := by
      rw [← hjoined]
      split
      · exact note_performs (.joined key a.sig.kind)
      · exact .refl
    split
    · split
      · exact hreport.trans hjoin
      · exact (hreport.trans hjoin).trans (append_performs _ _)
    · split
      · exact (hreport.trans hjoin).trans (retryIncidentOpen_performs _ _)
      · exact hreport.trans hjoin

theorem routeIncident_performs (count : Nat) (h : d.Opens key s) :
    Performs (Does d s) x (x.routeIncident s.env sig key count) := by
  unfold routeIncident
  split
  · exact boardAdd_performs _
  · split
    · exact dispatchPerIncidentOpen_performs sig count h
    · exact dispatchSharedOrDryRun_performs sig count

theorem routeNew_performs (count : Nat) (h : d.Opens a.sig.canonicalKey (.signal env a))
    (hstorm : x.storm = d.storm) (hsetup : x.toSetup = d.toSetup) :
    Performs (Does d (.signal env a)) x (x.routeNew env a.sig a.sig.canonicalKey count) := by
  have hkind := note_performs (d := d) (x := x) (s := .signal env a)
    (.kind a.sig.canonicalKey a.sig.kind)
  unfold routeNew
  dsimp only
  split
  · exact hkind
  · have hstorms := hkind.trans (correlateStormSignal_performs
      hstorm hsetup)
    split
    · next hy => exact hstorms.fst hy
    · next hy => exact (hstorms.fst hy).trans (routeIncident_performs count h)

/-- A new incident is no activity of a storm member. -/
theorem noteActivity_new (hnew : (d.observe env a).2.kind = .newIncident) :
    ({ d with dedup := (d.observe env a).1 }).noteActivity env a.sig a.sig.canonicalKey
      (d.observe env a).2 = { d with dedup := (d.observe env a).1 } := by
  have hresult := (DedupCache.observeSignal_observed env.now d.isOpen env.loops
    a.sig.canonicalKey (d.observation a) d.dedup).of_new hnew |>.2
  rw [noteActivity, if_neg]
  rintro ⟨hstorm, -⟩
  exact hstorm (congrArg DedupResult.storm hresult)

theorem dispatchSignal_performs (env : Env) (a : Arrival) (d : Dispatcher) :
    Performs (Does d (.signal env a)) d (d.dispatchSignal env a) := by
  unfold dispatchSignal
  split
  · exact .refl
  · next hfilter =>
    have haccepted : a.accepted = true := Bool.eq_true_of_not_eq_false hfilter
    have hobserve : Performs (Does d (.signal env a)) d { d with dedup := (d.observe env a).1 } :=
      (Does.observe rfl haccepted rfl).performs
    have hact (result : DedupResult) : Performs (Does d (.signal env a))
        { d with dedup := (d.observe env a).1 }
        (({ d with dedup := (d.observe env a).1 }).noteActivity env a.sig a.sig.canonicalKey
          result) := by
      unfold noteActivity
      split
      · exact (Does.storm (.noteMemberActivity env.now a.sig.canonicalKey a.sig.lastSeen)).performs
      · exact .refl
    dsimp only
    split
    · exact (hobserve.trans (hact _)).trans (injectRepeat_performs _ _ _)
    · exact (hobserve.trans (hact _)).trans
        (handleDuplicateSignal_performs _ _ _)
    · next hkind =>
      rw [noteActivity_new hkind]
      exact hobserve.trans (routeNew_performs _ ⟨haccepted, rfl, hkind⟩ rfl rfl)

end Signals

/-! ## Outcomes and steps -/

variable (out : Outcome)

theorem deferSiblingResolved_performs :
    Performs (Does d s) x (x.deferSiblingResolved s.env out).1 := by
  unfold deferSiblingResolved
  split
  · exact .refl
  · split
    · exact .refl
    · next rootKey group _ =>
      have hmark := note_performs (d := d) (x := x) (s := s) (.resolved out.inc.key)
      dsimp only
      split
      · exact hmark
      · exact hmark.trans (note_performs (.resolved rootKey))

theorem stormResolved_performs (recovery : Recovery) (info : StormInfo) :
    Performs (Does d s) x (x.stormResolved s.env recovery info) := by
  unfold stormResolved
  dsimp only
  generalize (if x.mode = .shared then x.targetSid else info.sessionID) = sid
  split
  · exact .refl
  · exact append_performs _ _

theorem settleStorm_performs : Performs (Does d s) x (x.settleStorm s.env out) := by
  unfold settleStorm
  split
  · exact .refl
  · next c hc =>
    split
    · have hcleared : Performs (Does d s) x { x with storm := some (c.memberResolved out.inc.key).1 } :=
        storm_performs hc (.memberResolved out.inc.key)
      split
      · next c' info hres =>
        rw [hres] at hcleared
        exact hcleared.trans (stormResolved_performs _ _)
      · next c' _ hres =>
        rw [hres] at hcleared
        exact hcleared
    · exact storm_performs hc (.memberReverted s.env.now out.inc.key)

theorem commitResolved_performs : Performs (Does d s) x (x.commitResolved s.env out) := by
  unfold commitResolved
  split
  · exact (note_performs (.resolved out.inc.key)).trans (settleStorm_performs out)
  · exact settleStorm_performs out

theorem deliverOutcome_performs (sid : GoString) :
    Performs (Does d s) x (x.deliverOutcome s.env out sid) := by
  have hsent := append_performs (d := d) (x := x) (s := s) sid (.outcome out)
  unfold deliverOutcome
  split
  · exact commitResolved_performs out
  · split
    · next hy => exact (hsent.fst hy).trans (commitResolved_performs out)
    · next y hy =>
      have hlost := not_lasting_of_gone hy
      rw [hy] at hsent
      exact (hsent.trans (Does.unbind _ hlost).performs).trans (commitResolved_performs out)
    · next y hy =>
      rw [hy] at hsent
      split
      · exact hsent.trans (Does.requeue out.inc.key).performs
      · exact hsent

theorem dispatchResolved_performs : Performs (Does d s) x (x.dispatchResolved s.env out) := by
  unfold dispatchResolved
  split
  · exact commitResolved_performs out
  · have hdefer := deferSiblingResolved_performs (d := d) (x := x) (s := s) out
    split
    · next hy => exact hdefer.fst hy
    · next hy => exact (hdefer.fst hy).trans (deliverOutcome_performs out _)

/-- A step of the pipeline is a sequence of permitted effects. -/
theorem step_performs (d : Dispatcher) (s : Step) : Performs (Does d s) d (d.step s) := by
  cases s with
  | signal env a => exact dispatchSignal_performs env a d
  | tick env observers =>
    change Performs _ d (d.tick env observers)
    unfold tick
    split
    · exact .refl
    · next t ht =>
      have hjudge := (Does.judge (d := d) (s := .tick env observers) (x := d) observers).performs
      have hqueue := hjudge.trans (Does.outbox (d.outbox ++
        (t.tick env.tracked observers env.now).2)).performs
      rwa [perform, perform, ht, Option.map_some] at hqueue
  | outcome env =>
    change Performs _ d (d.dispatchOutcome env)
    unfold dispatchOutcome
    split
    · exact .refl
    · next out rest _ =>
      exact (Does.outbox rest).performs.trans (dispatchResolved_performs out)
  | boardTick env => exact boardTick_performs
  | boardFlush env => exact flush_performs
  | resume env =>
    have hbind : Performs (Does d (.resume env)) d
        { d with dedup := (d.dedup.bindings env.now env.loops).1 } :=
      (Does.bindings rfl rfl).performs
    exact hbind.trans (performs_foldl fun b _ y _ => track_performs _)

end Dispatcher

end Lookout.Watch

namespace Lookout.Watch.Dispatcher

open Engine

/-! ## Stages in the pipeline -/

/-- What every effect keeps holds in every state of every run. -/
theorem always_of_perform {I : Dispatcher → Prop} (hkeep : ∀ x e, I x → I (x.perform e))
    {d : Dispatcher} (h : I d) (steps : List Step) : Run.Always Dispatcher.step I d steps := by
  refine Run.Steps.always (fun x s hx (_ : True) => ?_) h (.of_forall fun _ _ => trivial)
  exact (step_performs x s).invariant hx fun y e hy _ => hkeep y e hy

/-- From a fresh correlator: an open storm has a fingerprint, room for its members,
    balanced counters and someone unresolved, and the index leads to open storms. -/
theorem storms_sound_and_indexed (d : Dispatcher) (c : StormCorrelator) (steps : List Step) :
    Run.Always Dispatcher.step (fun x => ∀ c ∈ x.storm, c.Sound ∧ c.Indexed)
      { d with storm := some { c with pending := [], storms := ∅, byKey := ∅ } } steps := by
  refine always_of_perform (fun x e hx => ?_) ?_ steps
  · cases e with
    | storm op =>
      refine Option.forall_mem_map.2 fun c hc => ?_
      obtain ⟨hsound, hindexed⟩ := hx c hc
      exact ⟨StormCorrelator.sound_step hsound op, (StormCorrelator.step_effect hindexed op).2⟩
    | _ => exact hx
  · rintro _ ⟨⟩
    exact ⟨nofun, StormCorrelator.Fresh.indexed ⟨rfl, rfl, rfl⟩⟩

/-- From an empty tracker: an incident is tracked under its own canonical key, its clear streak is not
    older than it, and only an observer takes it out of the symptomatic state. -/
theorem tracked_incidents_sound (d : Dispatcher) (t : RecoveryTracker) (steps : List Step) :
    Run.Always Dispatcher.step (fun x => ∀ t ∈ x.tracker, t.AllSound)
      { d with tracker := some { t with incidents := ∅ } } steps := by
  refine always_of_perform (fun x e hx => ?_) ?_ steps
  · have hkeep (s : RecoveryTracker.TrackerStep) : ∀ t ∈ x.tracker.map (·.step s), t.AllSound :=
      Option.forall_mem_map.2 fun t ht => RecoveryTracker.sound_step (hx t ht)
    cases e with
    | track o now inc => exact hkeep (.track o now inc)
    | requeue key => exact hkeep (.requeue key)
    | judge o observers now => exact hkeep (.tick o observers now)
    | _ => exact hx
  · rintro _ ⟨⟩ k ti hti
    cases hti

end Lookout.Watch.Dispatcher
