-- SUMMARY: The home of a reverted incident: how long the session of a taken-back resolution stays bound.
import Lookout.Watch.Outcomes
import Lookout.Watch.StepEffects

/-!
# Homes of reverted incidents

A resolution that does not stick is taken back in the session it was reported to, and
the next outcome of the incident should go there too. The binding is in the dedup
cache, whose sweeps retire resolved entries by age, and taking a resolution back does
not clear the mark. This module says what keeps the binding, and shows a run that
loses it.
-/

namespace Lookout.Engine.DedupCache

variable {k : EventKey} {sid : GoString}

/-! ## What an observation keeps -/

/-- The observation sweeps the cache: a sweep is due, or a new incident finds it full. -/
def Sweeps (now : Int) (isOpen : EventKey → Bool) (o : Loops) (key : EventKey) (obs : Observation)
    (c : DedupCache) : Prop :=
  ¬(c.lastSweep ≠ 0 ∧ since now c.lastSweep < c.window) ∨
    ((c.observeSignal now isOpen o key obs).2.kind = .newIncident ∧
      c.max ≤ (c.beforeOpen now isOpen o key.canonical).entries.keys.card)

instance (now : Int) (isOpen : EventKey → Bool) (o : Loops) (key : EventKey) (obs : Observation)
    (c : DedupCache) : Decidable (c.Sweeps now isOpen o key obs) :=
  inferInstanceAs (Decidable (_ ∨ _))

/-- A sweep at the time has no reason to remove the key: it is not idle, or it is not
    marked as resolved and still needed, by a replay or by the tracker. -/
def Spared (now : Int) (isOpen : EventKey → Bool) (k : EventKey) (c : DedupCache) : Prop :=
  ∀ e ∈ c.entries.lookup k, since now e.lastSeen ≤ c.window ∨
    (e.resolved = false ∧ (since now e.lastSeen ≤ c.replayTTL ∨
      (e.sessionClass = true ∧ e.sessionID ≠ [] ∧ e.incident ≠ none ∧ isOpen k = true)))

instance (now : Int) (isOpen : EventKey → Bool) (k : EventKey) (c : DedupCache) :
    Decidable (c.Spared now isOpen k) :=
  inferInstanceAs (Decidable (∀ e ∈ c.entries.lookup k, _ ∨ _ ∧ _))

variable {c c' : DedupCache} {e : DedupEntry} {key : EventKey} {now : Int} {o : Loops}
  {obs : Observation} {isOpen : EventKey → Bool}

/-- A sweep leaves an entry alone that it has no reason to remove. -/
theorem Swept.lookup_of_spared (h : Swept now isOpen c c') (hspared : c.Spared now isOpen k)
    (he : c.entries.lookup k = some e) : c'.entries.lookup k = some e := by
  rcases h.entry k with hkept | hgone
  · exact hkept.trans he
  · obtain ⟨hidle, hreason⟩ := h.removed he hgone
    rcases hspared e he with hawake | ⟨hunmarked, hneeded⟩
    · exact absurd hawake (not_le.2 hidle)
    · rcases hreason with hmarked | ⟨hold, hfree⟩
      · exact absurd hmarked (by rw [hunmarked]; decide)
      · rcases hneeded with hyoung | hkept
        · exact absurd hyoung (not_le.2 hold)
        · exact absurd hkept hfree

theorem evictIfFull_of_room (h : c.entries.keys.card < c.max) :
    c.evictIfFull now isOpen o = c := if_pos h

theorem evictIfFull_swept (h : c.EvictsNothing now isOpen o) :
    Swept now isOpen c (c.evictIfFull now isOpen o) := by
  unfold evictIfFull
  split
  · exact Swept.refl now isOpen c
  · next hfull =>
    rw [if_pos (lt_of_lt_of_eq (h.resolve_left hfull).2 (sweepExpired_swept now isOpen o c).max.symm)]
    exact sweepExpired_swept now isOpen o c

theorem lookup_insert_ne_none {m : Map EventKey DedupEntry} {k' : EventKey} (h : m.lookup k ≠ none) :
    (m.insert k' e).lookup k ≠ none := by
  rw [Map.lookup_insert]
  split
  · exact Option.some_ne_none e
  · exact h

/-- What an observation leaves of an entry that its own sweeps leave alone: the entry is
    there, and its bindings are as before. -/
theorem Observed.present {result : DedupResult} (h : Observed now isOpen o key obs c c' result)
    (he : c.entries.lookup k = some e) (hnew : k = key → result.kind ≠ .newIncident)
    (hevict : result.kind = .newIncident → ∀ tombstones, tombstones =
        (if c.entries.lookup key = none then c.tombstones.erase key else c.tombstones) →
      (({ c with tombstones := tombstones } : DedupCache).evictIfFull now isOpen o).entries.lookup
        k = some e) : ∃ e', c'.entries.lookup k = some e' ∧ e'.core = e.core := by
  have hsome : c.entries.lookup k ≠ none := by
    rw [he]
    exact Option.some_ne_none e
  have hthere : c'.entries.lookup k ≠ none := by
    cases h with
    | buried => exact hsome
    | @opened tombstones htombstones =>
      refine lookup_insert_ne_none ?_
      rw [hevict rfl tombstones htombstones]
      exact Option.some_ne_none e
    | replayed | repeated | noted => exact lookup_insert_ne_none hsome
    | rootRepeated | rootNoted => exact lookup_insert_ne_none (lookup_insert_ne_none hsome)
  obtain ⟨e', he'⟩ := Option.ne_none_iff_exists'.1 hthere
  rcases h.became he' with ⟨hk, hkind, -⟩ | ⟨e₀, he₀, hbecame⟩
  · exact absurd hkind (hnew hk)
  · cases he.symm.trans he₀
    exact ⟨e', he', hbecame.core⟩

/-- An observation without capacity evictions keeps the bindings of an entry that its
    sweeps do not find idle. -/
theorem observeSignal_keeps (he : c.entries.lookup k = some e)
    (hroom : (c.observeSignal now isOpen o key obs).2.kind = .newIncident →
      (c.beforeOpen now isOpen o key.canonical).EvictsNothing now isOpen o)
    (hspared : c.Sweeps now isOpen o key obs → c.Spared now isOpen k)
    (hnew : k = key.canonical → (c.observeSignal now isOpen o key obs).2.kind ≠ .newIncident) :
    ∃ e', (c.observeSignal now isOpen o key obs).1.entries.lookup k = some e' ∧
      e'.core = e.core := by
  have hswept : (c.maybeSweep now isOpen o).entries.lookup k = some e := by
    unfold maybeSweep
    split
    · exact he
    · next hdue =>
      exact (sweepExpired_swept now isOpen o c).lookup_of_spared (hspared (Or.inl hdue)) he
  have hfirst := maybeSweep_swept now isOpen o c
  refine (observeSignal_observed now isOpen o key obs c).present hswept hnew ?_
  rintro hkind tombstones rfl
  change ((c.beforeOpen now isOpen o key.canonical).evictIfFull now isOpen o).entries.lookup k = _
  by_cases hfull : (c.beforeOpen now isOpen o key.canonical).entries.keys.card < c.max
  · rw [evictIfFull_of_room (hfull.trans_eq hfirst.max.symm)]
    exact hswept
  · -- The first sweep changes neither the entry nor the window.
    have hspared' : (c.beforeOpen now isOpen o key.canonical).Spared now isOpen k := by
      intro e' he'
      cases hswept.symm.trans he'
      have := hspared (Or.inr ⟨hkind, not_lt.1 hfull⟩) e he
      rwa [← hfirst.window, ← hfirst.replayTTL] at this
    exact (evictIfFull_swept (hroom hkind)).lookup_of_spared hspared' hswept

/-! ## Bindings -/

/-- The binding of a key is the session of its entry. -/
theorem lookupSession_of_present (hnone : c.entries.lookup k.canonical ≠ none)
    (h : ∀ e, c.entries.lookup k.canonical = some e →
      ∃ e', c'.entries.lookup k.canonical = some e' ∧ e'.sessionID = e.sessionID) :
    c'.lookupSession k = c.lookupSession k := by
  obtain ⟨e, he⟩ := Option.ne_none_iff_exists'.1 hnone
  obtain ⟨e', he', hsid⟩ := h e he
  rw [lookupSession, lookupSession, he, he', Option.bind_some, Option.bind_some, hsid]

theorem lookup_ne_none_of_bound (h : c.lookupSession k = some sid) :
    c.entries.lookup k.canonical ≠ none := by
  obtain ⟨e, he, -⟩ := lookupSession_eq_some.1 h
  rw [he]
  exact Option.some_ne_none e

theorem lookupSession_update_of_ne (f : DedupEntry → DedupEntry) (h : k.canonical ≠ key) :
    (c.update key f).lookupSession k = c.lookupSession k := by
  rw [lookupSession, lookupSession, lookup_update, if_neg h]

theorem Marked.sessionID_fold {o : Map.Walk EventKey} {self : EventKey} {kind : GoString}
    {candidates : List GoString} {e' : DedupEntry}
    (h : Marked c (.sessionForSibling now o self kind candidates) k e e') :
    e'.sessionID = e.sessionID := by
  cases h <;> rfl

/-- A fold leaves every binding alone. -/
theorem lookupSession_sessionForSibling (now : Int) (o : Map.Walk EventKey) (self : EventKey)
    (kind : GoString) (candidates : List GoString) (c : DedupCache) (k : EventKey) :
    (c.sessionForSibling now o self kind candidates).1.lookupSession k = c.lookupSession k := by
  have hby := sessionForSibling_markedBy now o self kind candidates c
  cases he : c.entries.lookup k.canonical with
  | none => rw [lookupSession, lookupSession, he, hby.absent he]
  | some e =>
    refine lookupSession_of_present (by rw [he]; exact Option.some_ne_none e) fun e₀ he₀ => ?_
    obtain ⟨e', he', hmark⟩ := hby.present he₀
    exact ⟨e', he', hmark.sessionID_fold⟩

end Lookout.Engine.DedupCache

namespace Lookout.Watch

open Engine

namespace Dispatcher

/-! ## What a step does to a bound key -/

/-- The step has room for the incident that it opens. -/
def InRoom (d : Dispatcher) : Step → Prop
  | .signal env a => a.accepted = true → (d.observe env a).2.kind = .newIncident →
      (d.dedup.beforeOpen env.now d.isOpen env.loops a.sig.canonicalKey.canonical).EvictsNothing
        env.now d.isOpen env.loops
  | _ => True

/-- Nobody opens an incident for the key: no signal of its own is taken for a new
    incident, and no storm takes its session over. -/
def LeftAlone (k : EventKey) (d : Dispatcher) (s : Step) : Prop :=
  ¬d.Opens k.canonical s ∧ k.canonical ∉ d.claims s

/-- The sweeps of the step have no reason to remove the key. -/
def SparedBy (k : EventKey) (d : Dispatcher) : Step → Prop
  | .signal env a => a.accepted = true →
      d.dedup.Sweeps env.now d.isOpen env.loops a.sig.canonicalKey (d.observation a) →
        d.dedup.Spared env.now d.isOpen k.canonical
  | .resume env => d.dedup.Spared env.now d.isOpen k.canonical
  | _ => True

instance (d : Dispatcher) (key : EventKey) : (s : Step) → Decidable (d.Opens key s)
  | .signal .. => inferInstanceAs (Decidable (_ = true ∧ _ = key ∧ _ = _))
  | .tick .. | .outcome .. | .boardTick .. | .boardFlush .. | .resume .. => isFalse id

instance (d : Dispatcher) : (s : Step) → Decidable (d.InRoom s)
  | .signal .. => inferInstanceAs (Decidable (_ = true → _ = _ → DedupCache.EvictsNothing ..))
  | .tick .. | .outcome .. | .boardTick .. | .boardFlush .. | .resume .. => isTrue trivial

instance (k : EventKey) (d : Dispatcher) (s : Step) : Decidable (d.LeftAlone k s) :=
  inferInstanceAs (Decidable (¬d.Opens k.canonical s ∧ k.canonical ∉ d.claims s))

instance (k : EventKey) (d : Dispatcher) : (s : Step) → Decidable (d.SparedBy k s)
  | .signal .. => inferInstanceAs (Decidable (_ = true → DedupCache.Sweeps .. → DedupCache.Spared ..))
  | .resume .. => inferInstanceAs (Decidable (DedupCache.Spared ..))
  | .tick .. | .outcome .. | .boardTick .. | .boardFlush .. => isTrue trivial

/-- The key is bound to the session, and outcomes are routed by the bindings. -/
structure Home (k : EventKey) (sid : GoString) (d : Dispatcher) : Prop where
  mode : d.mode = .perIncident
  bound : d.dedup.lookupSession k = some sid

section Home

variable {d x : Dispatcher} {s : Step}

theorem Does.bound {e : Effect} (h : Does d s x e) (hlast : s.env.sink.Lasting)
    (halone : d.LeftAlone k s) (hroom : d.InRoom s) (hspared : d.SparedBy k s)
    (hbound : x.dedup.lookupSession k = some sid) :
    (x.perform e).dedup.lookupSession k = some sid := by
  have hthere := DedupCache.lookup_ne_none_of_bound hbound
  cases h with
  | @observe env a hs ha hx =>
    subst hs hx
    refine (DedupCache.lookupSession_of_present hthere fun e he => ?_).trans hbound
    obtain ⟨e', he', hcore⟩ := DedupCache.observeSignal_keeps he (hroom ha) (hspared ha)
      fun hk hnew => halone.1 ⟨ha, (hk.trans a.sig.canonical_canonicalKey).symm, hnew⟩
    exact ⟨e', he', DedupEntry.sessionID_of_core hcore⟩
  | bindings hs hx =>
    subst hs hx
    refine (DedupCache.lookupSession_of_present hthere fun e he => ?_).trans hbound
    exact ⟨e, (DedupCache.bindings_swept _ x.isOpen _ x.dedup).lookup_of_spared hspared he, rfl⟩
  | mark hnote => exact (hnote.lookupSession x.dedup k).trans hbound
  | fold _ => exact (DedupCache.lookupSession_sessionForSibling _ _ _ _ _ x.dedup k).trans hbound
  | bind key sid' ref hfree =>
    have hne : k.canonical ≠ key.canonical := by
      intro hk
      rcases hfree with hnone | hopens
      · rw [DedupCache.lookupSession, ← hk] at hnone
        rw [DedupCache.lookupSession, hnone] at hbound
        cases hbound
      · cases s with
        | signal env a =>
          obtain ⟨ha, rfl, hnew⟩ := hopens
          refine halone.1 ⟨ha, ?_, hnew⟩
          rw [hk, Signal.canonical_canonicalKey]
        | _ => exact hopens
    exact (DedupCache.lookupSession_update_of_ne _ hne).trans hbound
  | @claim key _ _ _ hkey _ =>
    have hne : k.canonical ≠ key.canonical := fun hk => halone.2 (hk ▸ hkey hlast)
    exact (DedupCache.lookupSession_update_of_ne _ hne).trans hbound
  | unbind _ hlost => exact absurd hlast hlost
  | _ => exact hbound

/-- One step keeps the home. -/
theorem Home.step (h : Home k sid d) (hlast : s.env.sink.Lasting) (halone : d.LeftAlone k s)
    (hroom : d.InRoom s) (hspared : d.SparedBy k s) : Home k sid (d.step s) := by
  have hperforms := step_performs d s
  refine ⟨(congrArg Setup.mode hperforms.setup).trans h.mode, ?_⟩
  exact hperforms.invariant (I := fun x => x.dedup.lookupSession k = some sid) h.bound
    fun x e hx hdoes => hdoes.bound hlast halone hroom hspared hx

end Home

/-! ## Reverted outcomes -/

/-- The outcome is the next to be dispatched, and the dispatch delivers it into the
    session. -/
def Delivers (env : Env) (out : Outcome) (sid : GoString) (d : Dispatcher) : Prop :=
  d.outbox.head? = some out ∧
    .append sid (.outcome out) .delivered ∈ (d.dispatchOutcome env).sent.drop d.sent.length

instance (env : Env) (out : Outcome) (sid : GoString) (d : Dispatcher) :
    Decidable (d.Delivers env out sid) := inferInstanceAs (Decidable (_ ∧ _))

/-- A resolved outcome of the key that is dispatched now is sent into the session,
    unless it waits for the rest of its sibling group. -/
def TakesResolved (k : EventKey) (sid : GoString) (d : Dispatcher) : Prop :=
  ∀ env out, out.inc.key = k → out.kind = .resolved → d.dryRun = false →
    (d.deferSiblingResolved env out).2 = false →
      ∃ reply, .append sid (.outcome out) reply ∈
        (d.dispatchResolved env out).sent.drop d.sent.length

section Reverted

variable {d y : Dispatcher} {env : Env} {out : Outcome}

theorem append_sent {payload : Payload} {reply : AppendReply}
    (h : d.append env sid payload = (y, reply)) :
    y = { d with sent := d.sent ++ [.append sid payload reply] } := by
  cases h
  rfl

/-- Committing a reversion only tells the storm. -/
theorem commitResolved_reverted (env : Env) (hkind : out.kind = .reverted) (d : Dispatcher) :
    (d.commitResolved env out).sent = d.sent ∧ (d.commitResolved env out).dedup = d.dedup := by
  unfold commitResolved
  unfold settleStorm
  rw [hkind]
  dsimp only
  split <;> exact ⟨rfl, rfl⟩

theorem deferSiblingResolved_reverted (hkind : out.kind = .reverted) (d : Dispatcher) :
    d.deferSiblingResolved env out = (d, false) :=
  if_pos (Or.inl (by rw [hkind]; decide))

/-- A reversion that is delivered was sent into the session its incident is bound to, and
    leaves it bound. -/
theorem deliverOutcome_reverted {sid' : GoString} (hkind : out.kind = .reverted)
    (hsent : .append sid (.outcome out) .delivered ∈
      (d.deliverOutcome env out sid').sent.drop d.sent.length) :
    sid' = sid ∧ (d.deliverOutcome env out sid').dedup = d.dedup := by
  unfold deliverOutcome at hsent ⊢
  split at hsent
  · rw [(commitResolved_reverted env hkind d).1, List.drop_length] at hsent
    cases hsent
  · next hdry =>
    rw [if_neg hdry]
    split at hsent
    · next y hy =>
      obtain ⟨hkept, hdedup⟩ := commitResolved_reverted env hkind y
      rw [hkept, append_sent hy, List.drop_left] at hsent
      cases List.mem_singleton.1 hsent
      exact ⟨rfl, hdedup.trans (by rw [append_sent hy])⟩
    · next y hy =>
      rw [(commitResolved_reverted env hkind _).1] at hsent
      change _ ∈ y.sent.drop d.sent.length at hsent
      rw [append_sent hy, List.drop_left] at hsent
      cases List.mem_singleton.1 hsent
    · next y hy =>
      rw [if_neg (by rw [hkind]; decide), append_sent hy, List.drop_left] at hsent
      cases List.mem_singleton.1 hsent

/-- After a delivered reversion its incident has the session for a home. -/
theorem Delivers.home (h : d.Delivers env out sid) (hmode : d.mode = .perIncident)
    (hkind : out.kind = .reverted) : Home out.inc.key sid (d.dispatchOutcome env) := by
  obtain ⟨hhead, hsent⟩ := h
  have hperforms := step_performs d (.outcome env)
  refine ⟨(congrArg Setup.mode hperforms.setup).trans hmode, ?_⟩
  unfold dispatchOutcome at hsent ⊢
  cases hbox : d.outbox with
  | nil =>
    rw [hbox] at hhead
    cases hhead
  | cons out' rest =>
    rw [hbox] at hhead hsent
    cases hhead
    have hof : ({ d with outbox := rest }).outcomeSession out =
        d.dedup.lookupSession out.inc.key := if_pos hmode
    dsimp only at hsent ⊢
    unfold dispatchResolved at hsent ⊢
    rw [hof, deferSiblingResolved_reverted hkind] at hsent ⊢
    cases hbound : d.dedup.lookupSession out.inc.key with
    | none =>
      rw [hbound] at hsent
      rw [(commitResolved_reverted env hkind _).1, List.drop_length] at hsent
      cases hsent
    | some sid' =>
      rw [hbound] at hsent
      obtain ⟨rfl, hdedup⟩ := deliverOutcome_reverted (d := { d with outbox := rest }) hkind hsent
      rw [hdedup]
      exact hbound

/-- At home, a resolved outcome that does not wait is sent there. -/
theorem Home.takesResolved (h : Home k sid d) : d.TakesResolved k sid := by
  rintro env out rfl hkind hdry hdefer
  obtain ⟨hsent, -, hmode⟩ := deferSiblingResolved_frame env out d
  have hsetup : (d.deferSiblingResolved env out).1.toSetup = d.toSetup :=
    (deferSiblingResolved_performs (d := d) (s := .outcome env) out).setup
  have hof : d.outcomeSession out = some sid := (if_pos h.mode).trans h.bound
  unfold dispatchResolved
  rw [hof]
  generalize hd : d.deferSiblingResolved env out = deferred at hsent hmode hdefer hsetup
  obtain ⟨y, waits⟩ := deferred
  cases hdefer
  dsimp only at hsent hmode hsetup ⊢
  -- Whatever follows the first call only adds calls.
  have hfirst {z z' : Dispatcher} {reply : AppendReply}
      (hz : y.append env sid (.outcome out) = (z, reply)) (hadds : Sends (fun _ => True) z z') :
      ∃ reply, .append sid (.outcome out) reply ∈ z'.sent.drop d.sent.length := by
    obtain ⟨calls, hcalls, -⟩ := hadds
    refine ⟨reply, ?_⟩
    rw [hcalls, append_sent hz, hsent, List.append_assoc, List.drop_left]
    exact List.mem_append_left _ (List.mem_singleton.2 rfl)
  have hmodeOf {z : Dispatcher} {reply : AppendReply}
      (hz : y.append env sid (.outcome out) = (z, reply)) : z.mode = .perIncident := by
    rw [append_sent hz]
    exact hmode.trans h.mode
  unfold deliverOutcome
  rw [if_neg (by rw [congrArg Setup.dryRun hsetup, hdry]; decide)]
  split
  · next z hz => exact hfirst hz (commitResolved_sends (hmodeOf hz) fun _ _ _ _ _ => trivial)
  · next z hz =>
    have hz' := hmodeOf hz
    exact hfirst hz (commitResolved_sends hz'
      fun _ _ _ _ _ => trivial)
  · next z hz =>
    rw [if_pos hkind]
    exact hfirst hz (Sends.refl rfl)

end Reverted

/-- A reverted incident keeps its home. In every run after the delivery in which no
    session is lost, nobody opens an incident for the key, nothing is evicted for
    capacity and no sweep has a reason to remove the key, the session stays bound and
    takes the next resolved outcome. -/
theorem reverted_keeps_home (d : Dispatcher) (env : Env) (out : Outcome) (sid : GoString)
    (steps : List Step) (hmode : d.mode = .perIncident) (hkind : out.kind = .reverted)
    (hdelivers : d.Delivers env out sid) (hlast : ∀ s ∈ steps, s.env.sink.Lasting)
    (hsteps : Run.Steps step (fun x s => x.LeftAlone out.inc.key s ∧ x.InRoom s ∧
      x.SparedBy out.inc.key s) (d.step (.outcome env)) steps) :
    Run.Always step (fun x => x.dedup.lookupSession out.inc.key = some sid ∧
      x.TakesResolved out.inc.key sid) (d.step (.outcome env)) steps := by
  have hhome : Home out.inc.key sid (d.step (.outcome env)) := hdelivers.home hmode hkind
  have halways := (hsteps.and_forall hlast).always (P := Home out.inc.key sid)
    (fun x s hx ⟨hlasts, halone, hroom, hspared⟩ => hx.step hlasts halone hroom hspared) hhome
  intro pre hpre
  have hpre' := halways pre hpre
  exact ⟨hpre'.bound, hpre'.takesResolved⟩

end Dispatcher

namespace Sample

/-- A pod fails, recovers, and fails again before the recovery is final. -/
def relapsed : Dispatcher :=
  ([crash (bytes "web") (bytes "pod-0") minute] ++ recovers [bytes "pod-0"] (3 * minute) ++
    [healthy [] (5 * minute)]).foldl Dispatcher.step dispatcher

/-- The outcome that the relapse queues. -/
def reversion : Outcome :=
  { kind := .reverted
    inc := ⟨crashKey (bytes "pod-0"), bytes "s-0", minute,
      { ns := bytes "default", kindOfObject := bytes "Pod", name := bytes "pod-0",
        controllerRef := bytes "Deployment/web" }⟩
    recovery := ⟨2 * minute, minute, .recovered, 4 * minute, minute⟩ }

theorem lasting : sink.Lasting := fun _ _ _ h => by cases h

end Sample

namespace Dispatcher

open Watch.Sample in
/-- Another workload fails while the pod has been idle for just the window. -/
theorem relapse_keeps_home :
    relapsed.Delivers (env (5 * minute)) reversion (bytes "s-0") ∧
    Run.Always step (fun x => x.dedup.lookupSession reversion.inc.key = some (bytes "s-0") ∧
        x.TakesResolved reversion.inc.key (bytes "s-0"))
      (relapsed.step (.outcome (env (5 * minute))))
      [crash (bytes "db") (bytes "pod-9") (6 * minute)] := by
  have hdelivers : relapsed.Delivers (env (5 * minute)) reversion
      (bytes "s-0") := by decide +kernel
  refine ⟨hdelivers, reverted_keeps_home relapsed _ reversion _ _
    (by decide +kernel) rfl hdelivers ?_ (by decide +kernel)⟩
  intro s hs
  cases List.mem_singleton.1 hs
  exact lasting

open Watch.Sample in
/-- The other workload fails some minutes later. The pod is still failing and its
    incident is open, but the sweep retires the entry, which is marked as resolved since
    the first outcome. The pod recovers in the end, and the outcome is dropped. -/
theorem idle_home_swept :
    relapsed.Delivers (env (5 * minute)) reversion (bytes "s-0") ∧
    sink.Lasting ∧
    Run.Steps step (fun x s => x.isOpen reversion.inc.key = true ∧
        x.LeftAlone reversion.inc.key s ∧ x.InRoom s)
      (relapsed.step (.outcome (env (5 * minute))))
      [crash (bytes "db") (bytes "pod-9") (12 * minute)] ∧
    (let swept := (relapsed.step (.outcome (env (5 * minute)))).step
        (crash (bytes "db") (bytes "pod-9") (12 * minute))
      let recovered := [healthy [bytes "pod-0"] (13 * minute),
        healthy [bytes "pod-0"] (14 * minute)].foldl step swept
      swept.isOpen reversion.inc.key = true ∧
        swept.dedup.lookupSession reversion.inc.key = none ∧
        recovered.outbox.map (fun out => (out.kind, out.inc.key)) =
          [(.resolved, reversion.inc.key)] ∧
        (recovered.step (.outcome (env (14 * minute)))).sent = swept.sent) :=
  ⟨by decide +kernel, lasting, by decide +kernel, by decide +kernel⟩

end Dispatcher

end Lookout.Watch
