-- SUMMARY: Outcomes of sibling groups: when a resolved record may speak for the whole group.
import Lookout.Watch.Dispatch
import Lookout.Engine.DedupRuns

/-!
# Outcomes of sibling groups

The pods of a workload share one session, so a pod that clears must not close the
session while another one is still failing. The dispatcher looks the group up through
its root at the time of each clearance. This module says when that lookup sees the
whole group, and shows a group that it does not see.
-/

namespace Lookout.Engine.DedupCache

variable {k key : EventKey} {sid : GoString}

/-! ## Groups -/

/-- The folded incidents of a session other than `key`, storm members left out. -/
def foldedInto (sid : GoString) (key : EventKey) (c : DedupCache) : List EventKey :=
  (Map.sortedKeys c.entries).filter fun k => k ≠ key.canonical ∧
    (c.entries.lookup k).any fun e => e.parent ≠ none ∧ e.storm = [] ∧ e.sessionID = sid

/-- The root of the incident's group, when it is there, is not folded itself, belongs to
    no storm and is bound to the incident's session. -/
def groupRoot (key : EventKey) (c : DedupCache) : Option EventKey :=
  (c.entries.lookup key.canonical).bind fun e =>
    (c.entries.lookup (e.parent.getD key.canonical)).bind fun root =>
      if e.storm = [] ∧ root.parent = none ∧ root.storm = [] ∧ root.sessionID = e.sessionID then
        some (e.parent.getD key.canonical)
      else none

variable {c : DedupCache} {e : DedupEntry}

theorem mem_foldedInto :
    k ∈ c.foldedInto sid key ↔ k ≠ key.canonical ∧ ∃ e, c.entries.lookup k = some e ∧
      e.parent ≠ none ∧ e.storm = [] ∧ e.sessionID = sid := by
  rw [foldedInto, List.mem_filter, Map.mem_sortedKeys, Map.mem_iff_ne_none, decide_eq_true_eq,
    Option.any_eq_true]
  constructor
  · rintro ⟨-, hne, e, he, h⟩
    exact ⟨hne, e, he, of_decide_eq_true h⟩
  · rintro ⟨hne, e, he, h⟩
    refine ⟨?_, hne, e, he, decide_eq_true h⟩
    rw [he]
    exact Option.some_ne_none e

theorem climb_of_unfolded (c : DedupCache) (n : Nat) (key : EventKey) (h : e.parent = none) :
    c.climb n key e = (key, e) := by
  cases n with
  | zero => rfl
  | succ n => simp only [climb, h]

theorem lookupSession_eq_some :
    c.lookupSession key = some sid ↔
      ∃ e, c.entries.lookup key.canonical = some e ∧ e.sessionID = sid ∧ sid ≠ [] := by
  rw [lookupSession, Option.bind_eq_some_iff]
  constructor
  · rintro ⟨e, he, h⟩
    split at h
    · cases h
    · next hne =>
      cases h
      exact ⟨e, he, rfl, hne⟩
  · rintro ⟨e, he, rfl, hne⟩
    exact ⟨e, he, if_neg hne⟩

/-- The lookup goes through the root, so whoever is folded onto the incident's root into
    the incident's session is in the group. -/
theorem siblingGroup_of_groupRoot {o : Map.Walk EventKey} {root : EventKey}
    (hsid : c.lookupSession key = some sid) (hroot : c.groupRoot key = some root)
    (hk : c.entries.lookup k = some e) (hparent : e.parent = some root) (hstorm : e.storm = [])
    (hsession : e.sessionID = sid) :
    ∃ group, c.siblingGroup o key = some (root, group) ∧ k ∈ group := by
  obtain ⟨e₀, he₀, hs₀, hne⟩ := lookupSession_eq_some.1 hsid
  obtain ⟨e₁, he₁, hr⟩ := Option.bind_eq_some_iff.1 hroot
  cases he₀.symm.trans he₁
  obtain ⟨r, hlookup, hr⟩ := Option.bind_eq_some_iff.1 hr
  split at hr
  case isFalse => cases hr
  case isTrue hsound =>
  obtain ⟨hs, htop, hrstorm, hrsession⟩ := hsound
  have hrootEq : e₀.parent.getD key.canonical = root := Option.some.inj hr
  have hkroot : k ≠ root := by
    rintro rfl
    rw [hrootEq, hk] at hlookup
    cases hlookup
    rw [hparent] at htop
    cases htop
  have hmem : k ∈ (Map.walk o c.entries).filter fun k =>
      (c.entries.lookup k).any fun e' => k ≠ root ∧ e'.parent = some root ∧
        e'.sessionID = e₀.sessionID ∧ e'.storm = [] := by
    refine List.mem_filter.2 ⟨Map.mem_walk.2 (Map.mem_iff_ne_none.2 ?_), ?_⟩
    · rw [hk]
      exact Option.some_ne_none e
    · rw [hk, Option.any_some]
      exact decide_eq_true ⟨hkroot, hparent, hsession.trans hs₀.symm, hstorm⟩
  refine ⟨_, ?_, List.mem_cons_of_mem root hmem⟩
  rw [siblingGroup, he₀, Option.bind_some,
    if_neg (by simp only [hs₀, hne, hs, ne_eq, not_true, or_self, not_false_iff])]
  have hlen := Nat.succ_le_succ (List.length_pos_of_mem hmem)
  -- The root of the lookup is the group's root.
  cases hp : e₀.parent with
  | none =>
    rw [hp, Option.getD_none] at hrootEq
    rw [hrootEq]
    exact if_neg (not_lt.2 hlen)
  | some p =>
    rw [hp, Option.getD_some] at hrootEq hlookup
    have hres : c.resolveParent e₀ = some (p, r) := by
      rw [resolveParent, hp, Option.bind_some, hlookup, Option.map_some,
        climb_of_unfolded c 8 p htop]
    dsimp only
    rw [hres, Option.bind_some]
    dsimp only
    rw [if_neg (by simp [hrsession, hrstorm]), hrootEq]
    exact if_neg (not_lt.2 hlen)

end Lookout.Engine.DedupCache

namespace Lookout.Watch

open Engine

namespace Dispatcher

/-! ## What an outcome sends -/

/-- The open storm that a key belongs to. -/
def stormOf (key : EventKey) (d : Dispatcher) : Option StormState :=
  d.storm.bind fun s => s.stormOf key.canonical

/-- A handler adds calls, and each of them is as described. -/
def Sends (P : Call → Prop) (d d' : Dispatcher) : Prop :=
  ∃ calls, d'.sent = d.sent ++ calls ∧ ∀ call ∈ calls, P call

variable {d d' : Dispatcher} {env : Env} {out : Outcome} {payload : Payload} {P : Call → Prop}

theorem Sends.refl (h : d'.sent = d.sent) : Sends P d d' :=
  ⟨[], by rw [h, List.append_nil], fun _ hcall => by cases hcall⟩

theorem Sends.trans {d₁ d₂ d₃ : Dispatcher} (h : Sends P d₁ d₂) (h' : Sends P d₂ d₃) :
    Sends P d₁ d₃ := by
  obtain ⟨calls, hsent, hcalls⟩ := h
  obtain ⟨calls', hsent', hcalls'⟩ := h'
  refine ⟨calls ++ calls', by rw [hsent', hsent, List.append_assoc], fun call hcall => ?_⟩
  exact (List.mem_append.1 hcall).elim (hcalls call) (hcalls' call)

theorem sends_append (h : ∀ reply, P (.append sid payload reply)) :
    Sends P d (d.append env sid payload).1 :=
  ⟨[_], rfl, fun _ hcall => List.mem_singleton.1 hcall ▸ h _⟩

theorem Sends.of_mem_drop (h : Sends P d d') {call : Call}
    (hcall : call ∈ d'.sent.drop d.sent.length) : P call := by
  obtain ⟨calls, hsent, hcalls⟩ := h
  rw [hsent, List.drop_left] at hcall
  exact hcalls call hcall

theorem settle_sessionID (key : EventKey) (st : StormState) :
    (st.settle key).sessionID = st.sessionID := by
  unfold StormState.settle
  split <;> rfl

/-- The snapshot that a clearance returns is of the storm that the index names. -/
theorem memberResolved_info {s s' : StormCorrelator} {info : StormInfo} {done : Bool}
    (h : s.memberResolved key = (s', some (info, done))) :
    ∃ st, s.stormOf key.canonical = some st ∧ info.sessionID = st.sessionID := by
  unfold StormCorrelator.memberResolved at h
  unfold StormCorrelator.stormOf
  cases hid : s.byKey.lookup key.canonical with
  | none =>
    rw [hid] at h
    cases h
  | some id =>
    cases hst : s.storms.lookup id with
    | none =>
      simp only [hid, hst] at h
      cases h
    | some st =>
      simp only [hid, hst] at h
      refine ⟨st, hst, ?_⟩
      split at h
      · cases h
        exact settle_sessionID key.canonical st
      · cases h
        exact settle_sessionID key.canonical st

section

variable (hmode : d.mode = .perIncident)
  (hstorm : ∀ st payload reply, out.kind = .resolved → d.stormOf out.inc.key = some st → P (.append st.sessionID payload reply))

include hmode hstorm

/-- The only call of a commit is the storm's own outcome, into the storm's session. -/
theorem settleStorm_sends : Sends P d (d.settleStorm env out) := by
  unfold settleStorm
  split
  · exact Sends.refl rfl
  · next s hs =>
    split
    · next hkind =>
      split
      · next s' info hres =>
        obtain ⟨st, hst, hinfo⟩ := memberResolved_info hres
        have hof : d.stormOf out.inc.key = some st := by
          rw [stormOf, hs]
          exact hst
        have hsid : (if d.mode = .shared then d.targetSid else info.sessionID) = st.sessionID := by
          rw [if_neg (by rw [hmode]; decide), hinfo]
        unfold stormResolved
        dsimp only
        rw [hsid]
        split
        · exact Sends.refl rfl
        · exact sends_append fun reply => hstorm st _ reply hkind hof
      · exact Sends.refl rfl
    · exact Sends.refl rfl

/-- A commit adds the storm's outcome and nothing else. -/
theorem commitResolved_sends : Sends P d (d.commitResolved env out) := by
  unfold commitResolved
  split
  · exact settleStorm_sends hmode hstorm
  · exact settleStorm_sends hmode hstorm

end

/-- A delivery sends the outcome into the session, and the storm's outcome after it. -/
theorem deliverOutcome_sends (hmode : d.mode = .perIncident)
    (hout : ∀ reply, P (.append sid (.outcome out) reply))
    (hstorm : ∀ st payload reply, out.kind = .resolved → d.stormOf out.inc.key = some st →
      P (.append st.sessionID payload reply)) : Sends P d (d.deliverOutcome env out sid) := by
  have happ : Sends P d (d.append env sid (.outcome out)).1 := sends_append hout
  unfold deliverOutcome
  split
  · exact commitResolved_sends hmode hstorm
  · split
    · next d' hd' =>
      cases congrArg Prod.fst hd'
      exact happ.trans (commitResolved_sends hmode hstorm)
    · next d' hd' =>
      cases congrArg Prod.fst hd'
      exact happ.trans (commitResolved_sends hmode hstorm)
    · next d' hd' =>
      cases congrArg Prod.fst hd'
      split
      · exact happ
      · exact happ

/-- An outcome that is not put off finds nobody open in an intact group. -/
theorem deferSiblingResolved_closed (hkind : out.kind = .resolved) (hmode : d.mode = .perIncident)
    (hdefer : d.deferSiblingResolved env out = (d', false))
    (hsid : d.dedup.lookupSession out.inc.key = some sid)
    (hk : k ∈ d.dedup.foldedInto sid out.inc.key)
    (hroot : (d.dedup.entries.lookup k).bind (·.parent) = d.dedup.groupRoot out.inc.key) :
    d.isOpen k = false := by
  obtain ⟨-, e, he, hparent, hstorm, hsession⟩ := DedupCache.mem_foldedInto.1 hk
  obtain ⟨root, hp⟩ := Option.ne_none_iff_exists'.1 hparent
  rw [he, Option.bind_some, hp] at hroot
  obtain ⟨group, hgroup, hmem⟩ :=
    DedupCache.siblingGroup_of_groupRoot (o := env.group) hsid hroot.symm he hp hstorm hsession
  unfold deferSiblingResolved at hdefer
  rw [if_neg (by simp [hkind, hmode])] at hdefer
  simp only [hgroup] at hdefer
  split at hdefer
  · cases hdefer
  · next hany => exact Bool.eq_false_iff.2 fun hopen => hany (List.any_eq_true.2 ⟨k, hmem, hopen⟩)

theorem deferSiblingResolved_frame (env : Env) (out : Outcome) (d : Dispatcher) :
    (d.deferSiblingResolved env out).1.sent = d.sent ∧
      (d.deferSiblingResolved env out).1.storm = d.storm ∧
      (d.deferSiblingResolved env out).1.mode = d.mode := by
  unfold deferSiblingResolved
  split
  · exact ⟨rfl, rfl, rfl⟩
  · split
    · exact ⟨rfl, rfl, rfl⟩
    · dsimp only
      split
      · exact ⟨rfl, rfl, rfl⟩
      · exact ⟨rfl, rfl, rfl⟩

/-! ## Coalesced outcomes -/

/-- The call closes a session only if no other folded incident of the session is open. -/
def Closes (d : Dispatcher) (out : Outcome) : Call → Prop
  | .append sid payload _ => payload.kind = kindResolved →
      ∀ k ∈ d.dedup.foldedInto sid out.inc.key, d.isOpen k = false
  | _ => True

instance (d : Dispatcher) (out : Outcome) : (call : Call) → Decidable (d.Closes out call)
  | .append .. => inferInstanceAs (Decidable (_ = kindResolved → ∀ k ∈ _, d.isOpen k = false))
  | .openIncident .. | .createSession .. => isTrue trivial

/-- In the per-incident mode every call that the dispatch of an outcome adds closes a
    session only if no other folded incident of it is open. The bindings and the tracker
    are those before the dispatch: it changes them for no other incident, and before it
    sends for none. -/
def Coalesced (d : Dispatcher) : Step → Prop
  | .outcome env => d.mode = .perIncident → ∀ out ∈ d.outbox.head?,
      ∀ call ∈ (d.dispatchOutcome env).sent.drop d.sent.length, d.Closes out call
  | _ => True

instance (d : Dispatcher) : (s : Step) → Decidable (d.Coalesced s)
  | .outcome _ => inferInstanceAs (Decidable (_ → ∀ out ∈ d.outbox.head?, ∀ call ∈ _,
      d.Closes out call))
  | .signal .. | .tick .. | .boardTick .. | .boardFlush .. | .resume .. => isTrue trivial

/-- The group of a key is intact: every other folded incident of its session hangs on
    the root of its group, and nobody is folded into the session of its storm. -/
def Intact (key : EventKey) (d : Dispatcher) : Prop :=
  (∀ sid ∈ d.dedup.lookupSession key, ∀ k ∈ d.dedup.foldedInto sid key,
      (d.dedup.entries.lookup k).bind (·.parent) = d.dedup.groupRoot key) ∧
    ∀ st ∈ d.stormOf key, d.dedup.foldedInto st.sessionID key = []

instance (key : EventKey) (d : Dispatcher) : Decidable (d.Intact key) :=
  inferInstanceAs (Decidable ((∀ sid ∈ d.dedup.lookupSession key, ∀ k ∈ _, _) ∧
    ∀ st ∈ d.stormOf key, _ = []))

/-- A resolved outcome is dispatched while the group of its incident is intact. -/
def GroupIntact (d : Dispatcher) : Step → Prop
  | .outcome _ => ∀ out ∈ d.outbox.head?, out.kind = .resolved → d.Intact out.inc.key
  | _ => True

instance (d : Dispatcher) : (s : Step) → Decidable (d.GroupIntact s)
  | .outcome _ => inferInstanceAs (Decidable (∀ out ∈ d.outbox.head?, _ → d.Intact _))
  | .signal .. | .tick .. | .boardTick .. | .boardFlush .. | .resume .. => isTrue trivial

theorem outcome_kind_eq_resolved (h : (Payload.outcome out).kind = kindResolved) :
    out.kind = .resolved := by
  cases hk : out.kind with
  | resolved => rfl
  | reverted =>
    have hne : kindResolvedReverted ≠ kindResolved := by decide +kernel
    simp only [Payload.kind, hk] at h
    exact absurd h hne

/-- One dispatch, seen from the state it starts in. -/
theorem dispatchResolved_closes (hmode : d.mode = .perIncident)
    (hintact : out.kind = .resolved → d.Intact out.inc.key) :
    Sends (d.Closes out) d (d.dispatchResolved env out) := by
  have hstorm (st : StormState) (payload : Payload) (reply : AppendReply)
      (hkind : out.kind = .resolved) (hst : d.stormOf out.inc.key = some st) :
      d.Closes out (.append st.sessionID payload reply) := by
    intro _ k hk
    rw [(hintact hkind).2 st hst] at hk
    cases hk
  have hbound : d.outcomeSession out = d.dedup.lookupSession out.inc.key := if_pos hmode
  unfold dispatchResolved
  rw [hbound]
  split
  · exact commitResolved_sends hmode hstorm
  · next sid hsid =>
    obtain ⟨hsent, hstorm', hmode'⟩ := deferSiblingResolved_frame env out d
    split
    · next d' hd' =>
      rw [hd'] at hsent
      exact Sends.refl hsent
    · next d' hd' =>
      rw [hd'] at hsent hstorm' hmode'
      refine (Sends.refl hsent).trans (deliverOutcome_sends (hmode'.trans hmode) ?_ ?_)
      · intro reply hpayload k hk
        have hkind := outcome_kind_eq_resolved hpayload
        exact deferSiblingResolved_closed hkind hmode hd' hsid hk ((hintact hkind).1 sid hsid k hk)
      · intro st payload reply hkind hst
        rw [stormOf, hstorm'] at hst
        exact hstorm st payload reply hkind hst

/-- In every run whose resolved outcomes find their groups intact, no dispatch closes a
    session while another folded incident of that session is open. -/
theorem outcomes_coalesced (d : Dispatcher) (steps : List Step)
    (h : Run.Steps step GroupIntact d steps) : Run.Steps step Coalesced d steps := by
  refine Run.Steps.mono (fun d s hs => ?_) h
  cases s with
  | outcome env =>
    intro hmode out hout call hcall
    cases hbox : d.outbox with
    | nil =>
      rw [hbox] at hout
      cases hout
    | cons out' rest =>
      have hs' := hs out hout
      rw [hbox] at hout
      cases hout
      rw [dispatchOutcome, hbox] at hcall
      exact (dispatchResolved_closes (d := { d with outbox := rest }) hmode hs').of_mem_drop hcall
  | _ => exact trivial

end Dispatcher

namespace Sample

/-- A sink that numbers the sessions it opens and delivers everything. -/
def sink : Sink where
  openIncident calls _ _ := ⟨bytes "s-" ++ [UInt8.ofNat (48 + calls.length)], false⟩
  append _ _ _ := .delivered

def env (now : Int) : Env :=
  { now := now, sink := sink, ancestors := fun _ => [], fleet := none,
    loops := ⟨.listed, .listed, .listed⟩, tracked := .listed, siblings := .listed, group := .listed,
    storms := .listed }

/-- A window of five minutes, and a minute of stability. -/
def dispatcher : Dispatcher :=
  { mode := .perIncident, dedup := DedupCache.new (5 * minute) five_minutes_pos
    tracker := some (RecoveryTracker.new minute minute_pos) }

def crashKey (pod : GoString) : EventKey := ⟨pod, bytes "CrashLoopBackOff"⟩

/-- A pod of a Deployment crashes. -/
def crash (owner pod : GoString) (now : Int) : Step :=
  .signal (env now)
    { sig := { kind := kindK8sEvent, severity := .critical, key := crashKey pod,
               ns := bytes "default", kindOfObject := bytes "Pod", name := pod, firstSeen := now,
               lastSeen := now, controllerRef := bytes "Deployment/" ++ owner } }

/-- The observers find the given pods healthy, and every other one failing. -/
def healthy (pods : List GoString) (now : Int) : Step :=
  .tick (env now) [fun inc => some ⟨inc.key ∈ pods.map crashKey, 0, .recovered⟩]

/-- Three pods of one workload fail, and share a session. -/
def workload : List Step :=
  [crash (bytes "web") (bytes "pod-0") minute, crash (bytes "web") (bytes "pod-1") (2 * minute),
    crash (bytes "web") (bytes "pod-2") (3 * minute)]

/-- The given pods are found healthy for a minute, and one outcome is dispatched. -/
def recovers (pods : List GoString) (now : Int) : List Step :=
  [healthy pods now, healthy pods (now + minute), .outcome (env (now + minute))]

/-- The pods recover one after the other, the root of the group last. -/
def recovery : List Step :=
  workload ++ recovers [bytes "pod-1"] (4 * minute) ++
    recovers [bytes "pod-1", bytes "pod-2"] (6 * minute) ++
    recovers [bytes "pod-0", bytes "pod-1", bytes "pod-2"] (8 * minute)

/-- The first pod recovers. Its entry is swept when another workload fails later, and
    then the second pod recovers while the third one is still failing. -/
def staggered : List Step :=
  workload ++ recovers [bytes "pod-0"] (4 * minute) ++
    [crash (bytes "db") (bytes "pod-9") (12 * minute)] ++ recovers [bytes "pod-1"] (13 * minute)

end Sample

namespace Dispatcher

open Watch.Sample in
theorem recovery_coalesced : Run.Steps step GroupIntact dispatcher recovery ∧
    Run.Steps step Coalesced dispatcher recovery := by
  have hintact : Run.Steps step GroupIntact dispatcher recovery := by decide +kernel
  exact ⟨hintact, outcomes_coalesced _ _ hintact⟩

/-- The second pod's outcome closes the session under the third one: its group is looked
    up through the root, which the sweep has retired. -/
theorem swept_root_closes_early : ¬Run.Steps step Coalesced Sample.dispatcher Sample.staggered := by
  decide +kernel

end Dispatcher

end Lookout.Watch
