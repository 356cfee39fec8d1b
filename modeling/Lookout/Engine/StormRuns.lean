-- SUMMARY: Runs of the storm correlator: exclusive membership, the all-clear of a storm, and what a verdict says about its storm.
import Lookout.Engine.StormLedger

/-!
# Runs of the storm correlator

A run is a list of calls with the clock readings they see. Whatever the order, the
counters agree with the member maps. The index that all storms share is another
matter: a member that fires again is filed under the storm its signal finds now,
and the storm that counted it before does not learn of it. The results here hold
for the runs in which this does not happen, and the runs at the end of the first
part show what happens otherwise.

A verdict carries a snapshot of its storm, on which the dispatcher acts after the
correlator has moved on. The storm is open under the snapshot's id, with the same
fingerprint and session. No open storm is without a fingerprint, since a dedup entry tells
a storm member by it, and none keeps more member records than the cap.
-/

namespace Lookout.Engine

open StormCorrelator

variable {c : StormCorrelator} {counts : Bool → Prop}

/-! ## Steps and what they do to the ledger -/

/-- A call of the correlator. An observation carries what the topology index answers. -/
inductive StormStep where
  | observe (now : Int) (fleet : Option Int) (topo : List Ancestor) (sig : Signal)
  | noteMemberSession (key : EventKey) (sessionID : GoString)
  | noteMemberActivity (now : Int) (key : EventKey) (seen : Int)
  | bindStormSession (id sessionID : GoString)
  | clearStormSession (o : Map.Walk GoString) (fp deadSessionID : GoString)
  | memberResolved (key : EventKey)
  | memberReverted (now : Int) (key : EventKey)

namespace StormCorrelator

def step (c : StormCorrelator) : StormStep → StormCorrelator
  | .observe now fleet topo sig => (c.observe now fleet topo sig).1
  | .noteMemberSession key sessionID => c.noteMemberSession key sessionID
  | .noteMemberActivity now key seen => c.noteMemberActivity now key seen
  | .bindStormSession id sessionID => c.bindStormSession id sessionID
  | .clearStormSession o fp deadSessionID => (c.clearStormSession o fp deadSessionID).1
  | .memberResolved key => (c.memberResolved key).1
  | .memberReverted now key => c.memberReverted now key

def run (c : StormCorrelator) (steps : List StormStep) : StormCorrelator := steps.foldl step c

/-- A correlator that has observed nothing yet. -/
def Fresh (c : StormCorrelator) : Prop := c.pending = [] ∧ c.storms = ∅ ∧ c.byKey = ∅

/-- Everything a call can do to the ledger. -/
inductive Effect (c : StormCorrelator) : StormStep → StormCorrelator → Prop where
  | attached {now fleet topo sig st c'} (hhome : (c.prune now).home fleet topo sig = some st)
      (hledger : c'.ledger = (c.prune now).ledger.join st.id sig.canonicalKey)
      (hverdict : ∃ info m u, (c.observe now fleet topo sig).2 = .attached info m u ∧
        info.id = st.id ∧ m.key = sig.canonicalKey) :
      Effect c (.observe now fleet topo sig) c'
  | keyless {now fleet topo sig} (hhome : (c.prune now).home fleet topo sig = none)
      (hkeyless : (c.prune now).keyless fleet topo sig = true)
      (hverdict : (c.observe now fleet topo sig).2 = .none) :
      Effect c (.observe now fleet topo sig) (c.prune now)
  | windowed {now fleet topo sig c'} (hhome : (c.prune now).home fleet topo sig = none)
      (hkeyed : (c.prune now).keyless fleet topo sig = false)
      (hledger : c'.ledger = (c.prune now).ledger.wait sig.canonicalKey)
      (hverdict : (c.observe now fleet topo sig).2 = .none) :
      Effect c (.observe now fleet topo sig) c'
  | formed {now fleet topo sig c' id ks} (hhome : (c.prune now).home fleet topo sig = none)
      (hkeyed : (c.prune now).keyless fleet topo sig = false) (hkey : sig.canonicalKey ∈ ks)
      (hwait : ks ⊆ ((c.prune now).ledger.wait sig.canonicalKey).waiting)
      (hfresh : ∀ k, (c.prune now).ledger.status id k = none)
      (hledger : c'.ledger = ((c.prune now).ledger.wait sig.canonicalKey).gather id ks)
      (hverdict : ∃ info ms m, (c.observe now fleet topo sig).2 = .formed info ms m ∧
        info.id = id ∧ m.key = sig.canonicalKey) :
      Effect c (.observe now fleet topo sig) c'
  | settled {key id c'} (howner : c.byKey.lookup key.canonical = some id)
      (hledger : c'.ledger = c.ledger.mark id key.canonical true) :
      Effect c (.memberResolved key) c'
  | closed {key id} (howner : c.byKey.lookup key.canonical = some id) :
      Effect c (.memberResolved key) (c.close id)
  | unknown {key} (howner : c.byKey.lookup key.canonical = none) :
      Effect c (.memberResolved key) c
  | rearmed {now key id c'} (howner : c.byKey.lookup key.canonical = some id)
      (hcleared : c.ledger.status id key.canonical = some true)
      (hledger : c'.ledger = c.ledger.mark id key.canonical false) :
      Effect c (.memberReverted now key) c'
  | unmoved {now key} (hnot : ∀ id, c.byKey.lookup key.canonical = some id →
        c.ledger.status id key.canonical ≠ some true) :
      Effect c (.memberReverted now key) c
  | session {key sessionID c'} (hledger : c'.ledger = c.ledger) :
      Effect c (.noteMemberSession key sessionID) c'
  | activity {now key seen c'} (hledger : c'.ledger = c.ledger) :
      Effect c (.noteMemberActivity now key seen) c'
  | bound {id sessionID c'} (hledger : c'.ledger = c.ledger) :
      Effect c (.bindStormSession id sessionID) c'
  | cleared {o fp deadSessionID c'} (hledger : c'.ledger = c.ledger) :
      Effect c (.clearStormSession o fp deadSessionID) c'

section Steps

section

variable (h : c.Indexed)

include h

variable (now : Int) (key : EventKey)

theorem observe_effect (fleet : Option Int) (topo : List Ancestor) (sig : Signal) :
    Effect c (.observe now fleet topo sig) (c.observe now fleet topo sig).1 ∧
      (c.observe now fleet topo sig).1.Indexed := by
  have hp : (c.prune now).Indexed := h.prune now
  generalize hout : c.observe now fleet topo sig = out
  unfold observe at hout
  dsimp only at hout
  split at hout
  · next st hhome =>
    have hst := lookup_of_home hp hhome
    rw [← hout]
    refine ⟨.attached hhome (ledger_attach hst _ _ _ _) ?_, hp.attach hst _ _ _ _⟩
    unfold observe
    simp only [hhome]
    exact ⟨_, _, _, rfl, StormState.addMember_id _ _ _ _ _, rfl⟩
  · next hhome =>
    split at hout
    · next hkeyless =>
      rw [← hout]
      refine ⟨.keyless hhome hkeyless ?_, hp⟩
      simp only [observe, hhome, hkeyless, if_true]
    · next hkeyed =>
      have hkeyed' := eq_false_of_ne_true hkeyed
      split at hout
      · next f hf =>
        obtain ⟨hmem, hsub, hfresh⟩ := founded_of_formation hhome hf
        obtain ⟨first, hfirst, hform⟩ := form_eq now
          ((c.prune now).pendingOf now fleet topo sig).member (List.ne_nil_of_mem hmem)
        rw [← hout, hform]
        have hkey : sig.canonicalKey ∈ {k | k ∈ groupKeys f} := List.mem_map.2 ⟨_, hmem, rfl⟩
        have hnew : ∀ k, (c.prune now).ledger.status f.ancestor.key k = none := by
          have hnone : (c.prune now).storms.lookup f.ancestor.key = none := hfresh
          simp [ledger, hnone]
        refine ⟨.formed hhome hkeyed' hkey ?_ hnew ?_ ?_,
          (hp.enqueue _).install now hfirst hsub hfresh⟩
        · intro k hk
          have hin : k ∈ ((c.prune now).enqueue
              ((c.prune now).pendingOf now fleet topo sig)).ledger.waiting :=
            (hsub.map _).subset hk
          rwa [ledger_enqueue] at hin
        · rw [ledger_install, ledger_enqueue]
          rfl
        · unfold observe
          simp only [hhome, hkeyed', hf, hform]
          exact ⟨_, _, _, rfl, stormOver_id now f first, rfl⟩
      · next hf =>
        rw [← hout]
        refine ⟨.windowed hhome hkeyed' (ledger_enqueue _ _) ?_, hp.enqueue _⟩
        simp only [observe, hhome, hkeyed', Bool.false_eq_true, if_false, hf]

theorem memberResolved_effect :
    Effect c (.memberResolved key) (c.memberResolved key).1 ∧ (c.memberResolved key).1.Indexed := by
  unfold memberResolved
  cases howner : c.byKey.lookup key.canonical with
  | none => exact ⟨.unknown howner, h⟩
  | some id =>
    obtain ⟨st, hst, -, hknown⟩ := h.stormOf howner
    simp only [hst]
    split
    · next hlive =>
      obtain ⟨hledger, hindexed⟩ := h.mark hst (StormState.settle_id _ _)
        (StormState.lookup_settle hknown) (StormState.balanced_settle (h.balanced hst) _) hlive
      exact ⟨.settled howner hledger, hindexed⟩
    · exact ⟨.closed howner, h.close id⟩

theorem memberReverted_effect :
    Effect c (.memberReverted now key) (c.memberReverted now key) ∧
      (c.memberReverted now key).Indexed := by
  unfold memberReverted stormOf
  cases howner : c.byKey.lookup key.canonical with
  | none => exact ⟨.unmoved (fun id hid => by rw [howner] at hid; cases hid), h⟩
  | some id =>
    obtain ⟨st, hst, hid, -⟩ := h.stormOf howner
    simp only [Option.bind_some, hst]
    split
    · next htrue =>
      have hbal := StormState.balanced_arm (h.balanced hst) htrue
      have hbal' : StormState.Balanced { st.arm key.canonical with lastActive := now } :=
        ⟨hbal.unresolved, hbal.memberCount⟩
      have hlive : 0 < (st.arm key.canonical).unresolved := by
        have hpos := h.live hst
        simp only [StormState.arm]
        omega
      have hid' : StormState.id { st.arm key.canonical with lastActive := now } = st.id := rfl
      have hmark := h.mark hst hid' (fun k => Map.lookup_insert _ _ _ _) hbal' hlive
      rw [← hid] at hmark howner
      refine ⟨.rearmed howner ?_ hmark.1, hmark.2⟩
      rw [hid, ledger_status hst, htrue]
    · next hnot =>
      refine ⟨.unmoved fun id' hid' => ?_, h⟩
      rw [howner] at hid'
      cases hid'
      rwa [ledger_status hst]

theorem noteMemberSession_effect (sessionID : GoString) :
    (c.noteMemberSession key sessionID).ledger = c.ledger ∧
      (c.noteMemberSession key sessionID).Indexed := by
  have hkeys : (c.noteMemberSession key sessionID).windowKeys = c.windowKeys := by
    refine map_key_replaceF (fun q q' hq => ?_) _
    split at hq
    · cases hq
      rfl
    · cases hq
  have hledger : (c.noteMemberSession key sessionID).ledger = c.ledger := by
    refine Ledger.ext' (fun _ _ => rfl) (fun _ => rfl) fun k => ?_
    change k ∈ (c.noteMemberSession key sessionID).windowKeys ↔ k ∈ c.windowKeys
    rw [hkeys]
  refine ⟨hledger, h.ids, ?_, ?_, h.balanced, h.live⟩
  · rw [hkeys]
    exact h.windowed
  · rw [hledger]
    exact h.index

theorem noteMemberActivity_effect (seen : Int) :
    (c.noteMemberActivity now key seen).ledger = c.ledger ∧
      (c.noteMemberActivity now key seen).Indexed := by
  unfold noteMemberActivity stormOf
  cases howner : c.byKey.lookup key.canonical with
  | none => exact ⟨rfl, h⟩
  | some id =>
    obtain ⟨st, hst, hid, -⟩ := h.stormOf howner
    simp only [Option.bind_some, hst]
    rw [← hid] at hst
    exact h.insert_same hst rfl rfl rfl rfl

theorem bindStormSession_effect (id sessionID : GoString) :
    (c.bindStormSession id sessionID).ledger = c.ledger ∧
      (c.bindStormSession id sessionID).Indexed := by
  unfold bindStormSession
  split
  · exact ⟨rfl, h⟩
  · next st hst => exact h.insert_same hst rfl rfl rfl rfl

omit h in
/-- The call writes one storm that carries the session, if there is one. -/
theorem clearStormSession_cases (o : Map.Walk GoString) (fp dead : GoString)
    (c : StormCorrelator) :
    (c.clearStormSession o fp dead = (c, none) ∧
        ∀ id st, c.storms.lookup id = some st → carries fp dead st = false) ∨
      ∃ id st, c.storms.lookup id = some st ∧ carries fp dead st = true ∧
        c.clearStormSession o fp dead =
          ({ c with storms := c.storms.insert id (withoutSession dead st) },
            some (withoutSession dead st).info) := by
  unfold clearStormSession
  cases hfind : (Map.walk o c.storms).find? _ with
  | none =>
    refine Or.inl ⟨rfl, fun id st hst => ?_⟩
    have hid : id ∈ Map.walk o c.storms := Map.mem_walk.2 (Map.mem_iff_ne_none.2 (by simp [hst]))
    simpa [hst] using List.find?_eq_none.1 hfind id hid
  | some id =>
    have hany := List.find?_some hfind
    obtain ⟨st, hst, hcarries⟩ := (Option.any_eq_true _ _).1 hany
    refine Or.inr ⟨id, st, hst, hcarries, ?_⟩
    simp only [hst]

theorem clearStormSession_effect (o : Map.Walk GoString) (fp dead : GoString) :
    (c.clearStormSession o fp dead).1.ledger = c.ledger ∧
      (c.clearStormSession o fp dead).1.Indexed := by
  rcases clearStormSession_cases o fp dead c with ⟨hc, -⟩ | ⟨id, st, hst, -, hc⟩
  · rw [hc]
    exact ⟨rfl, h⟩
  · rw [hc]
    exact h.insert_same hst rfl rfl rfl rfl

theorem step_effect (s : StormStep) : Effect c s (c.step s) ∧ (c.step s).Indexed := by
  cases s with
  | observe now fleet topo sig => exact observe_effect h now fleet topo sig
  | memberResolved key => exact memberResolved_effect h key
  | memberReverted now key => exact memberReverted_effect h now key
  | noteMemberSession key sessionID =>
    exact (noteMemberSession_effect h key sessionID).imp .session id
  | noteMemberActivity now key seen =>
    exact (noteMemberActivity_effect h now key seen).imp .activity id
  | bindStormSession sid sessionID =>
    exact (bindStormSession_effect h sid sessionID).imp .bound id
  | clearStormSession o fp deadSessionID =>
    exact (clearStormSession_effect h o fp deadSessionID).imp .cleared id

end

end Steps

theorem Fresh.indexed (h : c.Fresh) : c.Indexed := by
  obtain ⟨hpending, hstorms, hbyKey⟩ := h
  have hnone : ∀ {id st}, c.storms.lookup id ≠ some st := by
    intro id st
    rw [hstorms, Finmap.lookup_empty]
    exact nofun
  refine ⟨fun hst => absurd hst hnone, ?_, ?_, fun hst => absurd hst hnone,
    fun hst => absurd hst hnone⟩
  · rw [windowKeys, hpending]
    exact List.nodup_nil
  · intro k id hk
    rw [hbyKey, Finmap.lookup_empty] at hk
    cases hk

theorem indexed_run (h : c.Indexed) (steps : List StormStep) : (c.run steps).Indexed :=
  List.foldlRecOn steps step h fun _ hc s _ => (step_effect hc s).2

/-! ## Exclusive membership -/

/-- The condition under which a call keeps the index right about the members that
    count. An incident that finds an open storm is not windowed, and no other open
    storm counts it. One that finds none is counted by no open storm, unless it has no
    key and its storm still waits for it. A member that is re-armed is not windowed. -/
def Orderly (counts : Bool → Prop) (c : StormCorrelator) : StormStep → Prop
  | .observe now fleet topo sig =>
    let c := c.prune now
    match c.home fleet topo sig with
    | some st => sig.canonicalKey ∉ c.windowKeys ∧
        ∀ id b, c.ledger.status id sig.canonicalKey = some b → counts b → id = st.id
    | none => ∀ id b, c.ledger.status id sig.canonicalKey = some b → counts b →
        c.keyless fleet topo sig = true ∧ b = false
  | .memberReverted _ key => key.canonical ∈ c.windowKeys →
      ∀ id, c.byKey.lookup key.canonical = some id → c.ledger.status id key.canonical ≠ some true
  | _ => True

/-- Every call of the run meets the condition in the state it finds. -/
def OrderlyRun (counts : Bool → Prop) : StormCorrelator → List StormStep → Prop
  | _, [] => True
  | c, s :: steps => c.Orderly counts s ∧ OrderlyRun counts (c.step s) steps

theorem orderlyRun_iff {steps : List StormStep} :
    OrderlyRun counts c steps ↔ Run.Steps step (Orderly counts) c steps := by
  induction steps generalizing c with
  | nil => exact Iff.rfl
  | cons s steps ih => exact and_congr_right' ih

theorem owned_prune (h : c.ledger.Owned counts) (now : Int) :
    (c.prune now).ledger.Owned counts := by
  rw [prune_eq_drop, ledger_drop]
  exact h.narrow fun k hk => (List.filter_sublist.map _).subset hk

variable {s : StormStep}

/-- An orderly call keeps the index right. -/
theorem Orderly.owned (hfalse : counts false) (horder : c.Orderly counts s)
    (h : c.ledger.Owned counts) (hi : c.Indexed) : (c.step s).ledger.Owned counts := by
  have heffect := (step_effect hi s).1
  generalize c.step s = c' at heffect
  cases heffect with
  | @attached now fleet topo sig st _ hhome hledger _ =>
    simp only [Orderly, hhome] at horder
    rw [hledger]
    exact (owned_prune h now).join horder.1 fun hs hc => horder.2 _ _ hs hc
  | @keyless now => exact owned_prune h now
  | @windowed now fleet topo sig _ hhome hkeyed hledger _ =>
    simp only [Orderly, hhome, hkeyed] at horder
    rw [hledger]
    exact (owned_prune h now).wait fun hs hc => nomatch (horder _ _ hs hc).1
  | @formed now fleet topo sig _ id ks hhome hkeyed hkey hwait hfresh hledger _ =>
    simp only [Orderly, hhome, hkeyed] at horder
    rw [hledger]
    exact ((owned_prune h now).wait fun hs hc => nomatch (horder _ _ hs hc).1).gather hwait
  | @settled key id _ howner hledger =>
    rw [hledger]
    obtain ⟨b, hb⟩ := Option.ne_none_iff_exists'.1 (hi.index howner)
    cases b with
    | false => exact h.mark howner fun hwait => h.taken hwait hb hfalse
    | true =>
      -- A member that had cleared before stays as it is.
      have hsame : c.ledger.mark id key.canonical true = c.ledger := by
        refine Ledger.ext' (fun g k => ?_) (fun _ => rfl) fun _ => Iff.rfl
        rw [Ledger.status_mark]
        split
        · next hgk => rw [hgk.1, hgk.2, hb]
        · rfl
      rwa [hsame]
  | @closed key id howner =>
    rw [close_eq_drop, ledger_drop]
    exact h.narrow subset_rfl
  | unknown | unmoved => exact h
  | @rearmed now key id _ howner hcleared hledger =>
    rw [hledger]
    exact h.mark howner fun hwait => horder hwait id howner hcleared
  | session hledger | activity hledger | bound hledger | cleared hledger => rwa [hledger]

/-- The members that an open storm still waits for. -/
def Waited (b : Bool) : Prop := b = false

/-- A call that is not orderly leaves an unresolved member in two places. -/
theorem orderly_of_owned (hi : c.Indexed) (h : (c.step s).ledger.Owned Waited) :
    c.Orderly Waited s := by
  have heffect := (step_effect hi s).1
  generalize c.step s = c' at heffect h
  cases heffect with
  | @attached now fleet topo sig st _ hhome hledger _ =>
    simp only [Orderly, hhome]
    rw [hledger] at h
    have hhere : ((c.prune now).ledger.join st.id sig.canonicalKey).status st.id sig.canonicalKey =
        some false := if_pos ⟨rfl, rfl⟩
    refine ⟨fun hwait => h.taken hwait hhere rfl, fun id b hb hc => ?_⟩
    by_contra hne
    have hthere : ((c.prune now).ledger.join st.id sig.canonicalKey).status id sig.canonicalKey =
        some b := (if_neg fun hboth => hne hboth.1).trans hb
    exact hne (h.unique hthere hc hhere rfl)
  | @keyless now fleet topo sig hhome hkeyless =>
    simp only [Orderly, hhome]
    exact fun id b _ hc => ⟨hkeyless, hc⟩
  | @windowed now fleet topo sig _ hhome hkeyed hledger _ =>
    simp only [Orderly, hhome]
    intro id b hb hc
    rw [hledger] at h
    exact absurd hc (h.taken (Set.mem_insert _ _) hb)
  | @formed now fleet topo sig _ id ks hhome hkeyed hkey hwait hfresh hledger _ =>
    simp only [Orderly, hhome]
    intro id' b hb hc
    rw [hledger] at h
    -- The new storm and the old one would both wait for the incident.
    have hne : id' ≠ id := by
      rintro rfl
      rw [hfresh] at hb
      cases hb
    have hthere : (((c.prune now).ledger.wait sig.canonicalKey).gather id ks).status id'
        sig.canonicalKey = some b := (if_neg hne).trans hb
    have hhere : (((c.prune now).ledger.wait sig.canonicalKey).gather id ks).status id
        sig.canonicalKey = some false := (if_pos rfl).trans (if_pos hkey)
    exact absurd (h.unique hthere hc hhere rfl) hne
  | @rearmed now key id _ howner hcleared hledger =>
    intro hwait
    rw [hledger] at h
    exact absurd rfl (h.taken hwait (if_pos ⟨rfl, rfl⟩))
  | unmoved hnot => exact fun _ id hid => hnot id hid
  | _ => trivial

/-- The index is right in every state of a run just if every call is orderly. -/
theorem owned_run_iff (hi : c.Indexed) (h : c.ledger.Owned Waited) (steps : List StormStep) :
    (∀ pre, pre <+: steps → (c.run pre).ledger.Owned Waited) ↔ OrderlyRun Waited c steps := by
  rw [orderlyRun_iff]
  have hlaw : Run.Steps step (fun _ _ => True) c steps := Run.Steps.of_forall fun _ _ => trivial
  refine Run.always_iff_steps_of_invariant
    (fun (c : StormCorrelator) (h : c.Indexed ∧ c.ledger.Owned Waited) => h.2)
    (fun c s h _ horder => ?_) (fun c s h _ => orderly_of_owned h.1) ⟨hi, h⟩ hlaw
  exact ⟨(step_effect h.1 s).2, Orderly.owned (show Waited false from rfl) horder h.2 h.1⟩

/-- Membership is exclusive and accounted: the index names for every unresolved member
    the storm that has it, the counters are those of the member map, and an unresolved
    member belongs to one storm and is not windowed. -/
structure Accounted (c : StormCorrelator) : Prop where
  indexed : ∀ id st, c.storms.lookup id = some st → ∀ k, st.resolved.lookup k = some false →
    c.byKey.lookup k = some st.id
  unresolved : ∀ id st, c.storms.lookup id = some st →
    st.unresolved = (st.resolved.keys.filter fun k => st.resolved.lookup k = some false).card
  memberCount : ∀ id st, c.storms.lookup id = some st → st.memberCount = st.resolved.keys.card
  exclusive : ∀ id st id' st', c.storms.lookup id = some st → c.storms.lookup id' = some st' →
    ∀ k, st.resolved.lookup k = some false → st'.resolved.lookup k = some false → id = id'
  notPending : ∀ id st, c.storms.lookup id = some st → ∀ q ∈ c.pending,
    st.resolved.lookup q.member.key ≠ some false

theorem accounted_iff (hi : c.Indexed) : c.Accounted ↔ c.ledger.Owned Waited := by
  constructor
  · intro h
    -- A member of the ledger is a member of an open storm's map.
    constructor
    · intro id k b hb hc
      obtain ⟨st, hst, hk⟩ := Option.bind_eq_some_iff.1 hb
      subst hc
      exact (h.indexed id st hst k hk).trans (by rw [hi.ids hst])
    · intro k hwait id b hb hc
      obtain ⟨st, hst, hk⟩ := Option.bind_eq_some_iff.1 hb
      subst hc
      obtain ⟨q, hq, rfl⟩ := List.mem_map.1 hwait
      exact h.notPending id st hst q hq hk
  · intro h
    refine ⟨?_, fun id st hst => (hi.balanced hst).unresolved,
      fun id st hst => (hi.balanced hst).memberCount, ?_, ?_⟩
    · intro id st hst k hk
      rw [hi.ids hst]
      exact h.indexed ((ledger_status hst k).trans hk) rfl
    · intro id st id' st' hst hst' k hk hk'
      exact h.unique ((ledger_status hst k).trans hk) rfl ((ledger_status hst' k).trans hk') rfl
    · intro id st hst q hq hk
      exact h.taken (List.mem_map.2 ⟨q, hq, rfl⟩) ((ledger_status hst _).trans hk) rfl

theorem Fresh.owned (h : c.Fresh) (counts : Bool → Prop) : c.ledger.Owned counts := by
  obtain ⟨-, hstorms, -⟩ := h
  have hnone : ∀ {id k b}, c.ledger.status id k ≠ some b := by
    intro id k b
    simp [ledger, hstorms]
  exact ⟨fun hb => absurd hb hnone, fun _ _ _ hb => absurd hb hnone⟩

/-- Membership is exclusive and accounted in every state of a run just if every
    observation and every reversal of the run meets its condition. -/
theorem membership_accounted_iff {c : StormCorrelator} (h : c.Fresh) (steps : List StormStep) :
    (∀ pre, pre <+: steps → (c.run pre).Accounted) ↔ OrderlyRun Waited c steps := by
  rw [← owned_run_iff h.indexed (h.owned Waited) steps]
  refine forall₂_congr fun pre _ => ?_
  exact accounted_iff (indexed_run h.indexed pre)

end StormCorrelator

namespace StormSample

/-- A correlator that opens a storm over two incidents of a minute. -/
def correlator : StormCorrelator :=
  { window := minute, min := 2, window_pos := minute_pos, min_ge := by decide }

def node : Ancestor := { kind := bytes "Node", name := bytes "node-1" }

def deployment : Ancestor :=
  { kind := bytes "Deployment", ns := bytes "shop", name := bytes "cart" }

/-- A crash loop of the pod `name`. -/
def crash (name : String) : Signal :=
  { kind := kindK8sEvent, severity := .critical,
    key := ⟨bytes name, bytes "CrashLoopBackOff"⟩, ns := bytes "shop",
    kindOfObject := bytes "Pod", name := bytes name }

def observed (seconds : Int) (ancestor : Ancestor) (name : String) : StormStep :=
  .observe (seconds * second) none [ancestor] (crash name)

/-- The pod `b` is in the storm of its node when it fires again, and the topology then
    offers its deployment, which has a storm too. -/
def crossFire : List StormStep :=
  [observed 1 node "a", observed 2 node "b", observed 3 deployment "c", observed 4 deployment "d",
   observed 5 deployment "b"]

/-- Two pods on one node fail and clear. -/
def onePage : List StormStep :=
  [observed 1 node "a", observed 2 node "b", .memberResolved (crash "a").key,
   .memberResolved (crash "b").key]

theorem fresh : correlator.Fresh := ⟨rfl, rfl, rfl⟩

end StormSample

open StormSample in
/-- The pod that fires again is an unresolved member of both storms. -/
theorem refire_counts_twice : correlator.Fresh ∧ ¬(correlator.run crossFire).Accounted := by
  refine ⟨fresh, fun h => ?_⟩
  have hnode : ((correlator.run crossFire).storms.lookup node.key).bind
      (fun st => st.resolved.lookup (crash "b").key) = some false := by decide +kernel
  have hdeployment : ((correlator.run crossFire).storms.lookup deployment.key).bind
      (fun st => st.resolved.lookup (crash "b").key) = some false := by decide +kernel
  obtain ⟨st, hst, hk⟩ := Option.bind_eq_some_iff.1 hnode
  obtain ⟨st', hst', hk'⟩ := Option.bind_eq_some_iff.1 hdeployment
  have hsame : node.key = deployment.key := h.exclusive _ _ _ _ hst hst' _ hk hk'
  exact absurd hsame (by decide +kernel)

namespace StormSample

/-- An observation is orderly while no storm is open. -/
theorem orderly_of_no_storm {now : Int} {fleet : Option Int} {topo : List Ancestor} {sig : Signal}
    (h : (c.prune now).storms = ∅) : c.Orderly counts (.observe now fleet topo sig) := by
  have hhome : (c.prune now).home fleet topo sig = none := by
    refine List.findSome?_eq_none_iff.2 fun a _ => ?_
    rw [h, Finmap.lookup_empty]
  simp only [Orderly, hhome]
  intro id b hb
  simp [ledger, h] at hb

theorem onePage_orderly (counts : Bool → Prop) : OrderlyRun counts correlator onePage :=
  ⟨orderly_of_no_storm (by decide +kernel), orderly_of_no_storm (by decide +kernel), trivial,
    trivial, trivial⟩

end StormSample

open StormSample in
theorem onePage_accounted : correlator.Fresh ∧ OrderlyRun Waited correlator onePage ∧
    ∀ pre, pre <+: onePage → (correlator.run pre).Accounted :=
  ⟨fresh, onePage_orderly Waited,
    (membership_accounted_iff fresh onePage).2 (onePage_orderly Waited)⟩

/-! ## Storm verdicts -/

variable {st : StormState} {c c' : StormCorrelator}

theorem fingerprint_ne_nil (kind reasonClass objectClass zone : GoString) :
    fingerprint kind reasonClass objectClass zone ≠ [] := by
  have hlabel : bytes "sha256:" ≠ [] := by decide +kernel
  exact List.append_ne_nil_of_left_ne_nil hlabel _

namespace StormState

/-- What holds of every open storm: it has a fingerprint, and a bounded list of members. -/
structure Sound (st : StormState) : Prop where
  fingerprint : st.fingerprint ≠ []
  members : st.members.length ≤ maxStormMembers

section

variable (h : st.Sound)

include h

theorem sound_recordMember (m : StormMember) : (st.recordMember m).Sound := by
  refine ⟨h.fingerprint, ?_⟩
  unfold recordMember
  split
  · next hroom =>
    rw [List.length_append, List.length_singleton]
    exact hroom
  · exact h.members

theorem sound_raise (sev : Severity) : (st.raise sev).Sound := by
  unfold raise
  split
  · exact ⟨h.fingerprint, h.members⟩
  · exact h

theorem sound_arm (key : EventKey) : (st.arm key).Sound :=
  ⟨h.fingerprint, h.members⟩

theorem sound_addMember (m : StormMember) (sev : Severity) (seen now : Int) :
    (st.addMember m sev seen now).Sound := by
  have hseen : ({ st with lastSeen := max st.lastSeen seen, lastActive := now } : StormState).Sound :=
    ⟨h.fingerprint, h.members⟩
  have hraised := sound_raise hseen sev
  unfold addMember
  dsimp only
  split
  · exact sound_arm hraised m.key
  · exact hraised
  · exact sound_arm (sound_recordMember hraised m) m.key

theorem sound_enrol (q : PendingIncident) : (st.enrol q).Sound := by
  have hraised := sound_raise (sound_arm (sound_recordMember h q.member) q.member.key) q.severity
  exact ⟨hraised.fingerprint, hraised.members⟩

theorem sound_foldl_enrol (group : List PendingIncident) :
    (group.foldl (fun st q => st.enrol q) st).Sound := by
  induction group generalizing st with
  | nil => exact h
  | cons q group ih => exact ih (sound_enrol h q)

end

/-- A size report changes the report and nothing else. -/
theorem maybeSizeUpdate_info (now : Int) (st : StormState) :
    (st.maybeSizeUpdate now).1.info = st.info ∧
      (st.maybeSizeUpdate now).1.members = st.members := by
  unfold maybeSizeUpdate
  split
  · exact ⟨rfl, rfl⟩
  · split
    · exact ⟨rfl, rfl⟩
    · exact ⟨rfl, rfl⟩

theorem sound_settle (h : st.Sound) (key : EventKey) : (st.settle key).Sound := by
  unfold settle
  split
  · exact ⟨h.fingerprint, h.members⟩
  · exact h

end StormState

namespace StormCorrelator

/-- Every open storm is sound. -/
def Sound (c : StormCorrelator) : Prop := ∀ id st, c.storms.lookup id = some st → st.Sound

theorem sound_stormOver (now : Int) (f : Formation) (first : PendingIncident) :
    (stormOver now f first).Sound := by
  have hbare : ({ id := f.ancestor.key
                  ancestor := f.ancestor
                  reason := first.member.key.reason
                  keySource := f.keySource
                  fingerprint := fingerprint kindStorm first.member.key.reason f.ancestor.kind
                    first.zone
                  maxSeverity := .info
                  firstSeen := first.member.firstSeen
                  lastSeen := first.seen
                  lastActive := now
                  idleTTL := if f.keySource = keySourceSimultaneity then simultaneityIdleTTL
                    else stormIdleTTL } : StormState).Sound :=
    ⟨fingerprint_ne_nil _ _ _ _, Nat.zero_le _⟩
  have h := StormState.sound_foldl_enrol hbare f.group
  exact ⟨h.fingerprint, h.members⟩

section Verdicts

variable {now : Int} {fleet : Option Int} {topo : List Ancestor} {sig : Signal} {info : StormInfo}
  {member : StormMember}

/-- A storm that has formed is open as the verdict describes it. -/
theorem observe_formed {members : List StormMember}
    (h : c.observe now fleet topo sig = (c', .formed info members member)) :
    ∃ st, c'.storms.lookup info.id = some st ∧ st.info = info ∧ st.members = members ∧
      st.Sound := by
  revert h
  fun_cases observe with
  | case1 => nofun
  | case3 _ _ _ _ _ f =>
    fun_cases form with
    | case1 => simp
    | case2 first =>
      rintro ⟨⟩
      refine ⟨stormOver now f first, ?_, rfl, rfl, sound_stormOver now f first⟩
      exact (Map.lookup_insert _ _ _ _).trans (if_pos rfl)
  | _ => simp

/-- A storm that an incident has joined is open as the verdict describes it. -/
theorem observe_attached {update : Option StormSizeUpdate}
    (h : c.observe now fleet topo sig = (c', .attached info member update)) :
    ∃ st, c'.storms.lookup info.id = some st ∧ st.info = info := by
  revert h
  fun_cases observe with
  | case1 =>
    rintro ⟨⟩
    refine ⟨_, (Map.lookup_insert _ _ _ _).trans (if_pos rfl), ?_⟩
    exact (StormState.maybeSizeUpdate_info now _).1
  | case3 => fun_cases form <;> simp
  | _ => simp

theorem lookup_bindStormSession (id id' sessionID : GoString) (c : StormCorrelator) :
    (c.bindStormSession id sessionID).storms.lookup id' = (c.storms.lookup id').map fun st =>
      if id' = id then { st with sessionID := sessionID } else st := by
  unfold bindStormSession
  split
  · next hnone =>
    split
    · next hid => rw [hid, hnone, Option.map_none]
    · exact Option.map_id'.symm
  · next st hst =>
    rw [Map.lookup_insert]
    split
    · next hid => rw [hid, hst, Option.map_some]
    · exact Option.map_id'.symm

theorem stormMembers_bindStormSession (id id' sessionID : GoString) (c : StormCorrelator) :
    (c.bindStormSession id sessionID).stormMembers id' = c.stormMembers id' := by
  unfold stormMembers
  rw [lookup_bindStormSession, Option.map_map]
  refine congrArg (Option.getD · []) (Option.map_congr fun st _ => ?_)
  exact apply_ite StormState.members _ _ _ |>.trans (ite_self _)

end Verdicts

/-! ## Sound storms -/

variable {id : GoString}

theorem Sound.insert (h : c.Sound) (hc' : c'.storms = c.storms.insert id st) (hst : st.Sound) :
    c'.Sound := by
  intro id' st' hst'
  rw [hc'] at hst'
  rcases Map.of_lookup_insert hst' with ⟨-, rfl⟩ | ⟨-, hst'⟩
  · exact hst
  · exact h id' st' hst'

theorem Sound.filter (h : c.Sound) {p : GoString → StormState → Bool}
    (hc' : c'.storms = Map.filter p c.storms) : c'.Sound := by
  intro id st hst
  rw [hc', Map.lookup_filter] at hst
  exact h id st (Option.filter_eq_some_iff.1 hst).1

theorem Sound.erase (h : c.Sound) (hc' : c'.storms = c.storms.erase id) : c'.Sound := by
  intro id' st hst
  rw [hc'] at hst
  exact h id' st (Map.of_lookup_erase hst).2

theorem sound_observe (h : c.Sound) (now : Int) (fleet : Option Int) (topo : List Ancestor)
    (sig : Signal) : (c.observe now fleet topo sig).1.Sound := by
  have hprune : (c.prune now).Sound := h.filter (p := fun id _ => !c.expired now id) rfl
  fun_cases observe with
  | case1 _ p st hst =>
    obtain ⟨a, -, ha⟩ := List.exists_of_findSome?_eq_some hst
    have hadded := StormState.sound_addMember (hprune _ st ha) p.member sig.severity p.seen now
    obtain ⟨hinfo, hmembers⟩ := StormState.maybeSizeUpdate_info now
      (st.addMember p.member sig.severity p.seen now)
    refine hprune.insert rfl ⟨?_, (congrArg List.length hmembers).trans_le hadded.members⟩
    exact fun hnil => hadded.fingerprint ((congrArg StormInfo.fingerprint hinfo).symm.trans hnil)
  | case3 =>
    fun_cases form with
    | case1 => exact hprune
    | case2 first => exact hprune.insert rfl (sound_stormOver now _ first)
  | _ => exact hprune

theorem sound_step (h : c.Sound) (s : StormStep) : (c.step s).Sound := by
  cases s with
  | observe now fleet topo sig => exact sound_observe h now fleet topo sig
  | noteMemberSession key sessionID => exact h
  | noteMemberActivity now key seen =>
    change (c.noteMemberActivity now key seen).Sound
    fun_cases noteMemberActivity with
    | case1 => exact h
    | case2 st hst =>
      obtain ⟨id, -, hid⟩ := Option.bind_eq_some_iff.1 hst
      exact h.insert rfl ⟨(h id st hid).fingerprint, (h id st hid).members⟩
  | bindStormSession id sessionID =>
    change (c.bindStormSession id sessionID).Sound
    fun_cases bindStormSession with
    | case1 => exact h
    | case2 st hst => exact h.insert rfl ⟨(h id st hst).fingerprint, (h id st hst).members⟩
  | clearStormSession o fp deadSessionID =>
    change (c.clearStormSession o fp deadSessionID).1.Sound
    rcases clearStormSession_cases o fp deadSessionID c with ⟨hc, -⟩ | ⟨id, st, hst, -, hc⟩
    · rwa [hc]
    · rw [hc]
      refine h.insert rfl ⟨(h id st hst).fingerprint, ?_⟩
      exact (List.length_map _).trans_le (h id st hst).members
  | memberResolved key =>
    change (c.memberResolved key).1.Sound
    fun_cases memberResolved with
    | case3 id _ st hst => exact h.insert rfl (StormState.sound_settle (h id st hst) key.canonical)
    | case4 => exact h.erase rfl
    | _ => exact h
  | memberReverted now key =>
    change (c.memberReverted now key).Sound
    fun_cases memberReverted with
    | case2 st hst =>
      obtain ⟨id, -, hid⟩ := Option.bind_eq_some_iff.1 hst
      exact h.insert rfl ⟨(h id st hid).fingerprint, (h id st hid).members⟩
    | _ => exact h

end StormCorrelator

end Lookout.Engine
