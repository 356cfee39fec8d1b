-- SUMMARY: Clearing a lost storm session: whose session it takes, and whose members it unbinds.
import Lookout.Engine.DedupEffect
import Lookout.Engine.StormRuns
import Lookout.Watch.Dispatch

/-!
# Clearing a lost session

The correlator looks for the storm of a session that the sink no longer has. It takes the
first storm that has the session or the fingerprint, and a fingerprint names a class of
storms: the reason, the kind of the ancestor and the zone. The dispatcher then unbinds the
members of the storm it got.
-/

namespace Lookout.Engine.StormCorrelator

/-- The answer is a storm that had the dead session, and the storms with another session
    are as they were. -/
def Confined (dead : GoString) (c : StormCorrelator) (r : StormCorrelator × Option StormInfo) :
    Prop :=
  (∃ id st, c.storms.lookup id = some st ∧ st.sessionID = dead ∧
      r.2 = some (withoutSession dead st).info) ∧
    ∀ id st, c.storms.lookup id = some st → st.sessionID ≠ dead → r.1.storms.lookup id = some st

/-- An open storm has the session, and every open storm of the fingerprint has it. -/
def Sole (fp dead : GoString) (c : StormCorrelator) : Prop :=
  (∃ id st, c.storms.lookup id = some st ∧ st.sessionID = dead) ∧
    ∀ id st, c.storms.lookup id = some st → fp ≠ [] → st.fingerprint = fp → st.sessionID = dead

variable {c : StormCorrelator} {fp dead id : GoString} {st : StormState}

theorem carries_iff (hdead : dead ≠ []) :
    carries fp dead st = true ↔ (fp ≠ [] ∧ st.fingerprint = fp) ∨ st.sessionID = dead := by
  simp [carries, hdead]

/-- The loop that visits a storm that carries the session first takes that storm. -/
theorem clearStormSession_first (hst : c.storms.lookup id = some st)
    (hcarries : carries fp dead st = true) :
    (c.clearStormSession (.first id) fp dead).2 = some (withoutSession dead st).info := by
  obtain ⟨rest, hwalk⟩ := Map.walk_first (Map.mem_iff_ne_none.2 (by simp [hst]) : id ∈ c.storms)
  unfold clearStormSession
  rw [hwalk, List.find?_cons_of_pos (by simp [hst, hcarries])]
  simp only [hst]

/-- Where the session has one storm of its own, the loop takes a storm that had it. -/
theorem Sole.clears (h : Sole fp dead c) (hdead : dead ≠ []) (o : Map.Walk GoString) :
    ∃ id st, c.storms.lookup id = some st ∧ st.sessionID = dead ∧
      c.clearStormSession o fp dead =
        ({ c with storms := c.storms.insert id (withoutSession dead st) },
          some (withoutSession dead st).info) := by
  obtain ⟨⟨id₀, st₀, hst₀, hsession₀⟩, hsole⟩ := h
  rcases clearStormSession_cases o fp dead c with ⟨-, hnone⟩ | ⟨id, st, hst, hcarries, heq⟩
  · have hnot := hnone id₀ st₀ hst₀
    rw [(carries_iff hdead).2 (Or.inr hsession₀)] at hnot
    cases hnot
  · refine ⟨id, st, hst, ?_, heq⟩
    rcases (carries_iff hdead).1 hcarries with ⟨hfp, hclass⟩ | hsession
    · exact hsole id st hst hfp hclass
    · exact hsession

/-- Whatever the order of the loop, the call is confined to the storm that lost its session
    just if that storm is there and its fingerprint is not shared. -/
theorem confined_iff (hi : c.Indexed) (hdead : dead ≠ []) :
    (∀ o, Confined dead c (c.clearStormSession o fp dead)) ↔ Sole fp dead c := by
  constructor
  · intro h
    obtain ⟨⟨id, st, hst, hsession, -⟩, -⟩ := h .listed
    refine ⟨⟨id, st, hst, hsession⟩, fun id st hst hfp hclass => ?_⟩
    obtain ⟨⟨id', st', hst', hsession', hinfo⟩, -⟩ := h (.first id)
    rw [clearStormSession_first hst ((carries_iff hdead).2 (Or.inl ⟨hfp, hclass⟩))] at hinfo
    -- Storms are filed under their id, so the snapshot names the storm.
    have hid : st.id = st'.id := congrArg StormInfo.id (Option.some.inj hinfo)
    rw [hi.ids hst, hi.ids hst'] at hid
    subst hid
    exact Option.some.inj (hst.symm.trans hst') ▸ hsession'
  · intro hsole o
    obtain ⟨id, st, hst, hsession, heq⟩ := hsole.clears hdead o
    rw [heq]
    refine ⟨⟨id, st, hst, hsession, rfl⟩, fun id' st' hst' hother => ?_⟩
    have hne : id' ≠ id := by
      rintro rfl
      exact hother (Option.some.inj (hst'.symm.trans hst) ▸ hsession)
    exact ((Map.lookup_insert ..).trans (if_neg hne)).trans hst'

end Lookout.Engine.StormCorrelator

namespace Lookout.Watch

open Engine StormCorrelator

/-- Unbinding members leaves the entries of all other keys alone. -/
theorem unbindAll_lookup (now : Int) {k : EventKey} {members : List StormMember}
    (hk : ∀ m ∈ members, m.key.canonical ≠ k) (d : Dispatcher) :
    (members.foldl (fun d m => d.onDedup (·.unbind now m.key)) d).dedup.entries.lookup k =
      d.dedup.entries.lookup k := by
  induction members generalizing d with
  | nil => rfl
  | cons m members ih =>
    refine (ih (fun m' hm' => hk m' (List.mem_cons_of_mem m hm')) _).trans ?_
    exact (DedupCache.lookup_update ..).trans (if_neg (Ne.symm (hk m List.mem_cons_self)))

/-- A lost session is taken off its own storm, whatever storm the loop finds first, just if
    that storm is open and its fingerprint is not shared by a storm with another session.
    Then only members of a storm that lost the session are unbound. -/
theorem lost_session_confined_iff {c₀ : StormCorrelator} (hfresh : c₀.Fresh)
    (steps : List StormStep) (fp : GoString) {dead : GoString} (hdead : dead ≠ []) :
    ((∀ o, Confined dead (c₀.run steps) ((c₀.run steps).clearStormSession o fp dead)) ↔
        Sole fp dead (c₀.run steps)) ∧
      (Sole fp dead (c₀.run steps) → ∀ (d : Dispatcher) (env : Env), d.storm = some (c₀.run steps) →
        ∀ k, (d.clearDeadStormSession env fp dead).1.dedup.entries.lookup k ≠
            d.dedup.entries.lookup k →
          ∃ id st, (c₀.run steps).storms.lookup id = some st ∧ st.sessionID = dead ∧
            ∃ m ∈ st.members, m.key.canonical = k) := by
  have hi := indexed_run hfresh.indexed steps
  generalize c₀.run steps = c at hi
  refine ⟨confined_iff hi hdead, fun hsole d env hstorm k hk => ?_⟩
  obtain ⟨id, st, hst, hsession, heq⟩ := hsole.clears hdead env.storms
  refine ⟨id, st, hst, hsession, ?_⟩
  by_contra hnone
  refine hk ?_
  unfold Dispatcher.clearDeadStormSession
  rw [hstorm]
  simp only [heq]
  refine unbindAll_lookup env.now (fun m hm => ?_) _
  have hid : st.id = id := hi.ids hst
  rw [show (withoutSession dead st).info.id = id from hid, stormMembers, Map.lookup_insert,
    if_pos rfl] at hm
  obtain ⟨m', hm', rfl⟩ := List.mem_map.1 hm
  refine fun hkey => hnone ⟨m', hm', ?_⟩
  rw [← hkey]
  split <;> rfl

namespace Sample

open StormSample

/-- Another node of the first one's class. -/
def node₂ : Ancestor := { node with name := bytes "node-2" }

/-- The node and a second anchor have a storm each, with a session each. -/
def twoStorms (second : Ancestor) : List StormStep :=
  [observed 1 node "a", observed 2 node "b", .bindStormSession node.key (bytes "s1"),
   observed 3 second "c", observed 4 second "d", .bindStormSession second.key (bytes "s2")]

/-- The fingerprint of the second storm. -/
def classOf (second : Ancestor) : GoString :=
  (((correlator.run (twoStorms second)).storms.lookup second.key).map (·.fingerprint)).getD []

end Sample

open Watch.Sample StormSample in
/-- The second node's session is lost, and the call answers with the first node's storm,
    which has the same fingerprint. -/
theorem neighbour_loses_members : correlator.Fresh ∧
    ¬∀ o, Confined (bytes "s2") (correlator.run (twoStorms node₂))
      ((correlator.run (twoStorms node₂)).clearStormSession o (classOf node₂) (bytes "s2")) := by
  refine ⟨fresh, fun h => ?_⟩
  have hsole := (confined_iff (indexed_run fresh.indexed (twoStorms node₂)) (by decide +kernel)).1 h
  have hfirst : ((correlator.run (twoStorms node₂)).storms.lookup node.key).map
      (fun st => (st.fingerprint, st.sessionID)) = some (classOf node₂, bytes "s1") := by
    decide +kernel
  obtain ⟨st, hst, hfields⟩ := Option.map_eq_some_iff.1 hfirst
  obtain ⟨hclass, hsession⟩ := Prod.mk.inj hfields
  have hdead := hsole.2 _ st hst (by decide +kernel) hclass
  rw [hsession] at hdead
  exact absurd hdead (by decide +kernel)

open Watch.Sample StormSample in
/-- The deployment's storm has a fingerprint of its own. -/
theorem own_class_confined : correlator.Fresh ∧ bytes "s2" ≠ [] ∧ classOf deployment ≠ [] ∧
    ∀ o, Confined (bytes "s2") (correlator.run (twoStorms deployment))
      ((correlator.run (twoStorms deployment)).clearStormSession o (classOf deployment)
        (bytes "s2")) := by
  obtain ⟨hdead, hclass, hsecond⟩ : bytes "s2" ≠ [] ∧ classOf deployment ≠ [] ∧
      ((correlator.run (twoStorms deployment)).storms.lookup deployment.key).map (·.sessionID) =
        some (bytes "s2") := by decide +kernel
  have hsole : ∀ id ∈ (correlator.run (twoStorms deployment)).storms.keys,
      ((correlator.run (twoStorms deployment)).storms.lookup id).all (fun st =>
        st.fingerprint = classOf deployment → st.sessionID = bytes "s2") = true := by
    decide +kernel
  obtain ⟨st, hst, hsession⟩ := Option.map_eq_some_iff.1 hsecond
  refine ⟨fresh, hdead, hclass, (lost_session_confined_iff fresh (twoStorms deployment) _ hdead).1.2
    ⟨⟨_, st, hst, hsession⟩, fun id st hst _ => ?_⟩⟩
  exact of_decide_eq_true (Map.forall_lookup_of_keys hsole id st hst)

end Lookout.Watch
