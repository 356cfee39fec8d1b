-- SUMMARY: The episodes of the drift source, one per subject and topology key, and of the compute class source, one per axis and rule.
import Lookout.Leeway.EpisodeRuns

/-!
# Episodes of the sources

The drift source keeps an episode per subject and axis, the compute class source one per
preference axis and rule. Their rows share the store's table, under subject kinds of their
own, and a source leaves a row alone whose subject is not of a kind it scores. The provider
and the rule stand where the drift source puts the topology key.
-/

namespace Lookout.TopologyDrift

open Lookout.Engine Lookout.Leeway

/-- The subject kinds this source scores. -/
def scoredKinds : List GoString :=
  [bytes "Deployment", bytes "StatefulSet", bytes "DaemonSet", bytes "Job", bytes "NodeGroup",
    bytes "Custom", bytes "Domain"]

def scoredHere (kind : GoString) : Bool := scoredKinds.contains kind

/-- `alertKey`: a subject on one axis, as the cluster names them. -/
structure AlertKey where
  subject : SubjectRef
  key : TopologyKey
  scored : scoredHere subject.kind = true
  named : subject.Named
  keyed : key ≠ []
  deriving DecidableEq

instance : LinearOrder AlertKey :=
  LinearOrder.lift' (fun k => toLex (rank k.subject.kind, toLex (rank k.subject.namespace_,
    toLex (rank k.subject.name, rank k.key)))) fun k k' h => by
    obtain ⟨hkind, h⟩ := Prod.mk.inj (toLex.injective h)
    obtain ⟨hns, h⟩ := Prod.mk.inj (toLex.injective h)
    obtain ⟨hname, hkey⟩ := Prod.mk.inj (toLex.injective h)
    obtain ⟨⟨_, _, _⟩, _, _, _, _⟩ := k
    obtain ⟨⟨_, _, _⟩, _, _, _, _⟩ := k'
    simp only [AlertKey.mk.injEq, SubjectRef.mk.injEq]
    exact ⟨⟨rank_injective hkind, rank_injective hns, rank_injective hname⟩, rank_injective hkey⟩

/-- The rows of this source. -/
def alertCodec : RowCodec AlertKey where
  render k := ⟨k.subject.string, k.key⟩
  parse r :=
    match parseSubjectRef r.subjectKey with
    | some subject =>
      if h : scoredHere subject.kind = true ∧ subject.Named ∧ r.topologyKey ≠ [] then
        some ⟨subject, r.topologyKey, h.1, h.2.1, h.2.2⟩
      else none
    | none => none
  parse_render k := by simp [parse_string k.named, k.scored, k.named, k.keyed]
  named k := ⟨string_ne_nil k.subject, k.keyed⟩

theorem readable_rows (rows : Map RowKey Row) : Readable alertCodec rows := by
  intro r k _ hparse
  simp only [alertCodec] at hparse ⊢
  split at hparse
  next subject hsubject =>
    split at hparse
    · cases hparse
      rw [string_of_parse hsubject]
    · cases hparse
  next => cases hparse

/-- The drift source reports a subject's axis as one machine would, in every state of every
    run, across restarts, just if no episode opens with an earlier firing in the window. -/
theorem drift_episodes_agree_iff {cfg : Settings} {k : AlertKey} {rows : Map RowKey Row}
    {evs : List (Event AlertKey)} (hfresh : rows.lookup (alertCodec.render k) = none)
    (hcomplete : Run.Steps (Twin.step alertCodec cfg k) (Twin.Complete k)
      { source := { rows } } evs) :
    Run.Always (Twin.step alertCodec cfg k) (Twin.Agree cfg k) { source := { rows } } evs ↔
      Run.Steps (Twin.step alertCodec cfg k) (Twin.Settled cfg k) { source := { rows } } evs :=
  episodes_agree_iff (readable_rows rows) hfresh hcomplete

namespace EpisodeSample

def web : AlertKey :=
  { subject := ⟨bytes "Deployment", bytes "shop", bytes "web"⟩
    key := bytes "topology.kubernetes.io/zone"
    scored := by decide +kernel
    named := by decide +kernel
    keyed := by decide +kernel }

def settings : Settings := { dwell := defaultDwell, reconcileGrace := 5 * minute }

/-- A pass that finds the subject breached, or not, at a minute. -/
def pass (breached : Bool) (at_ : Int) : Event AlertKey :=
  .pass [⟨web, breached, .a⟩] (at_ * minute) .listed .listed

/-- An episode that fires, clears across a restart and resolves, and one two hours later. -/
def spaced : List (Event AlertKey) :=
  [pass true 1, pass true 11, pass false 12, .restart (13 * minute) .listed, pass false 14,
    pass false 44, pass true 134, pass true 144]

/-- The second episode follows the first within the hour. -/
def close : List (Event AlertKey) :=
  [pass true 1, pass true 11, pass false 12, pass false 42, pass true 43, pass true 53]

end EpisodeSample

open EpisodeSample in
theorem spaced_episodes_agree :
    Run.Always (Twin.step alertCodec settings web) (Twin.Agree settings web) {} spaced :=
  (drift_episodes_agree_iff rfl (by decide +kernel)).mpr (by decide +kernel)

open EpisodeSample in
/-- The finding of the second episode does not count the first one as a recurrence. -/
theorem close_episodes_forget :
    Run.Steps (Twin.step alertCodec settings web) (Twin.Complete web) {} close ∧
      ((close.foldl (Twin.step alertCodec settings web) {}).source.alerts.stateOf web).map
        (·.recurrences (53 * minute) settings.dwell) = some 0 ∧
      (close.foldl (Twin.step alertCodec settings web) {}).solo.state.recurrences (53 * minute)
        settings.dwell = 1 := by
  decide +kernel

end Lookout.TopologyDrift

namespace Lookout.ComputeClass

open Lookout.Engine Lookout.Leeway

def preferenceAxis : GoString := bytes "PreferenceAxis"

theorem preferenceAxis_named : preferenceAxis ≠ [] ∧ slash ∉ preferenceAxis := by decide +kernel

/-- `alertKey`: one rule on one axis. The rule is the verdict's own episode key. -/
structure AlertKey where
  provider : GoString
  name : GoString
  rule : GoString
  providerNamed : provider ≠ [] ∧ slash ∉ provider
  nameNamed : name ≠ [] ∧ slash ∉ name
  ruled : rule ≠ []
  deriving DecidableEq

def AlertKey.subjectKey (k : AlertKey) : GoString := (SubjectRef.mk preferenceAxis [] k.name).string

def AlertKey.stateKey (k : AlertKey) : GoString := k.provider ++ slash :: k.rule

def parseStateKey (sub state : GoString) : Option AlertKey :=
  match parseSubjectRef sub, cut state with
  | some ref, some (provider, rule) =>
    if h : ref.kind = preferenceAxis ∧ (provider ≠ [] ∧ slash ∉ provider) ∧
        (ref.name ≠ [] ∧ slash ∉ ref.name) ∧ rule ≠ [] then
      some ⟨provider, ref.name, rule, h.2.1, h.2.2.1, h.2.2.2⟩
    else none
  | _, _ => none

theorem parse_stateKey (k : AlertKey) : parseStateKey k.subjectKey k.stateKey = some k := by
  have hnamed : (SubjectRef.mk preferenceAxis [] k.name).Named :=
    ⟨preferenceAxis_named, by simp, k.nameNamed⟩
  simp [parseStateKey, AlertKey.subjectKey, AlertKey.stateKey, parse_string hnamed,
    cut_append k.providerNamed.2 k.rule, k.providerNamed, k.nameNamed, k.ruled]

/-- The rows of this source. -/
def alertCodec : RowCodec AlertKey where
  render k := ⟨k.subjectKey, k.stateKey⟩
  parse r := parseStateKey r.subjectKey r.topologyKey
  parse_render := parse_stateKey
  named k := ⟨string_ne_nil (SubjectRef.mk preferenceAxis [] k.name), by
    simp [AlertKey.stateKey]⟩

instance : LinearOrder AlertKey :=
  LinearOrder.lift' (fun k => toLex (rank k.provider, toLex (rank k.name, rank k.rule)))
    fun k k' h => by
    obtain ⟨hprovider, h⟩ := Prod.mk.inj (toLex.injective h)
    obtain ⟨hname, hrule⟩ := Prod.mk.inj (toLex.injective h)
    cases k
    cases k'
    simp only [AlertKey.mk.injEq]
    exact ⟨rank_injective hprovider, rank_injective hname, rank_injective hrule⟩

/-- The pass of this source is the pass of the drift source, so it agrees with one machine
    per axis and rule in the same runs. -/
theorem rank_episodes_agree_iff {cfg : Settings} {k : AlertKey} {rows : Map RowKey Row}
    {evs : List (Event AlertKey)} (hreadable : Readable alertCodec rows)
    (hfresh : rows.lookup (alertCodec.render k) = none)
    (hcomplete : Run.Steps (Twin.step alertCodec cfg k) (Twin.Complete k)
      { source := { rows } } evs) :
    Run.Always (Twin.step alertCodec cfg k) (Twin.Agree cfg k) { source := { rows } } evs ↔
      Run.Steps (Twin.step alertCodec cfg k) (Twin.Settled cfg k) { source := { rows } } evs :=
  episodes_agree_iff hreadable hfresh hcomplete

end Lookout.ComputeClass
