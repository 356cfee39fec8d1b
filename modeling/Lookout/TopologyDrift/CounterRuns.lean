-- SUMMARY: The counters equal a rebuild from the pod cache in every run in which no counted pod is replaced under its name.
import Lookout.Lib.Run
import Lookout.TopologyDrift.Rebuild

/-!
# Runs of the counters

The state is run together with the cache of the pod informer. A deletion is always
delivered, unless the pod has meanwhile been replaced by a new one of the same name: then
the informer tells of one update. The update handler looks at the new pod only, and
leaves the old one counted.
-/

namespace Lookout.TopologyDrift

open Leeway
open Sources (UID ObjectName)
open Seating (lookup_update seatOf seatOf_congr)

/-- The state and the pod cache that its informer keeps. -/
structure System where
  state : State
  cache : Cache := ∅

namespace System

def new (keys : List TopologyKey) : System where
  state := { inv := Inventory.new keys }

/-- The pod cache after an event. -/
def deliver (cache : Cache) : Event → Cache
  | .podAdd pod => Informer.deliver Pod.key cache (.upsert pod)
  | .podUpdate _ cur => Informer.deliver Pod.key cache (.upsert cur)
  | .podDelete obj => match obj.obj with
    | none => cache
    | some pod => Informer.deliver Pod.key cache (.delete pod)
  | _ => cache

def step (opts : StateOptions) (sys : System) (e : Event) : System where
  state := sys.state.step opts e
  cache := deliver sys.cache e

/-- What an informer may tell of. An update carries the pod as it was cached, and the pod
    of a deletion or of a tombstone is the cached one, perhaps in another version. -/
def Conformant (sys : System) : Event → Prop
  | .podAdd pod => Informer.Conforms Pod.key Pod.uid sys.cache (.upsert pod)
  | .podUpdate old cur => old ≠ none ∧ sys.cache.lookup cur.key = old ∧
    Informer.Conforms Pod.key Pod.uid sys.cache (.upsert cur)
  | .podDelete obj => ∃ pod cached, obj.obj = some pod ∧
    sys.cache.lookup pod.key = some cached ∧ cached.uid = pod.uid
  | .nodeUpsert _ _ => True
  | .nodeDelete _ _ => True

/-- Every subject's distributions are those a rebuild of its shard computes, and no
    other subject is tracked. -/
def Agrees (opts : StateOptions) (sys : System) : Prop :=
  ∀ (w : Map.Walk ObjectName) (shards : Nat) (sub : SubjectRef),
    let want := sys.state.rebuildShard opts (sys.cache.list w) (State.shardOf sub shards) shards
    (∀ key, (want.lookup sub).bind (fun r => r.counts.lookup key) =
      entry sys.state.counts sub key) ∧ (sub ∈ sys.state.counts → sub ∈ want)

/-- The pod does not take the name of a counted pod with another uid. -/
def Succeeds (sys : System) (cur : Pod) : Prop :=
  ∀ old ∈ sys.cache.lookup cur.key,
    old.uid = cur.uid ∨ sys.state.placements.lookup old.uid = none ∨ sys.state.keys = []

instance (sys : System) (cur : Pod) : Decidable (sys.Succeeds cur) :=
  inferInstanceAs (Decidable (∀ old ∈ sys.cache.lookup cur.key, _ ∨ _ ∨ _))

/-- No counted pod is replaced under its name, or there is no topology key to count on. -/
def Steady (sys : System) : Event → Prop
  | .podAdd pod => sys.Succeeds pod
  | .podUpdate _ cur => sys.Succeeds cur
  | _ => True

instance (sys : System) : (e : Event) → Decidable (sys.Steady e)
  | .podAdd pod => inferInstanceAs (Decidable (sys.Succeeds pod))
  | .podUpdate _ cur => inferInstanceAs (Decidable (sys.Succeeds cur))
  | .podDelete _ => isTrue trivial
  | .nodeUpsert _ _ => isTrue trivial
  | .nodeDelete _ _ => isTrue trivial

end System

/-! ## Current seatings along a run -/

variable {opts : StateOptions} {inv inv' : Inventory} {seats seats' : Seating} {cache : Cache}

namespace Current

theorem empty : Current opts inv ∅ ∅ where
  seated k pod h := by cases h
  only uid seat h := by cases h

variable {cur : Pod}

section

variable (h : Current opts inv seats cache)

include h

/-- A pod of the cache takes the seat it should have, and the other cached pods keep
    theirs. -/
theorem upsert (hcur : seats'.lookup cur.uid = seats.seatOf opts inv cur)
    (hothers : ∀ k pod, k ≠ cur.key → cache.lookup k = some pod →
      seats'.lookup pod.uid = seats.lookup pod.uid)
    (honly : ∀ uid seat, seats'.lookup uid = some seat → uid ≠ cur.uid →
      ∃ k pod, k ≠ cur.key ∧ cache.lookup k = some pod ∧ pod.uid = uid) :
    Current opts inv seats' (Informer.deliver Pod.key cache (.upsert cur)) where
  seated k pod hk := by
    rcases Map.of_lookup_insert hk with ⟨-, rfl⟩ | ⟨hne, hk⟩
    · rw [hcur, Seating.seatOf_of_lookup hcur]
    · have hsame := hothers k pod hne hk
      rw [seatOf_congr hsame, hsame]
      exact h.seated k pod hk
  only uid seat huid := by
    by_cases heq : uid = cur.uid
    · refine ⟨cur.key, cur, ?_, heq.symm⟩
      rw [Informer.deliver, Map.lookup_insert, if_pos rfl]
    · obtain ⟨k, pod, hne, hk, hpod⟩ := honly uid seat huid heq
      refine ⟨k, pod, ?_, hpod⟩
      rw [Informer.deliver, Map.lookup_insert, if_neg hne]
      exact hk

/-- Another version of a pod is delivered, or a pod under a new name. -/
theorem update (hconf : Informer.Conforms Pod.key Pod.uid cache (.upsert cur))
    (hold : ∀ old, cache.lookup cur.key = some old →
      old.uid = cur.uid ∨ seats.lookup old.uid = none) :
    Current opts inv (seats.update opts inv cur)
      (Informer.deliver Pod.key cache (.upsert cur)) := by
  refine h.upsert ?_ ?_ ?_
  · rw [lookup_update, if_pos rfl]
  · intro k pod hne hk
    rw [lookup_update, if_neg]
    exact fun huid => hne (hconf k pod hk huid)
  · intro uid seat huid hne
    rw [lookup_update, if_neg hne] at huid
    obtain ⟨k, pod, hk, rfl⟩ := h.only uid seat huid
    refine ⟨k, pod, ?_, hk, rfl⟩
    rintro rfl
    rcases hold pod hk with heq | hnone
    · exact hne heq
    · rw [hnone] at huid
      cases huid

/-- A pod is replaced under its name. Without the old one, the seating is current. -/
theorem replace {old : Pod} (hcache : cache.Sound)
    (hconf : Informer.Conforms Pod.key Pod.uid cache (.upsert cur))
    (hold : cache.lookup cur.key = some old) (hne : old.uid ≠ cur.uid) :
    Current opts inv ((seats.update opts inv cur).erase old.uid)
      (Informer.deliver Pod.key cache (.upsert cur)) := by
  refine h.upsert ?_ ?_ ?_
  · rw [Map.lookup_erase, if_neg (Ne.symm hne), lookup_update, if_pos rfl]
  · intro k pod hk hpod
    rw [Map.lookup_erase, if_neg, lookup_update, if_neg]
    · exact fun huid => hk (hconf k pod hpod huid)
    · exact fun huid => hk (hcache.distinct k cur.key pod old hpod hold huid)
  · intro uid seat huid hcur
    obtain ⟨hgone, huid⟩ := Map.of_lookup_erase huid
    · rw [lookup_update, if_neg hcur] at huid
      obtain ⟨k, pod, hk, rfl⟩ := h.only uid seat huid
      refine ⟨k, pod, ?_, hk, rfl⟩
      rintro rfl
      rw [hold] at hk
      exact hgone (congrArg _ (Option.some.inj hk).symm)

theorem delete {pod cached : Pod} (hcache : cache.Sound)
    (hcached : cache.lookup pod.key = some cached) (huid : cached.uid = pod.uid) :
    Current opts inv (seats.erase pod.uid) (Informer.deliver Pod.key cache (.delete pod)) where
  seated k pod' hk := by
    obtain ⟨hne, hk⟩ := Map.of_lookup_erase hk
    have hother : pod'.uid ≠ pod.uid := fun heq =>
      hne (hcache.distinct k pod.key pod' cached hk hcached (heq.trans huid.symm))
    have hsame : (seats.erase pod.uid).lookup pod'.uid = seats.lookup pod'.uid := by
      rw [Map.lookup_erase, if_neg hother]
    rw [seatOf_congr hsame, hsame]
    exact h.seated k pod' hk
  only uid seat hseat := by
    obtain ⟨hne, hseat⟩ := Map.of_lookup_erase hseat
    obtain ⟨k, pod', hk, rfl⟩ := h.only uid seat hseat
    refine ⟨k, pod', ?_, rfl⟩
    rw [Informer.deliver, Map.lookup_erase, if_neg]
    · exact hk
    · rintro rfl
      rw [hcached] at hk
      obtain rfl := Option.some.inj hk
      exact hne huid

/-- The nodes change, but not the domains of any node. -/
theorem sameDomains (hsame : ∀ n, inv'.tupleOf n = inv.tupleOf n) :
    Current opts inv' seats cache where
  seated k pod hk := by
    have hplace : State.resolvePlacement opts inv' pod = State.resolvePlacement opts inv pod := by
      unfold State.resolvePlacement
      rw [hsame]
    rw [h.seated k pod hk, seatOf, seatOf, hplace]
  only := h.only

/-- The domains of one node change, and the pods on it move. -/
theorem remap {node : GoString} (hsame : ∀ n, n ≠ node → inv'.tupleOf n = inv.tupleOf n) :
    Current opts inv' (seats.remap node (inv'.tupleOf node)) cache where
  seated k pod hk := by
    have hsub : (seats.remap node (inv'.tupleOf node)).subjectOf opts pod =
        seats.subjectOf opts pod := by
      unfold Seating.subjectOf Seating.remap
      rw [Map.lookup_mapVals]
      cases seats.lookup pod.uid with
      | none => rfl
      | some seat =>
        dsimp only [Option.map_some]
        split <;> rfl
    rw [seatOf, hsub, resolvePlacement_tupleOf opts inv inv' pod, Seating.remap,
      Map.lookup_mapVals, h.seated k pod hk, seatOf]
    cases hplace : State.resolvePlacement opts inv pod with
    | none => rfl
    | some p =>
      obtain ⟨hnode, hdomains⟩ := resolvePlacement_nodeName hplace
      cases seats.subjectOf opts pod with
      | none => rfl
      | some sub =>
        simp only [Option.bind_some, Option.map_some]
        split
        next heq =>
          have hpod : pod.nodeName = node := hnode.symm.trans heq
          rw [hpod]
          rfl
        next hne => rw [hsame _ (hnode ▸ hne), ← hdomains]
  only uid seat huid := by
    rw [Seating.remap, Map.lookup_mapVals] at huid
    obtain ⟨seat', hseat', -⟩ := Option.map_eq_some_iff.1 huid
    exact h.only uid seat' hseat'

theorem nodeUpsert (node : Node) :
    Current opts (inv.upsert node).1 (seats.nodeUpsert inv node) cache := by
  unfold Seating.nodeUpsert
  split
  next => exact h.remap fun n hn => inv.tupleOf_upsert node (Or.inl hn)
  next hsame =>
    exact h.sameDomains fun n => inv.tupleOf_upsert node (Or.inr (Bool.eq_false_iff.2 hsame))

theorem nodeDelete (w : Map.Walk UID) (obj : State.Deleted Node) :
    Current opts (inv.step (.nodeDelete w obj)) (seats.nodeDelete inv obj) cache := by
  unfold Seating.nodeDelete Inventory.step
  dsimp only
  cases obj.obj with
  | none => exact h
  | some node =>
    dsimp only
    split
    next => exact h.remap fun n hn => inv.tupleOf_remove (Or.inl hn)
    next hsame =>
      exact h.sameDomains fun n => inv.tupleOf_remove (Or.inr (Bool.eq_false_iff.2 hsame))

end

end Current

/-! ## Agreement -/

/-- A subject's counters agree with its rebuild if the tallies do on every topology key. -/
theorem Refines.agrees_iff {s : State} (h : Refines s seats) (w : Map.Walk ObjectName)
    (shards : Nat) (sub : SubjectRef) :
    ((∀ key, ((s.rebuildShard opts (cache.list w) (State.shardOf sub shards) shards).lookup
        sub).bind (fun r => r.counts.lookup key) = entry s.counts sub key) ∧
      (sub ∈ s.counts →
        sub ∈ s.rebuildShard opts (cache.list w) (State.shardOf sub shards) shards)) ↔
    ∀ key i, s.keys.idxOf? key = some i →
      tally (rosterCells opts s.inv seats (cache.list w) sub i) = tally (seats.cells sub i) := by
  have hcounts : Counts opts s.inv seats (cache.list w) (State.shardOf sub shards) shards _ :=
    h.rebuildShard (cache.list w) (State.shardOf sub shards) shards
  generalize s.rebuildShard opts (cache.list w) (State.shardOf sub shards) shards = want at hcounts ⊢
  have hwant : ∀ key, (want.lookup sub).bind (fun r => r.counts.lookup key) =
      (s.keys.idxOf? key).bind fun i =>
        tally (rosterCells opts s.inv seats (cache.list w) sub i) := by
    intro key
    refine Eq.trans ?_ (hcounts.counts sub rfl key)
    rw [Map.getD]
    cases want.lookup sub <;> rfl
  constructor
  · rintro ⟨hsame, -⟩ key i hi
    have hkey := hsame key
    rwa [hwant, h.counts.entry, hi] at hkey
  · intro hsame
    have hentry : ∀ key, (want.lookup sub).bind (fun r => r.counts.lookup key) =
        entry s.counts sub key := by
      intro key
      rw [hwant, h.counts.entry]
      cases hi : s.keys.idxOf? key with
      | none => rfl
      | some i => exact hsame key i hi
    refine ⟨hentry, fun hmem => ?_⟩
    -- A tracked subject has an entry on some key, so the rebuild has one too.
    obtain ⟨row, hrow⟩ := Option.ne_none_iff_exists'.1 (Map.mem_iff_ne_none.1 hmem)
    by_contra hnot
    refine h.counts.row sub row hrow (Finmap.ext_lookup fun key => ?_)
    have hnone := hentry key
    rw [Finmap.lookup_eq_none.2 hnot, entry, hrow] at hnone
    exact hnone.symm

/-- What holds of the state and the cache as long as no counted pod is replaced. -/
structure Kept (opts : StateOptions) (sys : System) (seats : Seating) : Prop where
  refines : Refines sys.state seats
  sound : sys.cache.Sound
  current : sys.state.keys ≠ [] → Current opts sys.state.inv seats sys.cache

namespace Kept

variable {sys : System}

theorem new (keys : List TopologyKey) : Kept opts (System.new keys) ∅ where
  refines := Refines.empty _
  sound := Informer.Sound.empty
  current _ := Current.empty

theorem agrees (h : Kept opts sys seats) : sys.Agrees opts := by
  intro w shards sub
  refine (h.refines.agrees_iff w shards sub).2 fun key i hi => ?_
  have hkeys : sys.state.keys ≠ [] := by
    intro hnil
    rw [hnil] at hi
    cases hi
  rw [(h.current hkeys).cells h.sound w sub i]

theorem keys_step (sys : System) (e : Event) (h : Refines sys.state seats) :
    (sys.step opts e).state.keys = sys.state.keys := by
  change (sys.state.step opts e).inv.keys = sys.state.inv.keys
  rw [(step_spec h opts e).1]
  cases e with
  | podAdd pod | podUpdate old cur | podDelete obj => rfl
  | nodeUpsert w node => exact Inventory.upsert_keys _ node
  | nodeDelete w obj =>
    unfold Inventory.step
    dsimp only
    split
    · rfl
    · exact Inventory.remove_keys _ _

variable {cur : Pod} {s' : State} {e : Event}

section

variable (h : Kept opts sys seats)

include h

/-- A pod that is added or updated takes the place of none that is seated. -/
theorem unseated (hsteady : sys.Succeeds cur) (hkeys : sys.state.keys ≠ []) (old : Pod)
    (hold : sys.cache.lookup cur.key = some old) :
    old.uid = cur.uid ∨ seats.lookup old.uid = none := by
  rcases hsteady old hold with heq | hnone | hnil
  · exact Or.inl heq
  · rw [h.refines.placements] at hnone
    exact Or.inr (Option.map_eq_none_iff.1 hnone)
  · exact absurd hnil hkeys

theorem step (hconf : sys.Conformant e) (hsteady : sys.Steady e) :
    Kept opts (sys.step opts e) (seats.step opts sys.state.inv e) := by
  obtain ⟨hinv, hrefines⟩ := step_spec h.refines opts e
  have hkept (hsound : Cache.Sound (System.deliver sys.cache e))
      (hcurrent : sys.state.keys ≠ [] → Current opts sys.state.inv seats sys.cache →
        Current opts (sys.state.inv.step e) (seats.step opts sys.state.inv e)
          (System.deliver sys.cache e)) :
      Kept opts (sys.step opts e) (seats.step opts sys.state.inv e) := by
    refine ⟨hrefines, hsound, fun hkeys => ?_⟩
    rw [keys_step sys _ h.refines] at hkeys
    change Current opts (sys.state.step opts e).inv _ _
    rw [hinv]
    exact hcurrent hkeys (h.current hkeys)
  cases e with
  | podAdd pod =>
    exact hkept (h.sound.upsert hconf) fun hkeys hcur => hcur.update hconf (h.unseated hsteady hkeys)
  | podUpdate old cur =>
    exact hkept (h.sound.upsert hconf.2.2) fun hkeys hcur =>
      hcur.update hconf.2.2 (h.unseated hsteady hkeys)
  | podDelete obj =>
    obtain ⟨pod, cached, hobj, hcached, huid⟩ := hconf
    simp only [System.deliver, Seating.step, Seating.delete, hobj] at hkept ⊢
    exact hkept (h.sound.delete pod) fun _ hcur => hcur.delete h.sound hcached huid
  | nodeUpsert w node => exact hkept h.sound fun _ hcur => hcur.nodeUpsert node
  | nodeDelete w obj => exact hkept h.sound fun _ hcur => hcur.nodeDelete w obj

/-- A counted pod that is replaced stays counted, so that a rebuild finds one pod less. -/
theorem succeeds_of_agrees (hinv : s'.inv = sys.state.inv)
    (hrefines : Refines s' (seats.update opts sys.state.inv cur))
    (hconf : Informer.Conforms Pod.key Pod.uid sys.cache (.upsert cur))
    (hagrees : System.Agrees opts ⟨s', Informer.deliver Pod.key sys.cache (.upsert cur)⟩) :
    sys.Succeeds cur := by
  intro old hold
  by_contra hlost
  obtain ⟨huid, hcounted, hkeys⟩ : old.uid ≠ cur.uid ∧
      sys.state.placements.lookup old.uid ≠ none ∧ sys.state.keys ≠ [] := by
    simpa only [not_or] using hlost
  obtain ⟨seat, hseat⟩ : ∃ seat, seats.lookup old.uid = some seat := by
    rw [h.refines.placements] at hcounted
    exact Option.ne_none_iff_exists'.1 fun hnone => hcounted (by rw [hnone]; rfl)
  obtain ⟨key, rest, hcons⟩ := List.exists_cons_of_ne_nil hkeys
  have hzero : s'.keys.idxOf? key = some 0 := by
    rw [State.keys, hinv]
    change sys.state.keys.idxOf? key = some 0
    rw [hcons, List.idxOf?_cons]
    simp
  have hnew := (h.current hkeys).replace h.sound hconf hold huid
  have hsound : Cache.Sound (Informer.deliver Pod.key sys.cache (.upsert cur)) :=
    h.sound.upsert hconf
  have hstays : (seats.update opts sys.state.inv cur).lookup old.uid = some seat := by
    rw [lookup_update, if_neg huid, hseat]
  -- The rebuild counts the seats without that of the old pod.
  have hroster : rosterCells opts s'.inv (seats.update opts sys.state.inv cur)
        (Cache.list Map.Walk.listed (Informer.deliver Pod.key sys.cache (.upsert cur)))
        seat.subject 0 =
      Seating.cells ((seats.update opts sys.state.inv cur).erase old.uid) seat.subject 0 := by
    rw [hnew.cells hsound Map.Walk.listed, hinv]
    unfold rosterCells
    congr 3
    refine List.filterMap_congr fun pod hpod => (seatOf_congr ?_).symm
    obtain ⟨k, hk⟩ := Cache.mem_list.1 hpod
    rw [Map.lookup_erase, if_neg]
    intro heq
    rcases Map.of_lookup_insert hk with ⟨-, rfl⟩ | ⟨hne, hk⟩
    · exact huid heq.symm
    · exact hne (h.sound.distinct k cur.key pod old hk hold heq)
  have htally := ((hrefines.agrees_iff Map.Walk.listed 0 seat.subject).1
    (hagrees Map.Walk.listed 0 seat.subject)) key 0 hzero
  rw [hroster, Seating.cells_erase hstays, if_pos rfl] at htally
  have hcard := card_eq_of_tally_eq htally
  rw [Multiset.card_cons] at hcard
  omega

theorem steady_of_agrees (hconf : sys.Conformant e) (hagrees : (sys.step opts e).Agrees opts) :
    sys.Steady e := by
  obtain ⟨hinv, hrefines⟩ := step_spec h.refines opts e
  cases e with
  | podAdd pod => exact h.succeeds_of_agrees hinv hrefines hconf hagrees
  | podUpdate old cur => exact h.succeeds_of_agrees hinv hrefines hconf.2.2 hagrees
  | podDelete obj | nodeUpsert w node | nodeDelete w obj => exact trivial

end

end Kept

namespace System

/-- In a run of events as informers deliver them, the counters equal a rebuild after every
    event just if no counted pod is replaced by a new one under its name. -/
theorem counters_equal_rebuild_iff (opts : StateOptions) (keys : List TopologyKey)
    (events : List Event)
    (hconf : Run.Steps (step opts) Conformant (new keys) events) :
    Run.Always (step opts) (Agrees opts) (new keys) events ↔
      Run.Steps (step opts) Steady (new keys) events :=
  Run.always_iff_steps_of_invariant
    (fun sys (hkept : ∃ seats, Kept opts sys seats) => hkept.choose_spec.agrees)
    (fun _ _ ⟨_, hkept⟩ hconf hsteady => ⟨_, hkept.step hconf hsteady⟩)
    (fun _ _ ⟨_, hkept⟩ hconf hagrees => hkept.steady_of_agrees hconf hagrees)
    ⟨∅, Kept.new keys⟩ hconf

def nodeInA : Node := { name := bytes "n1", labels := Finmap.insert zone (bytes "a") ∅ }

/-- A pod of a stateful set, under the name that its replacement gets too. -/
def web0 (uid : UID) : Pod where
  uid := uid
  ns := bytes "shop"
  name := bytes "web-0"
  ownerReferences := [{ kind := bytes "StatefulSet", name := bytes "web", controller := some true }]
  nodeName := bytes "n1"
  phase := bytes "Running"

theorem conforms_of_empty (pod : Pod) : Informer.Conforms Pod.key Pod.uid (∅ : Cache) (.upsert pod) := by
  intro k pod' hk
  cases hk

/-- The pod is deleted before its replacement is added. -/
def deletedFirst : List Event :=
  [.podAdd (web0 (bytes "u1")), .nodeUpsert .listed nodeInA,
    .podDelete (.tombstone (some (web0 (bytes "u1")))), .podAdd (web0 (bytes "u2"))]

theorem deleted_before_replaced_agrees :
    Run.Steps (step {}) Steady (new [zone]) deletedFirst ∧
      Run.Always (step {}) (Agrees {}) (new [zone]) deletedFirst := by
  have hsteady : Run.Steps (step {}) Steady (new [zone]) deletedFirst := by decide +kernel
  refine ⟨hsteady, (counters_equal_rebuild_iff {} [zone] _ ?_).2 hsteady⟩
  refine ⟨conforms_of_empty _, trivial, ⟨web0 (bytes "u1"), web0 (bytes "u1"), rfl,
    by decide +kernel, rfl⟩, ?_, trivial⟩
  intro k pod hk _
  obtain ⟨hne, hk⟩ := Map.of_lookup_erase hk
  rcases Map.of_lookup_insert hk with ⟨heq, -⟩ | ⟨-, hk⟩
  · exact absurd heq hne
  · cases hk

/-- The informer reports the replacement as one update, and both pods stay counted. -/
theorem replaced_pod_stays_counted :
    ∃ events, Run.Steps (step {}) Conformant (new [zone]) events ∧
      ¬(events.foldl (step {}) (new [zone])).Agrees {} := by
  refine ⟨[.nodeUpsert .listed nodeInA, .podAdd (web0 (bytes "u1")),
    .podUpdate (some (web0 (bytes "u1"))) (web0 (bytes "u2"))], ?_, fun hagrees => ?_⟩
  · refine ⟨trivial, conforms_of_empty _, ⟨Option.some_ne_none _, by decide +kernel, ?_⟩,
      trivial⟩
    intro k pod hk _
    rcases Map.of_lookup_insert hk with ⟨heq, -⟩ | ⟨-, hk⟩
    · exact heq
    · cases hk
  · have htotal := congrArg (fun o => o.map (·.total))
      ((hagrees .listed 1 ⟨bytes "StatefulSet", bytes "shop", bytes "web"⟩).1 zone)
    revert htotal
    decide +kernel

end System

end Lookout.TopologyDrift
