-- SUMMARY: A cycle of the verifier heals every subject whose counters differ from a rebuild, whatever events were lost before.
import Lookout.TopologyDrift.Verify

/-!
# Runs of the verifier

A cycle of ticks visits every shard once. Afterwards every subject's counters equal a
rebuild from the cache. The pass compares counters only: a subject whose lost events
cancel out in every count is left as it is, with the wrong pods behind the right numbers.
-/

namespace Lookout.TopologyDrift

open Leeway
open Sources (UID ObjectName)

variable {opts : StateOptions} {s : State} {seats : Seating} {pods : List Pod} {sub : SubjectRef}
  {cache : Cache}

theorem sameDistributions_iff {a b : Map TopologyKey Distribution} :
    sameDistributions a b = true ↔ ∀ key, a.lookup key = b.lookup key := by
  unfold sameDistributions
  rw [decide_eq_true_eq]
  constructor
  · rintro ⟨hleft, hright⟩ key
    by_cases ha : key ∈ a
    · exact hleft key (Finmap.mem_keys.2 ha)
    · have hb : key ∉ b := fun hb => ha (hright key (Finmap.mem_keys.2 hb))
      rw [Finmap.lookup_eq_none.2 ha, Finmap.lookup_eq_none.2 hb]
  · intro h
    refine ⟨fun key _ => h key, fun key hb => ?_⟩
    rw [Map.mem_iff_ne_none, h key]
    exact Map.mem_iff_ne_none.1 (Finmap.mem_keys.1 hb)

theorem Refines.lookup_snapshot (h : Refines s seats) (sub : SubjectRef) (key : TopologyKey) :
    (s.snapshot sub).lookup key =
      (s.inv.keys.idxOf? key).bind fun i => tally (seats.cells sub i) := by
  refine Eq.trans ?_ (h.counts.entry sub key)
  rw [State.snapshot, Map.getD, entry]
  cases s.counts.lookup sub <;> rfl

/-! ## One pass -/

/-- The rebuild of a subject holds its roster and what the roster contributes. -/
structure Wants (opts : StateOptions) (inv : Inventory) (seats : Seating) (pods : List Pod)
    (want : Map SubjectRef State.Rebuilt) (sub : SubjectRef) : Prop where
  listed : (Map.getD want sub {}).pods = roster opts inv seats pods sub
  counts : ∀ key, (Map.getD want sub {}).counts.lookup key =
    (inv.keys.idxOf? key).bind fun i => tally (rosterCells opts inv seats pods sub i)

variable {want : Map SubjectRef State.Rebuilt}

theorem Wants.congr {inv : Inventory} {seats' : Seating} (h : Wants opts inv seats pods want sub)
    (hstable : ∀ pod ∈ pods, seats'.seatOf opts inv pod = seats.seatOf opts inv pod) :
    Wants opts inv seats' pods want sub where
  listed := by rw [h.listed, roster_congr hstable]
  counts key := by simp only [h.counts, rosterCells_congr hstable]

theorem Wants.same_iff (h : Refines s seats) (hwants : Wants opts s.inv seats pods want sub) :
    sameDistributions (Map.getD want sub {}).counts (s.snapshot sub) = true ↔
      Agreed opts s.inv seats pods sub := by
  rw [sameDistributions_iff]
  simp only [hwants.counts, h.lookup_snapshot]
  constructor
  · intro hsame key i hi
    have hkey := hsame key
    rwa [hi] at hkey
  · intro hagreed key
    cases hi : s.inv.keys.idxOf? key with
    | none => rfl
    | some i => exact hagreed key i hi

/-- What the verifier does to one subject. -/
theorem verifySubject_spec (h : Refines s seats) (hpods : (pods.map (·.uid)).Nodup)
    (hwants : Wants opts s.inv seats pods want sub) (o : PassOrder) (n : Nat) :
    (verifySubject opts o want (s, n) sub).1.inv = s.inv ∧
      (Agreed opts s.inv seats pods sub → verifySubject opts o want (s, n) sub = (s, n)) ∧
      ∃ seats', Refines (verifySubject opts o want (s, n) sub).1 seats' ∧
        Healed opts s.inv pods (· = sub) seats seats' := by
  unfold verifySubject
  by_cases hagreed : Agreed opts s.inv seats pods sub
  · have hsame := (Wants.same_iff h hwants).2 hagreed
    simp only [hsame, if_true]
    refine ⟨trivial, fun _ => trivial, seats, h, ?_⟩
    exact (Healed.refl seats).widen (fun _ => False.elim) fun sub' heq => Or.inr (heq ▸ hagreed)
  · have hdiffers : ¬sameDistributions (Map.getD want sub {}).counts (s.snapshot sub) = true :=
      fun hsame => hagreed ((Wants.same_iff h hwants).1 hsame)
    simp only [hdiffers, hwants.listed]
    obtain ⟨hinv, hhealed⟩ := h.repair_healed o.indexed hpods hagreed
    exact ⟨hinv, fun h => absurd h hagreed, hhealed⟩

/-- What the loop of a pass does. -/
theorem foldl_verifySubject_spec (h : Refines s seats) (hpods : (pods.map (·.uid)).Nodup)
    (o : PassOrder) (subs : List SubjectRef)
    (hwants : ∀ sub ∈ subs, Wants opts s.inv seats pods want sub) (n : Nat) :
    (subs.foldl (verifySubject opts o want) (s, n)).1.inv = s.inv ∧
      ((∀ sub ∈ subs, Agreed opts s.inv seats pods sub) →
        subs.foldl (verifySubject opts o want) (s, n) = (s, n)) ∧
      ∃ seats', Refines (subs.foldl (verifySubject opts o want) (s, n)).1 seats' ∧
        Healed opts s.inv pods (· ∈ subs) seats seats' := by
  induction subs generalizing s seats n with
  | nil =>
    refine ⟨rfl, fun _ => rfl, seats, h, ?_⟩
    exact (Healed.refl seats).widen (fun _ => False.elim) fun _ hmem => absurd hmem List.not_mem_nil
  | cons sub subs ih =>
    obtain ⟨hinv, hagreed, seats₁, hrefines, hhealed⟩ :=
      verifySubject_spec h hpods (hwants sub List.mem_cons_self) o n
    rw [List.foldl_cons]
    generalize hacc : verifySubject opts o want (s, n) sub = acc at hinv hagreed hrefines
    obtain ⟨s₁, n₁⟩ := acc
    have hrest : ∀ sub' ∈ subs, Wants opts s₁.inv seats₁ pods want sub' := by
      intro sub' hmem
      rw [show s₁.inv = s.inv from hinv]
      exact (hwants sub' (List.mem_cons_of_mem sub hmem)).congr hhealed.stable
    obtain ⟨hinv', hagreed', seats₂, hrefines', hhealed'⟩ := ih hrefines hrest n₁
    rw [show s₁.inv = s.inv from hinv] at hagreed' hhealed'
    refine ⟨hinv'.trans hinv, fun hall => ?_, seats₂, hrefines', ?_⟩
    · have hfirst : (s₁, n₁) = (s, n) := hagreed (hall sub List.mem_cons_self)
      rw [← hfirst]
      refine hagreed' fun sub' hmem => (hhealed.agreed_congr ?_).2
        (hall sub' (List.mem_cons_of_mem sub hmem))
      exact hhealed.kept sub' (Or.inr (hall sub' (List.mem_cons_of_mem sub hmem)))
    · refine (hhealed.trans hhealed' hpods).widen ?_ ?_
      · rintro sub' (rfl | hmem)
        · exact List.mem_cons_self
        · exact List.mem_cons_of_mem sub hmem
      · exact fun sub' hmem => Or.inl (List.mem_cons.1 hmem)

/-- What the subjects of a shard should be, and which subjects are looked at. -/
theorem wanted_spec (opts : StateOptions) (o : PassOrder) (s : State) (pods : List Pod)
    (shard shards : Nat) (sub : SubjectRef) :
    Map.getD (wanted opts o s pods shard shards) sub {} =
        Map.getD (s.rebuildShard opts pods shard shards) sub {} ∧
      (sub ∈ wanted opts o s pods shard shards ↔ sub ∈ s.rebuildShard opts pods shard shards ∨
        sub ∈ s.counts ∧ State.shardOf sub shards = shard) := by
  have htracked : sub ∈ s.subjectsInShard o.tracked shard shards ↔
      sub ∈ s.counts ∧ State.shardOf sub shards = shard := by
    rw [State.subjectsInShard, List.mem_filter, Map.mem_walk, decide_eq_true_eq]
  rw [wanted, ← htracked]
  generalize s.rebuildShard opts pods shard shards = want
  induction s.subjectsInShard o.tracked shard shards generalizing want with
  | nil => exact ⟨rfl, by simp⟩
  | cons sub' subs ih =>
    rw [List.foldl_cons]
    obtain ⟨hget, hmem⟩ := ih (if sub' ∈ want then want else want.insert sub' {})
    rw [hget, hmem]
    by_cases hsub : sub' ∈ want
    · rw [if_pos hsub]
      refine ⟨rfl, ?_⟩
      rw [List.mem_cons]
      constructor
      · exact fun h => h.imp_right Or.inr
      · rintro (h | rfl | h)
        · exact Or.inl h
        · exact Or.inl hsub
        · exact Or.inr h
    · rw [if_neg hsub, Map.getD_insert, Finmap.mem_insert, List.mem_cons]
      refine ⟨?_, by tauto⟩
      split
      next heq =>
        rw [Map.getD, heq, Finmap.lookup_eq_none.2 hsub]
        rfl
      next => rfl

/-- What a pass over a shard does. -/
theorem verifyShard_spec (opts : StateOptions) (h : Refines s seats)
    (hpods : (pods.map (·.uid)).Nodup) (o : PassOrder) (shard shards : Nat) :
    let r := verifyShard opts o s (some pods) shard shards
    r.1.inv = s.inv ∧ r.2.failed = false ∧
      ((∀ sub, Agreed opts s.inv seats pods sub) → r.1 = s ∧ r.2.drifted = 0) ∧
      ∃ seats', Refines r.1 seats' ∧
        Healed opts s.inv pods (fun sub => State.shardOf sub shards = shard) seats seats' := by
  have hcounts : Counts opts s.inv seats pods shard shards _ := h.rebuildShard pods shard shards
  have hwanted := wanted_spec opts o s pods shard shards
  have hmem : ∀ sub ∈ Map.walk o.want (wanted opts o s pods shard shards),
      State.shardOf sub shards = shard := by
    intro sub hsub
    rcases (hwanted sub).2.1 (Map.mem_walk.1 hsub) with hsub | hsub
    · exact ((hcounts.mem sub).1 hsub).1
    · exact hsub.2
  have hwants : ∀ sub ∈ Map.walk o.want (wanted opts o s pods shard shards),
      Wants opts s.inv seats pods (wanted opts o s pods shard shards) sub := by
    intro sub hsub
    constructor
    · rw [(hwanted sub).1]
      exact hcounts.listed sub (hmem sub hsub)
    · rw [(hwanted sub).1]
      exact hcounts.counts sub (hmem sub hsub)
  obtain ⟨hinv, hagreed, seats', hrefines, hhealed⟩ := foldl_verifySubject_spec h hpods o
    (Map.walk o.want (wanted opts o s pods shard shards)) hwants 0
  refine ⟨hinv, rfl, fun hall => ?_, seats', hrefines, hhealed.widen hmem fun sub hshard => ?_⟩
  · have hsame := hagreed fun sub _ => hall sub
    exact ⟨congrArg Prod.fst hsame, congrArg Prod.snd hsame⟩
  · -- A subject of the shard that is not looked at has no pods on either side.
    by_cases hsub : sub ∈ wanted opts o s pods shard shards
    · exact Or.inl (Map.mem_walk.2 hsub)
    · right
      have hnot := mt (hwanted sub).2.2 hsub
      rw [not_or, not_and] at hnot
      intro key i hi
      have hzero : tally (rosterCells opts s.inv seats pods sub i) = none := by
        have hwant := hcounts.counts sub hshard key
        rw [hi, Option.bind_some, Map.getD, Finmap.lookup_eq_none.2 hnot.1] at hwant
        exact hwant.symm
      have huntracked : sub ∉ s.counts := fun hin => hnot.2 hin hshard
      have hnone := h.counts.entry sub key
      rw [show s.keys.idxOf? key = some i from hi, entry, Finmap.lookup_eq_none.2 huntracked] at hnone
      rw [hzero]
      exact hnone

/-! ## Ticks in a row -/

theorem Cache.list_perm (w w' : Map.Walk ObjectName) (cache : Cache) :
    (cache.list w).Perm (cache.list w') :=
  ((w.perm _).trans (w'.perm _).symm).filterMap _

/-- What ticks in a row do. The cache is listed in one order of our choice. -/
theorem ticks_spec (opts : StateOptions) (hcache : cache.Sound) (w : Map.Walk ObjectName)
    (os : List PassOrder) (v : Verifier) (h : Refines s seats) :
    let r := v.ticks opts cache s os
    r.2.1.inv = s.inv ∧
      ((∀ sub, Agreed opts s.inv seats (cache.list w) sub) →
        r.2.1 = s ∧ ∀ rep ∈ r.2.2, rep.failed = false ∧ rep.drifted = 0) ∧
      ∃ seats', Refines r.2.1 seats' ∧
        Healed opts s.inv (cache.list w) (fun sub => ∃ j < os.length,
          State.shardOf sub v.shards = (v.shard + j) % v.shards) seats seats' := by
  induction os generalizing v s seats with
  | nil =>
    refine ⟨rfl, fun _ => ⟨rfl, fun rep hrep => absurd hrep List.not_mem_nil⟩, seats, h, ?_⟩
    refine (Healed.refl seats).widen (fun _ => False.elim) ?_
    rintro sub ⟨j, hj, -⟩
    exact absurd hj (Nat.not_lt_zero j)
  | cons o os ih =>
    obtain ⟨hinv, hok, hagreed, seats₁, hrefines, hhealed⟩ :=
      verifyShard_spec opts h (hcache.nodup_uids o.cache) o v.shard v.shards
    have hperm := Cache.list_perm o.cache w cache
    let v' : Verifier := (v.tick opts o s (some (cache.list o.cache))).1
    obtain ⟨hinv', hagreed', seats₂, hrefines', hhealed'⟩ := ih v' hrefines
    rw [hinv] at hagreed' hhealed'
    refine ⟨hinv'.trans hinv, fun hall => ?_, seats₂, hrefines', ?_⟩
    · obtain ⟨hsame, hzero⟩ := hagreed fun sub => (hall sub).perm hperm.symm
      have hstill : ∀ sub, Agreed opts s.inv seats₁ (cache.list w) sub := fun sub =>
        ((hhealed.perm hperm).agreed_congr
          ((hhealed.perm hperm).kept sub (Or.inr (hall sub)))).2 (hall sub)
      obtain ⟨hsame', hreports⟩ := hagreed' hstill
      refine ⟨hsame'.trans hsame, fun rep hrep => ?_⟩
      rcases List.mem_cons.1 hrep with rfl | hrep
      · exact ⟨hok, hzero⟩
      · exact hreports rep hrep
    · refine ((hhealed.perm hperm).trans hhealed' (hcache.nodup_uids w)).widen ?_ ?_
      · rintro sub (hshard | ⟨j, hj, hshard⟩)
        · refine ⟨0, Nat.zero_lt_succ _, ?_⟩
          rw [Nat.add_zero, Nat.mod_eq_of_lt v.inRange]
          exact hshard
        · refine ⟨j + 1, Nat.succ_lt_succ hj, hshard.trans ?_⟩
          change ((v.shard + 1) % v.shards + j) % v.shards = _
          rw [Nat.mod_add_mod, Nat.add_right_comm, Nat.add_assoc]
      · rintro sub ⟨j, hj, hshard⟩
        left
        cases j with
        | zero =>
          left
          rwa [Nat.add_zero, Nat.mod_eq_of_lt v.inRange] at hshard
        | succ j =>
          right
          refine ⟨j, Nat.lt_of_succ_lt_succ hj, hshard.trans ?_⟩
          change _ = ((v.shard + 1) % v.shards + j) % v.shards
          rw [Nat.mod_add_mod, Nat.add_right_comm, Nat.add_assoc]

theorem shardOf_lt (sub : SubjectRef) {shards : Nat} (h : 0 < shards) :
    State.shardOf sub shards < shards := by
  unfold State.shardOf
  split
  next => exact h
  next =>
    have hhash : (fnv32a sub.string).toNat < 2 ^ 32 := (fnv32a sub.string).toNat_lt
    rcases Nat.eq_zero_or_pos (shards % 2 ^ 32) with hzero | hpos
    · have hle : 2 ^ 32 ≤ shards := Nat.le_of_dvd h (Nat.dvd_of_mod_eq_zero hzero)
      rw [hzero, Nat.mod_zero]
      exact Nat.lt_of_lt_of_le hhash hle
    · exact Nat.lt_of_lt_of_le (Nat.mod_lt _ hpos) (Nat.mod_le shards _)

/-- A cycle visits every shard. -/
theorem visited_in_cycle (v : Verifier) (sub : SubjectRef) :
    ∃ j < v.shards, State.shardOf sub v.shards = (v.shard + j) % v.shards := by
  have hpos : 0 < v.shards := Nat.zero_lt_of_lt v.inRange
  have hsub := shardOf_lt sub hpos
  have hin := v.inRange
  refine ⟨(State.shardOf sub v.shards + (v.shards - v.shard)) % v.shards, Nat.mod_lt _ hpos, ?_⟩
  have hsum : v.shard + (State.shardOf sub v.shards + (v.shards - v.shard)) =
      State.shardOf sub v.shards + v.shards := by omega
  rw [Nat.add_mod_mod, hsum, Nat.add_mod_right, Nat.mod_eq_of_lt hsub]

/-! ## The state after a cycle -/

namespace System

/-- One subject's distributions are those a rebuild of its shard computes, and it is
    tracked only if the rebuild has it. -/
def AgreesOn (opts : StateOptions) (sys : System) (sub : SubjectRef) : Prop :=
  ∀ (w : Map.Walk ObjectName) (shards : Nat),
    let want := sys.state.rebuildShard opts (sys.cache.list w) (State.shardOf sub shards) shards
    (∀ key, (want.lookup sub).bind (fun r => r.counts.lookup key) =
      entry sys.state.counts sub key) ∧ (sub ∈ sys.state.counts → sub ∈ want)

/-- The pods counted under the subject and their placements are those of the cache. -/
def CountedAsCached (opts : StateOptions) (sys : System) (sub : SubjectRef) : Prop :=
  ∀ uid p, sys.state.subjects.lookup uid = some sub ∧ sys.state.placements.lookup uid = some p ↔
    ∃ k pod, sys.cache.lookup k = some pod ∧ pod.uid = uid ∧
      sys.state.subjectOf opts pod = some sub ∧
      State.resolvePlacement opts sys.state.inv pod = some p

variable {sys : System}

theorem agreesOn_iff (h : Refines sys.state seats) (w : Map.Walk ObjectName) :
    sys.AgreesOn opts sub ↔ Agreed opts sys.state.inv seats (sys.cache.list w) sub := by
  constructor
  · exact fun hagrees => (h.agrees_iff w 0 sub).1 (hagrees w 0)
  · intro hagreed w' shards
    exact (h.agrees_iff w' shards sub).2 (hagreed.perm (Cache.list_perm w w' sys.cache))

theorem countedAsCached_iff (h : Refines sys.state seats) (w : Map.Walk ObjectName) :
    sys.CountedAsCached opts sub ↔ SeatedUnder opts sys.state.inv seats (sys.cache.list w) sub := by
  have hcounted : ∀ uid p, (sys.state.subjects.lookup uid = some sub ∧
      sys.state.placements.lookup uid = some p) ↔ seats.lookup uid = some ⟨sub, p⟩ := by
    intro uid p
    rw [h.subjects, h.placements]
    cases seats.lookup uid with
    | none => simp
    | some seat =>
      obtain ⟨sub', p'⟩ := seat
      simp
  have hcached : ∀ uid p, (∃ k pod, sys.cache.lookup k = some pod ∧ pod.uid = uid ∧
        sys.state.subjectOf opts pod = some sub ∧
        State.resolvePlacement opts sys.state.inv pod = some p) ↔
      ∃ pod ∈ sys.cache.list w, pod.uid = uid ∧
        seats.seatOf opts sys.state.inv pod = some ⟨sub, p⟩ := by
    intro uid p
    simp only [seatOf_eq_some, h.subjectOf]
    constructor
    · rintro ⟨k, pod, hpod, huid, hsub, hplace⟩
      exact ⟨pod, Cache.mem_list.2 ⟨k, hpod⟩, huid, hplace, hsub⟩
    · rintro ⟨pod, hmem, huid, hplace, hsub⟩
      obtain ⟨k, hpod⟩ := Cache.mem_list.1 hmem
      exact ⟨k, pod, hpod, huid, hsub, hplace⟩
  constructor
  · rintro hall uid ⟨sub', p⟩ rfl
    exact (hcounted uid p).symm.trans ((hall uid p).trans (hcached uid p))
  · intro hseated uid p
    exact (hcounted uid p).trans ((hseated uid ⟨sub, p⟩ rfl).trans (hcached uid p).symm)

/-- The state after some events, whichever were lost, refines a seating. -/
theorem refines_heard (opts : StateOptions) (keys : List TopologyKey) (heard : List Event) :
    ∃ seats, Refines (heard.foldl (State.step opts) { inv := Inventory.new keys }) seats := by
  induction heard using List.reverseRecOn with
  | nil => exact ⟨∅, Refines.empty _⟩
  | append_singleton es e ih =>
    obtain ⟨seats, h⟩ := ih
    rw [List.foldl_append]
    exact ⟨_, (step_spec h opts e).2⟩

/-- After a cycle of the verifier, over a cache that stays as it is, the counters equal a
    rebuild and later ticks find no drift. The pods of every subject that was repaired are
    those of the cache. If that was so of the subjects that were not, then it holds of all,
    and the counters keep equal to a rebuild as long as no counted pod is replaced. -/
theorem verifier_heals (opts : StateOptions) (keys : List TopologyKey) (heard : List Event)
    (cache : Cache) (hcache : cache.Sound) (v : Verifier) (first : List PassOrder)
    (hfirst : first.length = v.shards) :
    let sys : System := ⟨heard.foldl (State.step opts) { inv := Inventory.new keys }, cache⟩
    let cycle := v.ticks opts cache sys.state first
    let healed : System := ⟨cycle.2.1, cache⟩
    healed.Agrees opts ∧
      (∀ later, ∀ rep ∈ (cycle.1.ticks opts cache healed.state later).2.2,
        rep.failed = false ∧ rep.drifted = 0) ∧
      (∀ sub, ¬sys.AgreesOn opts sub → healed.CountedAsCached opts sub) ∧
      ((∀ sub, sys.AgreesOn opts sub → sys.CountedAsCached opts sub) →
        (∀ sub, healed.CountedAsCached opts sub) ∧
        ∀ events, Run.Steps (step opts) (fun sys e => sys.Conformant e ∧ sys.Steady e) healed events →
          Run.Always (step opts) (Agrees opts) healed events) := by
  intro sys cycle healed
  obtain ⟨seats, hrefines⟩ := refines_heard opts keys heard
  obtain ⟨hinv, -, seats', hrefines', hhealed⟩ :=
    ticks_spec opts hcache .listed first v hrefines
  rw [hfirst] at hhealed
  have hinv' : healed.state.inv = sys.state.inv := hinv
  have hagreed : ∀ sub, Agreed opts healed.state.inv seats' (cache.list .listed) sub := by
    intro sub
    rw [hinv']
    exact hhealed.agreed (hcache.nodup_uids .listed) (visited_in_cycle v sub)
  have hrepaired : ∀ sub, ¬sys.AgreesOn opts sub → healed.CountedAsCached opts sub := by
    intro sub hdiffers
    refine (countedAsCached_iff hrefines' .listed).2 ?_
    rw [hinv']
    exact hhealed.seated sub (visited_in_cycle v sub)
      fun h => hdiffers ((agreesOn_iff hrefines .listed).2 h)
  refine ⟨fun w shards sub => ?_, fun later => ?_, hrepaired, fun hothers => ?_⟩
  · have hagrees : healed.AgreesOn opts sub := (agreesOn_iff hrefines' .listed).2 (hagreed sub)
    exact hagrees w shards
  · exact ((ticks_spec opts hcache .listed later cycle.1 hrefines').2.1 hagreed).2
  · have hall : ∀ sub, healed.CountedAsCached opts sub := by
      intro sub
      by_cases hagrees : sys.AgreesOn opts sub
      · have hseated := (countedAsCached_iff hrefines .listed).1 (hothers sub hagrees)
        have hkept := hhealed.kept sub (Or.inr ((agreesOn_iff hrefines .listed).1 hagrees))
        refine (countedAsCached_iff hrefines' .listed).2 ?_
        rw [hinv']
        exact hhealed.seatedUnder hkept hseated
      · exact hrepaired sub hagrees
    refine ⟨hall, fun events hsteps => ?_⟩
    have hkept : Kept opts healed seats' := by
      refine ⟨hrefines', hcache, fun _ => (current_iff hcache .listed).2 fun sub => ?_⟩
      exact (countedAsCached_iff hrefines' .listed).1 (hall sub)
    have halways : Run.Always (step opts) (fun sys => ∃ seats, Kept opts sys seats) healed events :=
      hsteps.always (fun _ _ ⟨_, h⟩ hlaw => ⟨_, h.step hlaw.1 hlaw.2⟩) ⟨seats', hkept⟩
    intro pre hpre
    obtain ⟨_, h⟩ := halways pre hpre
    exact h.agrees

/-- A pod of the same stateful set that counts like `web0`. -/
def web1 : Pod := { web0 (bytes "u2") with name := bytes "web-1" }

def webSet : SubjectRef := ⟨bytes "StatefulSet", bytes "shop", bytes "web"⟩

/-- The cache after the deletion of `web0`. -/
def onlyWeb1 : Cache := Informer.deliver Pod.key ∅ (.upsert web1)

theorem sound_onlyWeb1 : onlyWeb1.Sound := Informer.Sound.empty.upsert (conforms_of_empty web1)

theorem of_onlyWeb1 {k : ObjectName} {pod : Pod} (h : onlyWeb1.lookup k = some pod) : pod = web1 := by
  rcases Map.of_lookup_insert h with ⟨-, hpod⟩ | ⟨-, h⟩
  · exact hpod.symm
  · cases h

/-- Both pods were heard of, the deletion of the first one was not. -/
def lostDeletion : List Event :=
  [.nodeUpsert .listed nodeInA, .podAdd (web0 (bytes "u1")), .podAdd web1]

/-- The deletion of a pod was lost. One tick forgets the pod, and the next deletion is
    counted. -/
theorem lost_deletion_healed :
    let sys : System := ⟨lostDeletion.foldl (State.step {}) { inv := Inventory.new [zone] }, onlyWeb1⟩
    let healed : System := ⟨(Verifier.ticks {} onlyWeb1 (.new 1) sys.state [{}]).2.1, onlyWeb1⟩
    ¬sys.AgreesOn {} webSet ∧ healed.CountedAsCached {} webSet ∧
      Run.Always (step {}) (Agrees {}) healed [.podDelete (.object web1)] := by
  intro sys healed
  have hdiffers : ¬sys.AgreesOn {} webSet := by
    intro hagrees
    have htotal := congrArg (fun o => o.map (·.total)) ((hagrees .listed 1).1 zone)
    revert htotal
    decide +kernel
  have hsubjects : ∀ uid ∈ sys.state.subjects.keys,
      (sys.state.subjects.lookup uid).all (· = webSet) = true := by decide +kernel
  have hothers : ∀ sub, sys.AgreesOn {} sub → sys.CountedAsCached {} sub := by
    intro sub hagrees uid p
    have hsub : sub ≠ webSet := fun h => hdiffers (h ▸ hagrees)
    constructor
    · rintro ⟨hcounted, -⟩
      exact absurd (of_decide_eq_true (Map.forall_lookup_of_keys hsubjects uid sub hcounted)) hsub
    · rintro ⟨k, pod, hpod, -, hof, -⟩
      rw [of_onlyWeb1 hpod] at hof
      have hweb : sys.state.subjectOf {} web1 = some webSet := by decide +kernel
      exact absurd (Option.some.inj (hof.symm.trans hweb)) hsub
  obtain ⟨-, -, hrepaired, hall⟩ := verifier_heals {} [zone] lostDeletion onlyWeb1 sound_onlyWeb1
    (.new 1) [{}] rfl
  exact ⟨hdiffers, hrepaired webSet hdiffers, (hall hothers).2 _
    ⟨⟨⟨web1, web1, rfl, by decide +kernel, rfl⟩, trivial⟩, trivial⟩⟩

/-- The deletion of one pod and the addition of another one were lost. The counts are the
    same, so the cycle repairs nothing, and the next deletion is not counted. -/
theorem cancelling_losses_unseen :
    ∃ (heard : List Event) (cache : Cache) (sub : SubjectRef) (e : Event), cache.Sound ∧
      let healed : System := ⟨(Verifier.ticks {} cache (.new 1)
        (heard.foldl (State.step {}) { inv := Inventory.new [zone] }) [{}]).2.1, cache⟩
      ¬healed.CountedAsCached {} sub ∧ healed.Conformant e ∧ healed.Steady e ∧
        ¬(healed.step {} e).Agrees {} := by
  refine ⟨[.nodeUpsert .listed nodeInA, .podAdd (web0 (bytes "u1"))], onlyWeb1, webSet,
    .podDelete (.object web1), sound_onlyWeb1, ?_, ?_, trivial, ?_⟩
  · intro hcounted
    have hold := (hcounted (bytes "u1") ⟨bytes "n1", [bytes "a"], .running, false⟩).1
      (by decide +kernel)
    obtain ⟨k, pod, hpod, huid, -⟩ := hold
    rw [of_onlyWeb1 hpod] at huid
    exact absurd huid (by decide +kernel)
  · exact ⟨web1, web1, rfl, by decide +kernel, rfl⟩
  · intro hagrees
    have htotal := congrArg (fun o => o.map (·.total))
      ((hagrees .listed 1 webSet).1 zone)
    revert htotal
    decide +kernel

end System

end Lookout.TopologyDrift
