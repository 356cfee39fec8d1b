-- SUMMARY: What a rebuild from the pod cache computes, and when a seating is that of the cache.
import Lookout.Lib.Informer
import Lookout.TopologyDrift.Seating

/-!
# Rebuild

A rebuild counts the pods of the cache from nothing. Per subject it is the tally of the
seats that the cached pods should have. A seating is current when each cached pod has the
seat it should have and no other pod has one. Then the rebuild finds what is counted.
-/

namespace Lookout.TopologyDrift

open Leeway
open Sources (UID ObjectName)

/-! ## The result of a rebuild -/

section

variable (opts : StateOptions) (inv : Inventory) (seats : Seating) (pods : List Pod) (pod : Pod)
  (sub : SubjectRef)

/-- The pods that should be counted under a subject. -/
def roster : List Pod :=
  pods.filter fun pod => (seats.seatOf opts inv pod).map (·.subject) = some sub

/-- What these pods should contribute on one topology key. -/
def rosterCells (i : Nat) : Multiset Cell :=
  (((pods.filterMap (seats.seatOf opts inv)).filter fun seat => seat.subject = sub).map
    fun seat => seat.placement.cell i : List Cell)

/-- The seats under a subject are those that these pods should have. -/
def SeatedUnder : Prop :=
  ∀ uid seat, seat.subject = sub →
    (seats.lookup uid = some seat ↔
      ∃ pod ∈ pods, pod.uid = uid ∧ seats.seatOf opts inv pod = some seat)

/-- The seats that pods should have, with their uids. -/
def rosterEntries : List (Sigma fun _ : UID => Seat) :=
  pods.filterMap fun pod => (seats.seatOf opts inv pod).map fun seat => ⟨pod.uid, seat⟩

theorem roster_append :
    roster opts inv seats (pods ++ [pod]) sub = roster opts inv seats pods sub ++
      if (seats.seatOf opts inv pod).map (·.subject) = some sub then [pod] else [] := by
  rw [roster, List.filter_append, roster, List.filter_cons]
  simp only [decide_eq_true_eq, List.filter_nil]

theorem rosterCells_append (i : Nat) :
    rosterCells opts inv seats (pods ++ [pod]) sub i =
      match seats.seatOf opts inv pod with
      | none => rosterCells opts inv seats pods sub i
      | some seat => if seat.subject = sub then
          seat.placement.cell i ::ₘ rosterCells opts inv seats pods sub i
        else rosterCells opts inv seats pods sub i := by
  unfold rosterCells
  rw [List.filterMap_append, List.filter_append, List.map_append]
  cases hseat : seats.seatOf opts inv pod with
  | none => simp [hseat]
  | some seat =>
    by_cases hsub : seat.subject = sub
    · simp only [List.filterMap_cons_some hseat, List.filterMap_nil, List.filter_cons,
        List.filter_nil, hsub, decide_true, if_true, List.map_singleton]
      rw [← Multiset.coe_add, Multiset.coe_singleton, Multiset.add_comm, Multiset.singleton_add]
    · simp [hseat, hsub]

end

variable {opts : StateOptions} {s : State} {seats seats' : Seating} {inv inv' : Inventory}
  {pods : List Pod} {pod : Pod} {sub : SubjectRef}

/-- What a rebuild holds about one subject. -/
structure Counts (opts : StateOptions) (inv : Inventory) (seats : Seating) (pods : List Pod)
    (shard shards : Nat) (out : Map SubjectRef State.Rebuilt) : Prop where
  listed : ∀ sub, State.shardOf sub shards = shard →
    (Map.getD out sub {}).pods = roster opts inv seats pods sub
  counts : ∀ sub, State.shardOf sub shards = shard → ∀ key,
    (Map.getD out sub {}).counts.lookup key =
      (inv.keys.idxOf? key).bind fun i => tally (rosterCells opts inv seats pods sub i)
  mem : ∀ sub, sub ∈ out ↔
    State.shardOf sub shards = shard ∧ roster opts inv seats pods sub ≠ []

theorem Refines.rebuildPod (h : Refines s seats) {shard shards : Nat}
    {out : Map SubjectRef State.Rebuilt} (hout : Counts opts s.inv seats pods shard shards out)
    (pod : Pod) :
    Counts opts s.inv seats (pods ++ [pod]) shard shards (s.rebuildPod opts shard shards out pod) := by
  -- A pod without a seat, or of another shard, changes nothing that is looked at.
  have hskip : (∀ seat, seats.seatOf opts s.inv pod = some seat →
        State.shardOf seat.subject shards ≠ shard) →
      Counts opts s.inv seats (pods ++ [pod]) shard shards out := by
    intro hother
    have hroster : ∀ sub, State.shardOf sub shards = shard →
        roster opts s.inv seats (pods ++ [pod]) sub = roster opts s.inv seats pods sub := by
      intro sub hsub
      rw [roster_append, if_neg, List.append_nil]
      intro hsubject
      obtain ⟨seat, hseat, rfl⟩ := Option.map_eq_some_iff.1 hsubject
      exact hother seat hseat hsub
    constructor
    · intro sub hsub
      rw [hroster sub hsub]
      exact hout.listed sub hsub
    · intro sub hsub key
      rw [hout.counts sub hsub key]
      congr 1
      funext i
      rw [rosterCells_append]
      cases hseat : seats.seatOf opts s.inv pod with
      | none => rfl
      | some seat =>
        have hne : seat.subject ≠ sub := fun heq => hother seat hseat (heq ▸ hsub)
        dsimp only
        rw [if_neg hne]
    · intro sub
      rw [hout.mem]
      exact and_congr_right fun hsub => by rw [hroster sub hsub]
  have hseatOf : seats.seatOf opts s.inv pod =
      (State.resolvePlacement opts s.inv pod).bind fun p =>
        (s.subjectOf opts pod).map fun sub => ⟨sub, p⟩ := by
    rw [Seating.seatOf, h.subjectOf]
  unfold State.rebuildPod
  split
  next p sub hplace hsub =>
    have hseat : seats.seatOf opts s.inv pod = some ⟨sub, p⟩ := by
      rw [hseatOf, hplace, hsub]
      rfl
    split
    next hshard =>
      refine hskip fun seat hseat' => ?_
      rw [← Option.some.inj (hseat.symm.trans hseat')]
      exact hshard
    next hshard =>
      have hshard : State.shardOf sub shards = shard := not_not.1 hshard
      constructor
      · intro sub' hsub'
        rw [Map.getD_insert, roster_append, hseat]
        by_cases heq : sub' = sub
        · subst heq
          simp [hout.listed sub' hsub']
        · simp [heq, Ne.symm heq, hout.listed sub' hsub']
      · intro sub' hsub' key
        rw [Map.getD_insert]
        by_cases heq : sub' = sub
        · subst heq
          rw [if_pos rfl]
          change (s.inv.keys.zipIdx.foldl (State.applyAxis p 1)
            (Map.getD out sub' {}).counts).lookup key = _
          rw [State.lookup_applyAxes one_ne_zero p s.inv.distinct, hout.counts sub' hsub' key]
          simp only [rosterCells_append, hseat, Nat.zero_add]
          cases s.inv.keys.idxOf? key <;> rfl
        · rw [if_neg heq, hout.counts sub' hsub' key]
          simp only [rosterCells_append, hseat, if_neg (Ne.symm heq)]
      · intro sub'
        rw [Finmap.mem_insert, hout.mem, roster_append, hseat]
        by_cases heq : sub' = sub
        · subst heq
          simp [hshard]
        · simp [heq, Ne.symm heq]
  next hnone =>
    refine hskip fun seat hseat => ?_
    rw [hseatOf] at hseat
    obtain ⟨p, hplace, hrest⟩ := Option.bind_eq_some_iff.1 hseat
    obtain ⟨sub, hsub, -⟩ := Option.map_eq_some_iff.1 hrest
    exact absurd hsub (hnone p sub hplace)

/-- A rebuild counts what the cached pods of the shard should contribute. -/
theorem Refines.rebuildShard (h : Refines s seats) (pods : List Pod) (shard shards : Nat) :
    Counts opts s.inv seats pods shard shards (s.rebuildShard opts pods shard shards) := by
  induction pods using List.reverseRecOn with
  | nil =>
    constructor
    · exact fun _ _ => rfl
    · intro sub _ key
      cases s.inv.keys.idxOf? key <;> rfl
    · exact fun sub => iff_of_false Finmap.notMem_empty fun hmem => hmem.2 rfl
  | append_singleton pods pod ih =>
    rw [State.rebuildShard, List.foldl_append]
    exact h.rebuildPod ih pod

/-! ## Seats that pods should have -/

namespace Seating

theorem seatOf_congr (h : seats'.lookup pod.uid = seats.lookup pod.uid) :
    seats'.seatOf opts inv pod = seats.seatOf opts inv pod := by
  rw [seatOf, seatOf, subjectOf, subjectOf, h]

/-- A pod that has the seat it should have should keep it. -/
theorem seatOf_of_lookup (h : seats'.lookup pod.uid = seats.seatOf opts inv pod) :
    seats'.seatOf opts inv pod = seats.seatOf opts inv pod := by
  unfold seatOf at h ⊢
  cases hplace : State.resolvePlacement opts inv pod with
  | none => rfl
  | some p =>
    rw [hplace, Option.bind_some] at h
    simp only [Option.bind_some]
    cases hsub : seats.subjectOf opts pod with
    | some sub =>
      rw [hsub] at h
      rw [subjectOf, h]
      rfl
    | none =>
      rw [hsub] at h
      have hresolve : resolveSubject pod opts.owners = none := by
        unfold subjectOf at hsub
        split at hsub
        next => cases hsub
        next => exact hsub
      rw [subjectOf, h]
      exact congrArg _ hresolve

theorem lookup_update (opts : StateOptions) (inv : Inventory) (seats : Seating) (pod : Pod)
    (uid : UID) : (seats.update opts inv pod).lookup uid =
      if uid = pod.uid then seats.seatOf opts inv pod else seats.lookup uid := by
  unfold update
  cases seats.seatOf opts inv pod with
  | none => exact Map.lookup_erase seats pod.uid uid
  | some seat => exact Map.lookup_insert seats pod.uid uid seat

end Seating

/-- The placement of a pod depends on its node only through the domains. -/
theorem resolvePlacement_tupleOf (opts : StateOptions) (inv inv' : Inventory) (pod : Pod) :
    State.resolvePlacement opts inv' pod = (State.resolvePlacement opts inv pod).map fun p =>
      { p with domains := inv'.tupleOf pod.nodeName } := by
  unfold State.resolvePlacement
  cases podState pod <;> rfl

theorem resolvePlacement_nodeName {p : Placement}
    (h : State.resolvePlacement opts inv pod = some p) :
    p.nodeName = pod.nodeName ∧ p.domains = inv.tupleOf pod.nodeName := by
  unfold State.resolvePlacement at h
  split at h
  next => cases h
  next =>
    rw [← Option.some.inj h]
    exact ⟨rfl, rfl⟩

/-! ## Current seatings -/

/-- The pod cache. -/
abbrev Cache : Type := Map ObjectName Pod

/-- The pods of the cache in the order it lists them. -/
def Cache.list (w : Map.Walk ObjectName) (cache : Cache) : List Pod :=
  (Map.walk w cache).filterMap cache.lookup

/-- A cached pod is found under its name, and no two of them share a uid. -/
def Cache.Sound (cache : Cache) : Prop := Informer.Sound Pod.key Pod.uid cache

/-- Each cached pod has the seat it should have, and no other pod has one. -/
structure Current (opts : StateOptions) (inv : Inventory) (seats : Seating) (cache : Cache) :
    Prop where
  seated : ∀ k pod, cache.lookup k = some pod → seats.lookup pod.uid = seats.seatOf opts inv pod
  only : ∀ uid seat, seats.lookup uid = some seat → ∃ k pod, cache.lookup k = some pod ∧ pod.uid = uid

variable {cache : Cache} {w : Map.Walk ObjectName}

theorem Cache.mem_list : pod ∈ cache.list w ↔ ∃ k, cache.lookup k = some pod := by
  rw [Cache.list, List.mem_filterMap]
  constructor
  · rintro ⟨k, -, hk⟩
    exact ⟨k, hk⟩
  · rintro ⟨k, hk⟩
    exact ⟨k, Map.mem_walk.2 (Finmap.mem_of_lookup_eq_some hk), hk⟩

/-- The cache lists no uid twice. -/
theorem Cache.Sound.nodup_uids (h : cache.Sound) (w : Map.Walk ObjectName) :
    ((cache.list w).map (·.uid)).Nodup := by
  rw [Cache.list, List.map_filterMap]
  refine (Map.nodup_walk w cache).filterMap fun k k' uid hk hk' => ?_
  obtain ⟨pod, hpod, rfl⟩ := Option.map_eq_some_iff.1 hk
  obtain ⟨pod', hpod', huid⟩ := Option.map_eq_some_iff.1 hk'
  exact h.distinct k k' pod pod' hpod hpod' huid.symm

theorem nodup_rosterEntries (hpods : (pods.map (·.uid)).Nodup) :
    (rosterEntries opts inv seats pods).Nodup := by
  refine List.Pairwise.filterMap _ (fun pod pod' hne e he e' he' heq => hne ?_)
    (List.pairwise_map.1 hpods)
  obtain ⟨seat, -, rfl⟩ := Option.map_eq_some_iff.1 he
  obtain ⟨seat', -, rfl⟩ := Option.map_eq_some_iff.1 he'
  exact congrArg Sigma.fst heq

theorem mem_rosterEntries {uid : UID} {seat : Seat} :
    ⟨uid, seat⟩ ∈ rosterEntries opts inv seats pods ↔
      ∃ pod ∈ pods, pod.uid = uid ∧ seats.seatOf opts inv pod = some seat := by
  rw [rosterEntries, List.mem_filterMap]
  refine exists_congr fun pod => and_congr_right fun _ => ?_
  rw [Option.map_eq_some_iff]
  constructor
  · rintro ⟨seat', hseat', heq⟩
    cases heq
    exact ⟨rfl, hseat'⟩
  · rintro ⟨rfl, hseat⟩
    exact ⟨seat, hseat, rfl⟩

/-- Under a subject whose seats are those of the pods, a rebuild finds what is counted. -/
theorem SeatedUnder.cells (h : SeatedUnder opts inv seats pods sub)
    (hpods : (pods.map (·.uid)).Nodup) (i : Nat) :
    seats.cells sub i = rosterCells opts inv seats pods sub i := by
  have hentries : (seats.entries.filter fun e => e.2.subject = sub) =
      ((rosterEntries opts inv seats pods).filter fun e => e.2.subject = sub :
        List (Sigma fun _ : UID => Seat)) := by
    refine (Multiset.Nodup.ext (seats.nodup_entries.filter _)
      (Multiset.coe_nodup.2 ((nodup_rosterEntries hpods).filter _))).2 fun e => ?_
    obtain ⟨uid, seat⟩ := e
    rw [Multiset.mem_filter, Multiset.mem_coe, List.mem_filter, mem_rosterEntries,
      ← Finmap.lookup_eq_some_iff, decide_eq_true_eq]
    exact and_congr_left fun hsub => h uid seat hsub
  have hseats : (rosterEntries opts inv seats pods).map (·.2) =
      pods.filterMap (seats.seatOf opts inv) := by
    rw [rosterEntries, List.map_filterMap]
    refine List.filterMap_congr fun pod _ => ?_
    rw [Option.map_map]
    exact Option.map_id'
  rw [Seating.cells, hentries, Multiset.map_coe, rosterCells, ← hseats, List.filter_map,
    List.map_map]
  rfl

/-- A seating is current if the seats under every subject are those of the cached pods. -/
theorem current_iff (hcache : cache.Sound) (w : Map.Walk ObjectName) :
    Current opts inv seats cache ↔
      ∀ sub, SeatedUnder opts inv seats (cache.list w) sub := by
  constructor
  · rintro h sub uid seat -
    constructor
    · intro hseat
      obtain ⟨k, pod, hpod, rfl⟩ := h.only uid seat hseat
      exact ⟨pod, Cache.mem_list.2 ⟨k, hpod⟩, rfl, (h.seated k pod hpod).symm.trans hseat⟩
    · rintro ⟨pod, hmem, rfl, hseat⟩
      obtain ⟨k, hpod⟩ := Cache.mem_list.1 hmem
      exact (h.seated k pod hpod).trans hseat
  · intro h
    constructor
    · intro k pod hpod
      cases hseat : seats.seatOf opts inv pod with
      | some seat =>
        exact (h seat.subject pod.uid seat rfl).2 ⟨pod, Cache.mem_list.2 ⟨k, hpod⟩, rfl, hseat⟩
      | none =>
        -- A seat of this uid would be that of the one cached pod that has it.
        by_contra hsome
        obtain ⟨seat, hlook⟩ := Option.ne_none_iff_exists'.1 hsome
        obtain ⟨pod', hmem, huid, hseat'⟩ := (h seat.subject pod.uid seat rfl).1 hlook
        obtain ⟨k', hpod'⟩ := Cache.mem_list.1 hmem
        obtain rfl := hcache.distinct k' k pod' pod hpod' hpod huid
        obtain rfl := Option.some.inj (hpod.symm.trans hpod')
        rw [hseat] at hseat'
        cases hseat'
    · intro uid seat hseat
      obtain ⟨pod, hmem, huid, -⟩ := (h seat.subject uid seat rfl).1 hseat
      obtain ⟨k, hpod⟩ := Cache.mem_list.1 hmem
      exact ⟨k, pod, hpod, huid⟩

/-- Under a current seating, a rebuild finds what is counted. -/
theorem Current.cells (h : Current opts inv seats cache) (hcache : cache.Sound)
    (w : Map.Walk ObjectName) (sub : SubjectRef) (i : Nat) :
    seats.cells sub i = rosterCells opts inv seats (cache.list w) sub i :=
  ((current_iff hcache w).1 h sub).cells (hcache.nodup_uids w) i

end Lookout.TopologyDrift
