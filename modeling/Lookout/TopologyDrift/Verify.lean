-- SUMMARY: The verifier of the counters: the comparison of a shard with its rebuild, and what repairs and passes do to the seating.
import Lookout.TopologyDrift.CounterRuns

/-!
# Verifier

At every tick the verifier rebuilds one shard of the subjects from the pod cache and
compares each subject's distributions with those of the state. A subject that differs is
repaired: its pods are dropped from every index, and the pods of the rebuild are seated.
Seats under other subjects stay as they are. What the cached pods should have does not
change by a pass, so that the effects of passes compose.

The log lines and the mismatch counter are left out. A snapshot falls back on the node
groups, which no pod counts under.
-/

namespace Lookout.TopologyDrift

open Leeway
open Sources (UID ObjectName)
open Engine (rank rank_injective)

variable (opts : StateOptions) (o : PassOrder) (s : State)

instance : LinearOrder SubjectRef :=
  LinearOrder.lift' (fun sub => toLex (rank sub.kind, toLex (rank sub.namespace_, rank sub.name)))
    fun sub sub' h => by
      obtain ⟨hkind, h⟩ := Prod.mk.inj (toLex.injective h)
      obtain ⟨hns, hname⟩ := Prod.mk.inj (toLex.injective h)
      cases sub
      cases sub'
      rw [SubjectRef.mk.injEq]
      exact ⟨rank_injective hkind, rank_injective hns, rank_injective hname⟩

namespace State

/-- `Snapshot`: a subject's distributions, none if it is not tracked. -/
def snapshot (sub : SubjectRef) : Map TopologyKey Distribution :=
  Map.getD s.counts sub ∅

/-- `SubjectsInShard` -/
def subjectsInShard (w : Map.Walk SubjectRef) (s : State) (shard shards : Nat) : List SubjectRef :=
  (Map.walk w s.counts).filter fun sub => shardOf sub shards = shard

/-- One round of the first loop in `Repair`: a pod of the subject is dropped. -/
def dropPod (sub : SubjectRef) (s : State) (uid : UID) : State :=
  if s.subjects.lookup uid ≠ some sub then s
  else
    let s := match s.placements.lookup uid with
      | some p => s.unlinkNode p.nodeName uid
      | none => s
    { s with placements := s.placements.erase uid, subjects := s.subjects.erase uid }

/-- One round of the second loop in `Repair`. -/
def reseatPod (sub : SubjectRef) (s : State) (pod : Pod) : State :=
  match resolvePlacement opts s.inv pod with
  | none => s
  | some p => s.seat pod.uid sub p

/-- `Repair` -/
def repair (w : Map.Walk UID) (s : State) (sub : SubjectRef) (pods : List Pod) : State :=
  let s := (Map.walk w s.subjects).foldl (dropPod sub) s
  let s := { s with counts := s.counts.erase sub }
  pods.foldl (reseatPod opts sub) s

end State

/-- `sameDistributions` -/
def sameDistributions (a b : Map TopologyKey Distribution) : Bool :=
  (∀ key ∈ a.keys, a.lookup key = b.lookup key) ∧ ∀ key ∈ b.keys, key ∈ a

/-- What one shard's pass found. -/
structure Report where
  shard : Nat
  subjects : Nat := 0
  drifted : Nat := 0
  failed : Bool := false
  deriving DecidableEq, Repr

/-- The orders of the loops in one pass. -/
structure PassOrder where
  cache : Map.Walk ObjectName := .listed
  tracked : Map.Walk SubjectRef := .listed
  want : Map.Walk SubjectRef := .listed
  indexed : Map.Walk UID := .listed

/-- What the subjects of a shard should be: the rebuild, and nothing for a subject that
    is tracked without a pod. -/
def wanted (pods : List Pod) (shard shards : Nat) : Map SubjectRef State.Rebuilt :=
  (s.subjectsInShard o.tracked shard shards).foldl
    (fun want sub => if sub ∈ want then want else want.insert sub {})
    (s.rebuildShard opts pods shard shards)

/-- One round of the loop in `VerifyShard`. -/
def verifySubject (want : Map SubjectRef State.Rebuilt)
    (acc : State × Nat) (sub : SubjectRef) : State × Nat :=
  let rebuilt := Map.getD want sub {}
  if sameDistributions rebuilt.counts (acc.1.snapshot sub) then acc
  else (acc.1.repair opts o.indexed sub rebuilt.pods, acc.2 + 1)

/-- `VerifyShard`. The pods are missing when the cache could not be read. -/
def verifyShard (pods : Option (List Pod)) (shard shards : Nat) : State × Report :=
  match pods with
  | none => (s, { shard := shard, failed := true })
  | some pods =>
    let want := wanted opts o s pods shard shards
    let (s, drifted) := (Map.walk o.want want).foldl (verifySubject opts o want) (s, 0)
    (s, { shard := shard, subjects := want.keys.card, drifted := drifted })

/-- `Verifier` -/
structure Verifier where
  shards : Nat
  shard : Nat := 0
  inRange : shard < shards

namespace Verifier

def defaultVerifyShards : Nat := 12

/-- `NewVerifier` -/
def new (shards : Int) : Verifier :=
  if h : shards ≤ 0 then { shards := defaultVerifyShards, inRange := by decide }
  else { shards := shards.toNat, inRange := by omega }

/-- `Tick` -/
def tick (v : Verifier) (s : State) (pods : Option (List Pod)) : Verifier × State × Report :=
  ({ shards := v.shards
     shard := (v.shard + 1) % v.shards
     inRange := Nat.mod_lt _ (Nat.zero_lt_of_lt v.inRange) },
    verifyShard opts o s pods v.shard v.shards)

/-- Ticks in a row that all read the same cache. -/
def ticks (opts : StateOptions) (cache : Cache) (v : Verifier) (s : State) :
    List PassOrder → Verifier × State × List Report
  | [] => (v, s, [])
  | o :: os =>
    let (v, s, r) := v.tick opts o s (some (cache.list o.cache))
    let (v, s, rs) := ticks opts cache v s os
    (v, s, r :: rs)

end Verifier

variable {seats : Seating} {sub : SubjectRef}

/-! ## The seats that are dropped -/

namespace Seating

/-- The pod loses its seat if it has one under the subject. -/
def drop (sub : SubjectRef) (seats : Seating) (uid : UID) : Seating :=
  if (seats.lookup uid).map (·.subject) = some sub then seats.erase uid else seats

/-- The seats under other subjects. -/
def without (seats : Seating) (sub : SubjectRef) : Seating :=
  Map.filter (fun _ seat => seat.subject ≠ sub) seats

theorem lookup_without (seats : Seating) (sub : SubjectRef) (uid : UID) (seat : Seat) :
    (seats.without sub).lookup uid = some seat ↔
      seats.lookup uid = some seat ∧ seat.subject ≠ sub := by
  rw [without, Map.lookup_filter, Option.filter_eq_some_iff, decide_eq_true_eq]

theorem lookup_drop (sub : SubjectRef) (seats : Seating) (uid uid' : UID) (seat : Seat) :
    (seats.drop sub uid).lookup uid' = some seat ↔
      seats.lookup uid' = some seat ∧ ¬(uid' = uid ∧ seat.subject = sub) := by
  unfold drop
  split
  next hsub =>
    rw [Map.lookup_erase]
    split
    next heq =>
      subst heq
      refine iff_of_false (by simp) ?_
      rintro ⟨hseat, hkeep⟩
      rw [hseat] at hsub
      exact hkeep ⟨rfl, Option.some.inj hsub⟩
    next hne => simp [hne]
  next hsub =>
    refine (and_iff_left_of_imp fun hseat => ?_).symm
    rintro ⟨rfl, heq⟩
    exact hsub (by rw [hseat, Option.map_some, heq])

theorem lookup_foldl_drop (sub : SubjectRef) (uids : List UID) (seats : Seating) (uid : UID)
    (seat : Seat) : (uids.foldl (drop sub) seats).lookup uid = some seat ↔
      seats.lookup uid = some seat ∧ ¬(uid ∈ uids ∧ seat.subject = sub) := by
  induction uids generalizing seats with
  | nil => simp
  | cons u uids ih =>
    rw [List.foldl_cons, ih, lookup_drop, and_assoc, List.mem_cons]
    exact and_congr_right fun _ => by tauto

theorem eq_of_lookup {seats' : Seating}
    (h : ∀ uid seat, seats.lookup uid = some seat ↔ seats'.lookup uid = some seat) :
    seats = seats' :=
  Finmap.ext_lookup fun uid => Option.ext fun seat => h uid seat

theorem foldl_drop_eq_without {uids : List UID}
    (h : ∀ uid seat, seats.lookup uid = some seat → uid ∈ uids) :
    uids.foldl (drop sub) seats = seats.without sub := by
  refine eq_of_lookup fun uid seat => ?_
  rw [lookup_foldl_drop, lookup_without]
  refine and_congr_right fun hseat => ?_
  simp [h uid seat hseat]

theorem cells_without (seats : Seating) (sub sub' : SubjectRef) (i : Nat) :
    (seats.without sub).cells sub' i = if sub' = sub then 0 else seats.cells sub' i := by
  unfold cells without Map.filter
  rw [Multiset.filter_filter]
  split
  next heq =>
    rw [Multiset.map_eq_zero, Multiset.filter_eq_nil]
    rintro e - ⟨hsub, hne⟩
    exact of_decide_eq_true hne (hsub.trans heq)
  next hne =>
    congr 1
    refine Multiset.filter_congr fun e _ => and_iff_left_of_imp fun hsub => ?_
    exact decide_eq_true (hsub.trans_ne hne)

end Seating

/-! ## The loops of a repair -/

/-- The three indexes by pod are those of the seating. -/
structure Indexed (s : State) (seats : Seating) : Prop where
  placements : ∀ uid, s.placements.lookup uid = (seats.lookup uid).map (·.placement)
  subjects : ∀ uid, s.subjects.lookup uid = (seats.lookup uid).map (·.subject)
  byNode : ∀ node uid, Linked s.byNode node uid ↔
    ∃ seat, seats.lookup uid = some seat ∧ seat.placement.nodeName = node

variable {opts : StateOptions} {s : State}

theorem Refines.indexed (h : Refines s seats) : Indexed s seats :=
  ⟨h.placements, h.subjects, h.byNode⟩

/-- A dropped pod leaves the indexes and, for now, the counts as they are. -/
theorem Indexed.dropPod (h : Indexed s seats) (sub : SubjectRef) (uid : UID) :
    (s.dropPod sub uid).inv = s.inv ∧ (s.dropPod sub uid).counts = s.counts ∧
      Indexed (s.dropPod sub uid) (seats.drop sub uid) := by
  unfold State.dropPod Seating.drop
  rw [h.subjects, h.placements]
  by_cases hsub : (seats.lookup uid).map (·.subject) = some sub
  case neg =>
    rw [if_pos hsub, if_neg hsub]
    exact ⟨rfl, rfl, h⟩
  case pos =>
    rw [if_neg (not_not.2 hsub), if_pos hsub]
    obtain ⟨seat, hseat, -⟩ := Option.map_eq_some_iff.1 hsub
    simp only [hseat, Option.map_some]
    refine ⟨State.unlinkNode_frame.1, State.unlinkNode_frame.2.2.2, ?_, ?_, ?_⟩
    · intro uid'
      rw [State.unlinkNode_frame.2.1, Map.lookup_erase, Map.lookup_erase, h.placements]
      split <;> rfl
    · intro uid'
      rw [State.unlinkNode_frame.2.2.1, Map.lookup_erase, Map.lookup_erase, h.subjects]
      split <;> rfl
    · intro node uid'
      refine State.linked_unlinkNode.trans ?_
      rw [h.byNode, Map.lookup_erase]
      by_cases huid : uid' = uid
      · subst huid
        simp [hseat, eq_comm]
      · simp [huid]

theorem Indexed.foldl_dropPod (h : Indexed s seats) (sub : SubjectRef) (uids : List UID) :
    (uids.foldl (State.dropPod sub) s).inv = s.inv ∧
      (uids.foldl (State.dropPod sub) s).counts = s.counts ∧
      Indexed (uids.foldl (State.dropPod sub) s) (uids.foldl (Seating.drop sub) seats) := by
  induction uids generalizing s seats with
  | nil => exact ⟨rfl, rfl, h⟩
  | cons uid uids ih =>
    obtain ⟨hinv, hcounts, hindexed⟩ := h.dropPod sub uid
    obtain ⟨hinv', hcounts', hindexed'⟩ := ih hindexed
    exact ⟨hinv'.trans hinv, hcounts'.trans hcounts, hindexed'⟩

/-- The first half of a repair: the subject is forgotten. -/
theorem Refines.forget (h : Refines s seats) (w : Map.Walk UID) (sub : SubjectRef) :
    let s' := (Map.walk w s.subjects).foldl (State.dropPod sub) s
    s'.inv = s.inv ∧ Refines { s' with counts := s'.counts.erase sub } (seats.without sub) := by
  obtain ⟨hinv, hcounts, hindexed⟩ := h.indexed.foldl_dropPod sub (Map.walk w s.subjects)
  have hlisted : ∀ uid seat, seats.lookup uid = some seat → uid ∈ Map.walk w s.subjects := by
    intro uid seat hseat
    rw [Map.mem_walk, Map.mem_iff_ne_none, h.subjects, hseat]
    exact Option.some_ne_none _
  rw [Seating.foldl_drop_eq_without hlisted] at hindexed
  refine ⟨hinv, hindexed.placements, hindexed.subjects, hindexed.byNode, ?_⟩
  change Tallies ((Map.walk w s.subjects).foldl (State.dropPod sub) s).inv.keys
    (((Map.walk w s.subjects).foldl (State.dropPod sub) s).counts.erase sub) _
  rw [hinv, hcounts]
  constructor
  · intro sub' key
    simp only [entry, Map.lookup_erase, Seating.cells_without]
    split
    next =>
      cases s.inv.keys.idxOf? key <;> rfl
    next => exact h.counts.entry sub' key
  · intro sub' byKey hrow
    exact h.counts.row sub' byKey (Map.of_lookup_erase hrow).2

variable {pods : List Pod}

/-- The second half: pods without a seat are seated under the subject. -/
theorem Refines.foldl_reseatPod (h : Refines s seats) (opts : StateOptions) (sub : SubjectRef)
    (hpods : (pods.map (·.uid)).Nodup) (hfree : ∀ pod ∈ pods, seats.lookup pod.uid = none) :
    (pods.foldl (State.reseatPod opts sub) s).inv = s.inv ∧
      ∃ seats', Refines (pods.foldl (State.reseatPod opts sub) s) seats' ∧
        ∀ uid seat, seats'.lookup uid = some seat ↔ seats.lookup uid = some seat ∨
          (seat.subject = sub ∧ ∃ pod ∈ pods, pod.uid = uid ∧
            State.resolvePlacement opts s.inv pod = some seat.placement) := by
  induction pods generalizing s seats with
  | nil => exact ⟨rfl, seats, h, by simp⟩
  | cons pod pods ih =>
    rw [List.map_cons, List.nodup_cons] at hpods
    obtain ⟨hnotin, hrest⟩ := hpods
    have hfreePods : ∀ pod ∈ pods, seats.lookup pod.uid = none :=
      fun pod' hmem => hfree pod' (List.mem_cons_of_mem pod hmem)
    rw [List.foldl_cons, State.reseatPod.eq_def]
    cases hplace : State.resolvePlacement opts s.inv pod with
    | none =>
      obtain ⟨hinv, seats', hrefines, hlook⟩ := ih h hrest hfreePods
      refine ⟨hinv, seats', hrefines, fun uid seat => ?_⟩
      rw [hlook]
      simp [hplace]
    | some p =>
      have hseat := h.seat_free (hfree pod List.mem_cons_self) ⟨sub, p⟩
      have hlone : ∀ pod' ∈ pods, pod'.uid ≠ pod.uid :=
        fun pod' hmem heq => hnotin (List.mem_map.2 ⟨pod', hmem, heq⟩)
      have hfree' : ∀ pod' ∈ pods,
          (Finmap.insert pod.uid (⟨sub, p⟩ : Seat) seats).lookup pod'.uid = none := by
        intro pod' hmem
        rw [Map.lookup_insert, if_neg (hlone pod' hmem)]
        exact hfreePods pod' hmem
      obtain ⟨hinv, seats', hrefines, hlook⟩ := ih hseat hrest hfree'
      refine ⟨hinv, seats', hrefines, fun uid seat => ?_⟩
      rw [hlook, Map.lookup_insert]
      change _ ∨ (_ ∧ ∃ pod ∈ pods, _ ∧ State.resolvePlacement opts s.inv pod = _) ↔ _
      by_cases huid : uid = pod.uid
      · subst huid
        obtain ⟨sub', p'⟩ := seat
        have hothers : ¬∃ pod' ∈ pods, pod'.uid = pod.uid ∧
            State.resolvePlacement opts s.inv pod' = some p' :=
          fun ⟨pod', hmem, heq, _⟩ => hlone pod' hmem heq
        simpa [hothers, hplace, hfree pod List.mem_cons_self] using fun _ => eq_comm
      · simp [huid, Ne.symm huid]

/-- A repair gives the subject's seats to the pods of the rebuild. -/
theorem Refines.repair (h : Refines s seats) (opts : StateOptions) (w : Map.Walk UID)
    (hpods : (pods.map (·.uid)).Nodup)
    (hown : ∀ pod ∈ pods, ∀ seat, seats.lookup pod.uid = some seat → seat.subject = sub) :
    (s.repair opts w sub pods).inv = s.inv ∧
      ∃ seats', Refines (s.repair opts w sub pods) seats' ∧
        ∀ uid seat, seats'.lookup uid = some seat ↔
          (seats.lookup uid = some seat ∧ seat.subject ≠ sub) ∨
            (seat.subject = sub ∧ ∃ pod ∈ pods, pod.uid = uid ∧
              State.resolvePlacement opts s.inv pod = some seat.placement) := by
  obtain ⟨hinv, hforget⟩ := h.forget w sub
  have hfree : ∀ pod ∈ pods, (seats.without sub).lookup pod.uid = none := by
    intro pod hmem
    refine Option.eq_none_iff_forall_not_mem.2 fun seat hseat => ?_
    obtain ⟨hlook, hne⟩ := (Seating.lookup_without seats sub pod.uid seat).1 hseat
    exact hne (hown pod hmem seat hlook)
  obtain ⟨hinv', seats', hrefines, hlook⟩ := hforget.foldl_reseatPod opts sub hpods hfree
  refine ⟨hinv'.trans hinv, seats', hrefines, fun uid seat => ?_⟩
  rw [hlook, Seating.lookup_without]
  rw [hinv]

/-! ## Healing -/

variable {opts : StateOptions} {inv : Inventory} {seats seats' seats'' : Seating}
  {pods pods' : List Pod} {sub : SubjectRef} {s : State}

/-- The subject's distributions are those of a rebuild from these pods. -/
def Agreed (opts : StateOptions) (inv : Inventory) (seats : Seating) (pods : List Pod)
    (sub : SubjectRef) : Prop :=
  ∀ key i, inv.keys.idxOf? key = some i →
    tally (rosterCells opts inv seats pods sub i) = tally (seats.cells sub i)

theorem rosterCells_perm (h : pods.Perm pods') (sub : SubjectRef) (i : Nat) :
    rosterCells opts inv seats pods sub i = rosterCells opts inv seats pods' sub i :=
  Multiset.coe_eq_coe.2 (((h.filterMap _).filter _).map _)

theorem Agreed.perm (h : Agreed opts inv seats pods sub) (hperm : pods.Perm pods') :
    Agreed opts inv seats pods' sub := by
  intro key i hi
  rw [← rosterCells_perm hperm]
  exact h key i hi

section

variable (h : ∀ pod ∈ pods, seats'.seatOf opts inv pod = seats.seatOf opts inv pod)
  (sub : SubjectRef)

include h

theorem rosterCells_congr (i : Nat) :
    rosterCells opts inv seats' pods sub i = rosterCells opts inv seats pods sub i := by
  rw [rosterCells, rosterCells, List.filterMap_congr h]

theorem roster_congr : roster opts inv seats' pods sub = roster opts inv seats pods sub := by
  refine List.filter_congr fun pod hmem => ?_
  rw [h pod hmem]

end

/-- Two seatings have the same seats under a subject. -/
def SameUnder (seats seats' : Seating) (sub : SubjectRef) : Prop :=
  ∀ uid seat, seat.subject = sub → (seats'.lookup uid = some seat ↔ seats.lookup uid = some seat)

theorem SameUnder.cells (h : SameUnder seats seats' sub) (i : Nat) :
    seats'.cells sub i = seats.cells sub i := by
  have hentries : (seats'.entries.filter fun e => e.2.subject = sub) =
      seats.entries.filter fun e => e.2.subject = sub := by
    refine (Multiset.Nodup.ext (seats'.nodup_entries.filter _)
      (seats.nodup_entries.filter _)).2 fun e => ?_
    obtain ⟨uid, seat⟩ := e
    rw [Multiset.mem_filter, Multiset.mem_filter, ← Finmap.lookup_eq_some_iff,
      ← Finmap.lookup_eq_some_iff]
    exact and_congr_left fun hsub => h uid seat hsub
  rw [Seating.cells, hentries, Seating.cells]

theorem SeatedUnder.agreed (h : SeatedUnder opts inv seats pods sub)
    (hpods : (pods.map (·.uid)).Nodup) : Agreed opts inv seats pods sub := by
  intro key i _
  rw [h.cells hpods]

/-- The effect of passes that visit some subjects. -/
structure Healed (opts : StateOptions) (inv : Inventory) (pods : List Pod)
    (visited : SubjectRef → Prop) (seats seats' : Seating) : Prop where
  stable : ∀ pod ∈ pods, seats'.seatOf opts inv pod = seats.seatOf opts inv pod
  kept : ∀ sub, ¬visited sub ∨ Agreed opts inv seats pods sub → SameUnder seats seats' sub
  seated : ∀ sub, visited sub → ¬Agreed opts inv seats pods sub →
    SeatedUnder opts inv seats' pods sub

namespace Healed

variable {visited visited' : SubjectRef → Prop}

theorem refl (seats : Seating) : Healed opts inv pods (fun _ => False) seats seats where
  stable _ _ := rfl
  kept _ _ _ _ _ := Iff.rfl
  seated _ hvisited := hvisited.elim

section

variable (h : Healed opts inv pods visited seats seats')

include h

theorem agreed_congr (hsame : SameUnder seats seats' sub) :
    Agreed opts inv seats' pods sub ↔ Agreed opts inv seats pods sub := by
  unfold Agreed
  simp only [rosterCells_congr h.stable, hsame.cells]

/-- After the passes, what was visited agrees. -/
theorem agreed (hpods : (pods.map (·.uid)).Nodup) (hvisited : visited sub) :
    Agreed opts inv seats' pods sub := by
  by_cases hagreed : Agreed opts inv seats pods sub
  · exact (h.agreed_congr (h.kept sub (Or.inr hagreed))).2 hagreed
  · exact (h.seated sub hvisited hagreed).agreed hpods

/-- What is seated as the cache says stays so while its seats stay. -/
theorem seatedUnder (hsame : SameUnder seats seats' sub)
    (hseated : SeatedUnder opts inv seats pods sub) : SeatedUnder opts inv seats' pods sub := by
  intro uid seat hsub
  rw [hsame uid seat hsub, hseated uid seat hsub]
  refine exists_congr fun pod => and_congr_right fun hmem => ?_
  rw [h.stable pod hmem]

theorem trans (h' : Healed opts inv pods visited' seats' seats'') (hpods : (pods.map (·.uid)).Nodup) :
    Healed opts inv pods (fun sub => visited sub ∨ visited' sub) seats seats'' where
  stable pod hmem := (h'.stable pod hmem).trans (h.stable pod hmem)
  kept sub hcase := by
    have hfirst : SameUnder seats seats' sub :=
      h.kept sub (hcase.imp_left fun hnot hvisited => hnot (Or.inl hvisited))
    have hsecond : SameUnder seats' seats'' sub := by
      refine h'.kept sub (hcase.imp (fun hnot hvisited => hnot (Or.inr hvisited)) ?_)
      exact (h.agreed_congr hfirst).2
    exact fun uid seat hsub => (hsecond uid seat hsub).trans (hfirst uid seat hsub)
  seated sub hcase hdiffers := by
    by_cases hvisited : visited sub
    · -- Repaired in the first passes, the subject agrees in the others.
      have hseated := h.seated sub hvisited hdiffers
      exact h'.seatedUnder (h'.kept sub (Or.inr (hseated.agreed hpods))) hseated
    · have hsame := h.kept sub (Or.inl hvisited)
      exact h'.seated sub (hcase.resolve_left hvisited)
        fun hagreed => hdiffers ((h.agreed_congr hsame).1 hagreed)

/-- A subject that agrees may count as visited. -/
theorem widen (hwider : ∀ sub, visited sub → visited' sub)
    (hagreed : ∀ sub, visited' sub → visited sub ∨ Agreed opts inv seats pods sub) :
    Healed opts inv pods visited' seats seats' where
  stable := h.stable
  kept sub hcase := h.kept sub (hcase.imp_left fun hnot hvisited => hnot (hwider sub hvisited))
  seated sub hvisited hdiffers := h.seated sub ((hagreed sub hvisited).resolve_right hdiffers) hdiffers

theorem perm (hperm : pods.Perm pods') :
    Healed opts inv pods' visited seats seats' where
  stable pod hmem := h.stable pod (hperm.mem_iff.2 hmem)
  kept sub hcase := h.kept sub (hcase.imp_right fun hagreed => hagreed.perm hperm.symm)
  seated sub hvisited hdiffers := by
    have hseated := h.seated sub hvisited fun hagreed => hdiffers (hagreed.perm hperm)
    intro uid seat hsub
    rw [hseated uid seat hsub]
    exact exists_congr fun pod => and_congr_left fun _ => hperm.mem_iff

end

end Healed

/-! ## One subject -/

variable {pod : Pod} {seat : Seat}

theorem seatOf_eq_some :
    seats.seatOf opts inv pod = some seat ↔
      State.resolvePlacement opts inv pod = some seat.placement ∧
        seats.subjectOf opts pod = some seat.subject := by
  unfold Seating.seatOf
  constructor
  · intro h
    obtain ⟨p, hplace, hrest⟩ := Option.bind_eq_some_iff.1 h
    obtain ⟨sub, hsub, rfl⟩ := Option.map_eq_some_iff.1 hrest
    exact ⟨hplace, hsub⟩
  · rintro ⟨hplace, hsub⟩
    rw [hplace, hsub]
    rfl

theorem mem_roster : pod ∈ roster opts inv seats pods sub ↔
    pod ∈ pods ∧ ∃ seat, seats.seatOf opts inv pod = some seat ∧ seat.subject = sub := by
  rw [roster, List.mem_filter, decide_eq_true_eq, Option.map_eq_some_iff]

/-- A pod that should be seated under a subject has no seat under another one. -/
theorem subject_of_mem_roster (hmem : pod ∈ roster opts inv seats pods sub)
    (hseat : seats.lookup pod.uid = some seat) : seat.subject = sub := by
  obtain ⟨-, seat', hseat', rfl⟩ := mem_roster.1 hmem
  have hsub := (seatOf_eq_some.1 hseat').2
  rw [Seating.subjectOf, hseat] at hsub
  exact Option.some.inj hsub

/-- The repair of a subject from its roster heals it. -/
theorem Refines.repair_healed (h : Refines s seats) (w : Map.Walk UID)
    (hpods : (pods.map (·.uid)).Nodup) (hdiffers : ¬Agreed opts s.inv seats pods sub) :
    (s.repair opts w sub (roster opts s.inv seats pods sub)).inv = s.inv ∧
      ∃ seats', Refines (s.repair opts w sub (roster opts s.inv seats pods sub)) seats' ∧
        Healed opts s.inv pods (· = sub) seats seats' := by
  have hroster : ((roster opts s.inv seats pods sub).map (·.uid)).Nodup :=
    hpods.sublist (List.filter_sublist.map _)
  obtain ⟨hinv, seats', hrefines, hlook⟩ := h.repair opts w hroster
    fun pod hmem seat hseat => subject_of_mem_roster hmem hseat
  have hother : ∀ uid seat, seat.subject ≠ sub →
      (seats'.lookup uid = some seat ↔ seats.lookup uid = some seat) := by
    intro uid seat hne
    rw [hlook]
    simp [hne]
  have hunder : ∀ uid seat, seat.subject = sub → (seats'.lookup uid = some seat ↔
      ∃ pod ∈ pods, pod.uid = uid ∧ seats.seatOf opts s.inv pod = some seat) := by
    intro uid seat hsub
    rw [hlook]
    constructor
    · rintro (⟨-, hne⟩ | ⟨-, pod, hmem, huid, hplace⟩)
      · exact absurd hsub hne
      · obtain ⟨hpod, seat', hseat', hsub'⟩ := mem_roster.1 hmem
        refine ⟨pod, hpod, huid, seatOf_eq_some.2 ⟨hplace, ?_⟩⟩
        rw [(seatOf_eq_some.1 hseat').2, hsub', hsub]
    · rintro ⟨pod, hpod, huid, hseat⟩
      exact Or.inr ⟨hsub, pod, mem_roster.2 ⟨hpod, seat, hseat, hsub⟩, huid,
        (seatOf_eq_some.1 hseat).1⟩
  have hstable : ∀ pod ∈ pods, seats'.seatOf opts s.inv pod = seats.seatOf opts s.inv pod := by
    intro pod hmem
    cases hplace : State.resolvePlacement opts s.inv pod with
    | none => simp [Seating.seatOf, hplace]
    | some p =>
      by_cases hsub : seats.subjectOf opts pod = some sub
      · have hseat : seats.seatOf opts s.inv pod = some ⟨sub, p⟩ := seatOf_eq_some.2 ⟨hplace, hsub⟩
        have hlook' := (hunder pod.uid ⟨sub, p⟩ rfl).2 ⟨pod, hmem, rfl, hseat⟩
        exact Seating.seatOf_of_lookup (hlook'.trans hseat.symm)
      · -- A pod that neither has nor gets a seat under the subject keeps the one it has.
        refine Seating.seatOf_congr (Option.ext fun seat => ?_)
        by_cases hseat : seat.subject = sub
        · refine iff_of_false (fun hlook' => ?_) fun hlook' => ?_
          · obtain ⟨pod', hmem', huid, hseat'⟩ := (hunder pod.uid seat hseat).1 hlook'
            obtain rfl := List.inj_on_of_nodup_map hpods hmem' hmem huid
            exact hsub (hseat ▸ (seatOf_eq_some.1 hseat').2)
          · rw [Seating.subjectOf, hlook'] at hsub
            exact hsub (congrArg some hseat)
        · exact hother pod.uid seat hseat
  refine ⟨hinv, seats', hrefines, hstable, ?_, ?_⟩
  · rintro sub' hcase uid seat rfl
    refine hother uid seat fun heq => ?_
    rcases hcase with hnot | hagreed
    · exact hnot heq
    · exact hdiffers (heq ▸ hagreed)
  · rintro sub' rfl - uid seat hsub
    rw [hunder uid seat hsub]
    refine exists_congr fun pod => and_congr_right fun hmem => ?_
    rw [hstable pod hmem]

end Lookout.TopologyDrift
