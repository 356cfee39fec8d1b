-- SUMMARY: The counters as a seating of pods: what the four indexes hold is determined by one map, and every handler refines a step on it.
import Lookout.TopologyDrift.State
import Mathlib.Data.Multiset.Fold

/-!
# Seatings

A seating says under which subject and at which placement each counted pod is counted.
The indexes of the state are views of a seating: two of them are its halves, one lists
the seats of each node, and the counts are the tallies of the seats of each subject. A
tally does not depend on the order of the increments, and a decrement takes back the
increment of the same cell.

A pod event gives the pod the seat it should have, or takes its seat away, and a node event
moves the seats on the node to its domains. The handlers of the state do just that, in any
order of the events and of the loops over maps.
-/

namespace Lookout.Leeway

/-! ## Tallies -/

/-- Where one object counts on one topology key. -/
structure Cell where
  domain : Domain
  state : CountState
  pinned : Bool
  deriving DecidableEq, Repr

namespace DomainCount

/-- A count that holds at least one object and no negative number of any kind. -/
structure Positive (c : DomainCount) : Prop where
  running : 0 ≤ c.running
  pending : 0 ≤ c.pending
  unschedulable : 0 ≤ c.unschedulable
  terminating : 0 ≤ c.terminating
  pinned : 0 ≤ c.pinned
  total : 0 < c.running + c.pending + c.unschedulable + c.terminating

variable {c : DomainCount}

theorem Positive.not_zero (h : c.Positive) : c ≠ {} := by
  rintro rfl
  exact absurd h.total (by decide)

theorem move_comm (P Q : Prop) [Decidable P] [Decidable Q] (n d d' : Int) :
    (if Q then (if P then n + d else n) + d' else if P then n + d else n) =
      if P then (if Q then n + d' else n) + d else if Q then n + d' else n := by
  split_ifs <;> omega

theorem move_back (P : Prop) [Decidable P] (n : Int) :
    (if P then (if P then n + 1 else n) + -1 else if P then n + 1 else n) = n := by
  split_ifs <;> omega

theorem bump_comm (c : DomainCount) (s s' : CountState) (p p' : Bool) (d d' : Int) :
    (c.bump s p d).bump s' p' d' = (c.bump s' p' d').bump s p d := by
  simp only [bump, mk.injEq]
  exact ⟨move_comm _ _ _ _ _, move_comm _ _ _ _ _, move_comm _ _ _ _ _, move_comm _ _ _ _ _,
    move_comm _ _ _ _ _⟩

theorem sub_add (c : DomainCount) (s : CountState) (p : Bool) : (c.add s p).sub s p = c := by
  cases c
  simp only [sub, bump, mk.injEq]
  exact ⟨move_back _ _, move_back _ _, move_back _ _, move_back _ _, move_back _ _⟩

theorem positive_add (h : c.Positive ∨ c = {}) (s : CountState) (p : Bool) :
    (c.add s p).Positive := by
  have hfields : 0 ≤ c.running ∧ 0 ≤ c.pending ∧ 0 ≤ c.unschedulable ∧ 0 ≤ c.terminating ∧
      0 ≤ c.pinned := by
    rcases h with h | rfl
    · exact ⟨h.running, h.pending, h.unschedulable, h.terminating, h.pinned⟩
    · decide
  obtain ⟨hrun, hpend, hunsched, hterm, hpin⟩ := hfields
  cases s <;> cases p <;> constructor <;> simp [add, bump] <;> omega

end DomainCount

namespace Distribution

/-- Every row holds something. -/
def Solid (d : Distribution) : Prop := ∀ dom c, d.byDomain.lookup dom = some c → c.Positive

def count (d : Distribution) (c : Cell) : Distribution := d.add c.domain c.state c.pinned

def uncount (d : Distribution) (c : Cell) : Distribution := d.remove c.domain c.state c.pinned

theorem lookup_count (d : Distribution) (c : Cell) (dom : Domain) :
    (d.count c).byDomain.lookup dom = if dom = normaliseDomain c.domain then
      some ((Map.getD d.byDomain dom {}).add c.state c.pinned) else d.byDomain.lookup dom := by
  unfold count add
  simp only [Map.lookup_insert]
  split
  next h => rw [h]
  next => rfl

@[simp] theorem total_count (d : Distribution) (c : Cell) : (d.count c).total = d.total + 1 := rfl

variable {d : Distribution}

theorem eq_of_lookup {d' : Distribution} (htotal : d.total = d'.total)
    (h : ∀ dom, d.byDomain.lookup dom = d'.byDomain.lookup dom) : d = d' := by
  cases d
  cases d'
  simp only [mk.injEq]
  exact ⟨Finmap.ext_lookup h, htotal⟩

theorem count_comm (d : Distribution) (c c' : Cell) :
    (d.count c).count c' = (d.count c').count c := by
  refine eq_of_lookup rfl fun dom => ?_
  simp only [lookup_count, Map.getD]
  by_cases h : dom = normaliseDomain c.domain <;> by_cases h' : dom = normaliseDomain c'.domain
  · simp only [if_pos h, if_pos h']
    exact congrArg some (DomainCount.bump_comm _ _ _ _ _ _ _)
  · simp only [if_neg h']
  · simp only [if_neg h]
  · simp only [if_neg h']

theorem solid_empty : ({} : Distribution).Solid := by
  intro dom c h
  cases h

theorem Solid.count (h : d.Solid) (c : Cell) : (d.count c).Solid := by
  intro dom row hrow
  rw [lookup_count] at hrow
  split at hrow
  next =>
    rw [← Option.some.inj hrow, Map.getD]
    refine DomainCount.positive_add ?_ c.state c.pinned
    cases hd : d.byDomain.lookup dom with
    | none => exact Or.inr rfl
    | some row => exact Or.inl (h dom row hd)
  next => exact h dom row hrow

/-- A decrement takes back the increment of the same cell. -/
theorem uncount_count (h : d.Solid) (c : Cell) : (d.count c).uncount c = d := by
  have hrow : (d.count c).byDomain.lookup (normaliseDomain c.domain) =
      some ((Map.getD d.byDomain (normaliseDomain c.domain) {}).add c.state c.pinned) := by
    rw [lookup_count, if_pos rfl]
  unfold uncount remove
  simp only [hrow, DomainCount.sub_add]
  refine eq_of_lookup (by simp) fun dom => ?_
  by_cases hdom : dom = normaliseDomain c.domain
  · subst hdom
    cases hd : d.byDomain.lookup (normaliseDomain c.domain) with
    | none => simp [Map.getD, hd, DomainCount.isZero]
    | some row =>
      have hne : row ≠ {} := (h _ row hd).not_zero
      simp [Map.getD, hd, DomainCount.isZero, hne]
  · split
    · rw [Map.lookup_erase, if_neg hdom, lookup_count, if_neg hdom]
    · rw [Map.lookup_insert, if_neg hdom, lookup_count, if_neg hdom]

end Distribution

/-! ## The entry of one key -/

/-- One more object under a key, whose entry may be missing. -/
def countAt (c : Cell) (o : Option Distribution) : Option Distribution :=
  some ((o.getD {}).count c)

/-- One object less under a key. An entry without objects is dropped. -/
def uncountAt (c : Cell) : Option Distribution → Option Distribution
  | none => none
  | some d => if (d.uncount c).total = 0 then none else some (d.uncount c)

instance : LeftCommutative countAt where
  left_comm c c' o := congrArg some (Distribution.count_comm (o.getD {}) c' c)

/-- The entry of a key under which these cells are counted. -/
def tally (cells : Multiset Cell) : Option Distribution := cells.foldr countAt none

@[simp] theorem tally_zero : tally 0 = none := rfl

@[simp] theorem tally_cons (c : Cell) (cells : Multiset Cell) :
    tally (c ::ₘ cells) = countAt c (tally cells) := Multiset.foldr_cons _ _ _ _

/-- What a tally is: nothing, or a solid distribution of as many objects as cells. -/
theorem tally_spec (cells : Multiset Cell) :
    (tally cells = none ∧ cells = 0) ∨
      ∃ d, tally cells = some d ∧ d.Solid ∧ d.total = cells.card ∧ cells ≠ 0 := by
  induction cells using Multiset.induction_on with
  | empty => exact Or.inl ⟨rfl, rfl⟩
  | cons c cells ih =>
    refine Or.inr ⟨((tally cells).getD {}).count c, tally_cons c cells, ?_, ?_,
      Multiset.cons_ne_zero⟩
    · rcases ih with ⟨hnone, -⟩ | ⟨d, hd, hsolid, -⟩
      · rw [hnone]
        exact Distribution.solid_empty.count c
      · rw [hd]
        exact hsolid.count c
    · rcases ih with ⟨hnone, rfl⟩ | ⟨d, hd, -, htotal, -⟩
      · rw [hnone]
        rfl
      · rw [hd, Option.getD_some, Distribution.total_count, htotal, Multiset.card_cons]
        push_cast
        rfl

theorem tally_eq_none {cells : Multiset Cell} : tally cells = none ↔ cells = 0 := by
  rcases tally_spec cells with ⟨hnone, rfl⟩ | ⟨d, hd, -, -, hne⟩
  · simp
  · simp [hd, hne]

theorem uncountAt_tally_cons (c : Cell) (cells : Multiset Cell) :
    uncountAt c (tally (c ::ₘ cells)) = tally cells := by
  rw [tally_cons, countAt, uncountAt]
  rcases tally_spec cells with ⟨hnone, rfl⟩ | ⟨d, hd, hsolid, htotal, hne⟩
  · rw [hnone, Option.getD_none, Distribution.uncount_count Distribution.solid_empty]
    rfl
  · rw [hd, Option.getD_some, Distribution.uncount_count hsolid, if_neg]
    rw [htotal]
    simpa using hne

/-- A tally tells how many cells are counted. -/
theorem card_eq_of_tally_eq {cells cells' : Multiset Cell} (h : tally cells = tally cells') :
    cells.card = cells'.card := by
  rcases tally_spec cells with ⟨hnone, rfl⟩ | ⟨d, hd, -, htotal, -⟩
  · rw [tally_eq_none.mp (h.symm.trans hnone)]
  · rcases tally_spec cells' with ⟨hnone', rfl⟩ | ⟨d', hd', -, htotal', -⟩
    · rw [tally_eq_none.mp (h.trans hnone')]
    · obtain rfl : d = d' := Option.some.inj (hd.symm.trans (h.trans hd'))
      exact_mod_cast htotal.symm.trans htotal'

end Lookout.Leeway

/-! ## Seatings -/

namespace Lookout.TopologyDrift

open Leeway
open Sources (UID ObjectName)
open Map (getD lookup_erase lookup_insert)

variable {counts : Map SubjectRef (Map TopologyKey Distribution)} {uid : UID}
  {keys : List TopologyKey} {s : State}

def Placement.cell (p : Placement) (ordinal : Nat) : Cell := ⟨p.domain ordinal, p.state, p.pinned⟩

/-- Where a pod is counted, and under which subject. -/
structure Seat where
  subject : SubjectRef
  placement : Placement
  deriving DecidableEq, Repr

abbrev Seating : Type := Map UID Seat

variable {seats : Seating} {seat : Seat}

namespace Seating

/-- What the pods of a subject contribute on one topology key. -/
def cells (seats : Seating) (sub : SubjectRef) (i : Nat) : Multiset Cell :=
  (seats.entries.filter fun e => e.2.subject = sub).map fun e => e.2.placement.cell i

theorem cells_insert (h : seats.lookup uid = none) (sub : SubjectRef) (i : Nat) :
    cells (seats.insert uid seat) sub i =
      if seat.subject = sub then seat.placement.cell i ::ₘ seats.cells sub i
      else seats.cells sub i :=
  Map.gather_insert (fun s : Seat => s.subject = sub) (·.placement.cell i) h

theorem cells_erase (h : seats.lookup uid = some seat) (sub : SubjectRef) (i : Nat) :
    seats.cells sub i =
      if seat.subject = sub then seat.placement.cell i ::ₘ cells (seats.erase uid) sub i
      else cells (seats.erase uid) sub i :=
  Map.gather_erase (fun s : Seat => s.subject = sub) (·.placement.cell i) h

end Seating

/-! ## Counts -/

/-- The distribution of a subject on a topology key. -/
def entry (counts : Map SubjectRef (Map TopologyKey Distribution)) (sub : SubjectRef)
    (key : TopologyKey) : Option Distribution :=
  (counts.lookup sub).bind fun byKey => byKey.lookup key

/-- What a sign does to one entry. -/
def turn (sign : Int) (c : Cell) (o : Option Distribution) : Option Distribution :=
  if 0 < sign then countAt c o else uncountAt c o

namespace State

variable {sign : Int}

theorem lookup_applyAxis (hsign : sign ≠ 0) (p : Placement) (byKey : Map TopologyKey Distribution)
    (key k : TopologyKey) (i : Nat) :
    (applyAxis p sign byKey (key, i)).lookup k =
      if k = key then turn sign (p.cell i) (byKey.lookup key) else byKey.lookup k := by
  unfold applyAxis turn
  cases hrow : byKey.lookup key with
  | none =>
    by_cases hneg : sign < 0
    · have hpos : ¬0 < sign := by omega
      simp only [hneg, if_true, uncountAt]
      split
      next heq => rw [heq, hrow]
      next => rfl
    · have hpos : 0 < sign := by omega
      simp only [hneg, hpos, if_false, lookup_insert]
      rfl
  | some dist =>
    by_cases hpos : 0 < sign
    · simp only [hpos, if_true, lookup_insert]
      rfl
    · simp only [hpos, if_false]
      split
      next hzero =>
        rw [lookup_erase]
        exact if_congr Iff.rfl (if_pos hzero).symm rfl
      next hzero =>
        rw [lookup_insert]
        exact if_congr Iff.rfl (if_neg hzero).symm rfl

/-- The loop over the topology keys turns the entry of each key once. -/
theorem lookup_applyAxes (hsign : sign ≠ 0) (p : Placement) (hkeys : keys.Nodup) (k : TopologyKey)
    (n : Nat) (byKey : Map TopologyKey Distribution) :
    ((keys.zipIdx n).foldl (applyAxis p sign) byKey).lookup k =
      match keys.idxOf? k with
      | none => byKey.lookup k
      | some i => turn sign (p.cell (n + i)) (byKey.lookup k) := by
  induction keys generalizing n byKey with
  | nil => rfl
  | cons key keys ih =>
    obtain ⟨hnotin, hrest⟩ := List.nodup_cons.1 hkeys
    rw [List.zipIdx_cons, List.foldl_cons, ih hrest, lookup_applyAxis hsign, List.idxOf?_cons]
    by_cases hk : k = key
    · subst hk
      rw [List.idxOf?_eq_none_iff.2 hnotin]
      simp
    · have hne : (key == k) = false := by simpa using Ne.symm hk
      simp only [if_neg hk, hne, Bool.false_eq_true, if_false]
      cases keys.idxOf? k with
      | none => rfl
      | some i => simp only [Option.map_some, Nat.add_assoc, Nat.add_comm 1]

theorem entry_applyCounts (hsign : sign ≠ 0) (hkeys : keys.Nodup) (sub sub' : SubjectRef)
    (p : Placement) (key : TopologyKey) :
    entry (applyCounts keys counts sub p sign) sub' key =
      if sub' = sub then
        match keys.idxOf? key with
        | none => entry counts sub key
        | some i => turn sign (p.cell i) (entry counts sub key)
      else entry counts sub' key := by
  unfold applyCounts
  split
  next hrow hneg =>
    -- Nothing is counted under the subject, and there is nothing to take away.
    have hpos : ¬0 < sign := by
      have := of_decide_eq_true hneg
      omega
    split
    next hsub =>
      subst hsub
      cases keys.idxOf? key with
      | none => rfl
      | some i => simp [entry, hrow, turn, hpos, uncountAt]
    next => rfl
  next =>
    have hold : ((counts.lookup sub).getD ∅).lookup key = entry counts sub key := by
      rw [entry]
      cases counts.lookup sub <;> rfl
    have hlook := lookup_applyAxes hsign p hkeys key 0 ((counts.lookup sub).getD ∅)
    simp only [hold, Nat.zero_add] at hlook
    dsimp only
    by_cases hsub : sub' = sub
    · subst hsub
      rw [if_pos rfl, ← hlook]
      split
      next hempty => simp [hempty, entry]
      next => simp [entry]
    · split <;> simp [entry, hsub]

theorem lookup_applyCounts_ne_empty {sub sub' : SubjectRef} {p : Placement}
    (h : ∀ sub row, counts.lookup sub = some row → row ≠ ∅) {row : Map TopologyKey Distribution}
    (hrow : (applyCounts keys counts sub p sign).lookup sub' = some row) : row ≠ ∅ := by
  unfold applyCounts at hrow
  split at hrow
  next => exact h sub' row hrow
  next =>
    dsimp only at hrow
    split at hrow
    next =>
      exact h sub' row (Map.of_lookup_erase hrow).2
    next hne =>
      rcases Map.of_lookup_insert hrow with ⟨-, rfl⟩ | ⟨-, hrow⟩
      · exact hne
      · exact h sub' row hrow

end State

/-- The counts are the tallies of a seating. A subject without an entry has no row. -/
structure Tallies (keys : List TopologyKey) (counts : Map SubjectRef (Map TopologyKey Distribution))
    (seats : Seating) : Prop where
  entry : ∀ sub key, entry counts sub key =
    (keys.idxOf? key).bind fun i => tally (seats.cells sub i)
  row : ∀ sub byKey, counts.lookup sub = some byKey → byKey ≠ ∅

namespace Tallies

section

variable (h : Tallies keys counts seats) (hkeys : keys.Nodup)

include h hkeys

theorem up (hfree : seats.lookup uid = none) (seat : Seat) :
    Tallies keys (State.applyCounts keys counts seat.subject seat.placement 1)
      (seats.insert uid seat) where
  entry sub key := by
    rw [State.entry_applyCounts (by decide) hkeys, h.entry, h.entry]
    cases keys.idxOf? key with
    | none => simp
    | some i =>
      simp only [Option.bind_some, Seating.cells_insert hfree, eq_comm (a := sub)]
      split
      next hsub =>
        rw [← hsub, tally_cons]
        rfl
      next => rfl
  row _ _ := State.lookup_applyCounts_ne_empty h.row

theorem down (hseat : seats.lookup uid = some seat) :
    Tallies keys (State.applyCounts keys counts seat.subject seat.placement (-1))
      (seats.erase uid) where
  entry sub key := by
    rw [State.entry_applyCounts (by decide) hkeys, h.entry, h.entry]
    cases keys.idxOf? key with
    | none => simp
    | some i =>
      simp only [Option.bind_some, Seating.cells_erase hseat, eq_comm (a := sub)]
      split
      next hsub =>
        rw [← hsub, if_pos trivial, turn, if_neg (by decide), uncountAt_tally_cons]
      next => rfl
  row _ _ := State.lookup_applyCounts_ne_empty h.row

/-- A pod that is counted at one placement is counted at another one. -/
theorem move (hseat : seats.lookup uid = some seat) (next : Placement) :
    Tallies keys
      (State.applyCounts keys (State.applyCounts keys counts seat.subject seat.placement (-1))
        seat.subject next 1)
      (seats.insert uid ⟨seat.subject, next⟩) := by
  have hfree : (seats.erase uid).lookup uid = none := Finmap.lookup_erase uid seats
  rw [← Map.insert_erase]
  exact (h.down hkeys hseat).up hkeys hfree ⟨seat.subject, next⟩

end

end Tallies

/-! ## The indexes of a seating -/

/-- The pod is listed under the node. -/
def Linked (byNode : Map GoString (Map UID Unit)) (node : GoString) (uid : UID) : Prop :=
  uid ∈ getD byNode node ∅

namespace State

variable {node node' : GoString} {uid' : UID}

theorem linked_linkNode : Linked (s.linkNode node uid).byNode node' uid' ↔
    (node' = node ∧ uid' = uid) ∨ Linked s.byNode node' uid' := by
  rw [Linked, linkNode, Map.getD_insert]
  split
  next heq =>
    subst heq
    simp [Linked]
  next hne => simp [Linked, hne]

theorem linked_unlinkNode : Linked (s.unlinkNode node uid).byNode node' uid' ↔
    ¬(node' = node ∧ uid' = uid) ∧ Linked s.byNode node' uid' := by
  unfold unlinkNode Linked
  cases hset : s.byNode.lookup node with
  | none =>
    refine (and_iff_right_of_imp fun hmem => ?_).symm
    rintro ⟨rfl, -⟩
    rw [getD, hset] at hmem
    exact absurd hmem Finmap.notMem_empty
  | some set =>
    dsimp only
    by_cases hnode : node' = node
    · subst hnode
      have hold : getD s.byNode node' ∅ = set := by rw [getD, hset, Option.getD_some]
      have herase : uid' ∈ set.erase uid ↔ ¬(node' = node' ∧ uid' = uid) ∧ uid' ∈ set := by simp
      split
      next hempty =>
        rw [Map.getD_erase, if_pos rfl, hold, ← herase, hempty]
      next => rw [Map.getD_insert, if_pos rfl, hold, ← herase]
    · split
      next => simp [Map.getD_erase, hnode]
      next => simp [Map.getD_insert, hnode]

/-- Only the index of the nodes changes. -/
@[simp] theorem unlinkNode_frame : (s.unlinkNode node uid).inv = s.inv ∧
    (s.unlinkNode node uid).placements = s.placements ∧
    (s.unlinkNode node uid).subjects = s.subjects ∧
    (s.unlinkNode node uid).counts = s.counts := by
  unfold unlinkNode
  repeat' split
  all_goals exact ⟨rfl, rfl, rfl, rfl⟩

end State

/-- The four indexes are those of the seating. -/
structure Refines (s : State) (seats : Seating) : Prop where
  placements : ∀ uid, s.placements.lookup uid = (seats.lookup uid).map (·.placement)
  subjects : ∀ uid, s.subjects.lookup uid = (seats.lookup uid).map (·.subject)
  byNode : ∀ node uid, Linked s.byNode node uid ↔
    ∃ seat, seats.lookup uid = some seat ∧ seat.placement.nodeName = node
  counts : Tallies s.keys s.counts seats

namespace Refines

variable {opts : StateOptions}

theorem empty (inv : Inventory) : Refines { inv := inv } ∅ where
  placements _ := rfl
  subjects _ := rfl
  byNode node uid := by
    refine iff_of_false Finmap.notMem_empty ?_
    rintro ⟨seat, hseat, -⟩
    cases hseat
  counts :=
    { entry := fun sub key => by
        cases (State.keys { inv := inv }).idxOf? key <;> rfl
      row := fun sub byKey h => by cases h }

/-- A pod that is not counted is seated. -/
theorem seat_free (h : Refines s seats) (hfree : seats.lookup uid = none) (seat : Seat) :
    Refines (s.seat uid seat.subject seat.placement) (seats.insert uid seat) where
  placements uid' := by
    change (s.placements.insert uid seat.placement).lookup uid' = _
    rw [lookup_insert, lookup_insert, h.placements]
    split <;> rfl
  subjects uid' := by
    change (s.subjects.insert uid seat.subject).lookup uid' = _
    rw [lookup_insert, lookup_insert, h.subjects]
    split <;> rfl
  byNode node uid' := by
    refine State.linked_linkNode.trans ?_
    by_cases huid : uid' = uid
    · subst huid
      have hold : ¬Linked s.byNode node uid' := by
        rw [h.byNode, hfree]
        rintro ⟨_, hnone, -⟩
        cases hnone
      simp [hold, eq_comm]
    · simp [huid, h.byNode]
  counts := h.counts.up s.inv.distinct hfree seat

/-- A counted pod is taken out. -/
theorem uncount (h : Refines s seats) (uid : UID) : Refines (s.uncount uid) (seats.erase uid) := by
  unfold State.uncount
  rw [h.placements]
  cases hseat : seats.lookup uid with
  | none =>
    rw [Map.erase_of_lookup_none hseat]
    exact h
  | some seat =>
    have hsub : getD s.subjects uid ⟨[], [], []⟩ = seat.subject := by
      rw [getD, h.subjects, hseat]
      rfl
    simp only [Option.map_some, hsub]
    constructor
    · intro uid'
      rw [State.unlinkNode_frame.2.1]
      change (s.placements.erase uid).lookup uid' = _
      rw [lookup_erase, lookup_erase, h.placements]
      split <;> rfl
    · intro uid'
      rw [State.unlinkNode_frame.2.2.1]
      change (s.subjects.erase uid).lookup uid' = _
      rw [lookup_erase, lookup_erase, h.subjects]
      split <;> rfl
    · intro node uid'
      refine State.linked_unlinkNode.trans ?_
      change _ ∧ Linked s.byNode node uid' ↔ _
      rw [h.byNode, lookup_erase]
      by_cases huid : uid' = uid
      · subst huid
        simp [hseat, eq_comm]
      · simp [huid]
    · rw [State.keys, State.unlinkNode_frame.1, State.unlinkNode_frame.2.2.2]
      exact h.counts.down s.inv.distinct hseat

/-- A counted pod is seated elsewhere. It is unlinked from the old node if it leaves it. -/
theorem reseat (h : Refines s seats) (hseat : seats.lookup uid = some seat) (next : Placement)
    {s' : State} (hinv : s'.inv = s.inv) (hplacements : s'.placements = s.placements)
    (hsubjects : s'.subjects = s.subjects)
    (hcounts : s'.counts = State.applyCounts s.keys s.counts seat.subject seat.placement (-1))
    (hbyNode : ∀ node uid', Linked s'.byNode node uid' ↔
      ¬(node = seat.placement.nodeName ∧ node ≠ next.nodeName ∧ uid' = uid) ∧
        Linked s.byNode node uid') :
    Refines (s'.seat uid seat.subject next) (seats.insert uid ⟨seat.subject, next⟩) where
  placements uid' := by
    change (s'.placements.insert uid next).lookup uid' = _
    rw [hplacements, lookup_insert, lookup_insert, h.placements]
    split <;> rfl
  subjects uid' := by
    change (s'.subjects.insert uid seat.subject).lookup uid' = _
    rw [hsubjects, lookup_insert, lookup_insert, h.subjects]
    split <;> rfl
  byNode node uid' := by
    refine State.linked_linkNode.trans ?_
    rw [hbyNode, h.byNode, lookup_insert]
    by_cases huid : uid' = uid
    · subst huid
      simp only [hseat, and_true, if_true, Option.some.injEq, exists_eq_left']
      constructor
      · rintro (hnode | ⟨hstay, hnode⟩)
        · exact hnode.symm
        · by_contra hne
          exact hstay ⟨hnode.symm, fun heq => hne heq.symm⟩
      · exact fun hnode => Or.inl hnode.symm
    · simp [huid]
  counts := by
    change Tallies s'.inv.keys (State.applyCounts s'.inv.keys s'.counts seat.subject next 1) _
    rw [hinv, hcounts]
    exact h.counts.move s.inv.distinct hseat next

end Refines

/-! ## The handlers on seatings -/

variable {seats : Seating} {s : State} {uid : UID}

namespace Seating

/-- The subject a pod is seated under, or else the one it has now. -/
def subjectOf (opts : StateOptions) (seats : Seating) (pod : Pod) : Option SubjectRef :=
  match seats.lookup pod.uid with
  | some seat => some seat.subject
  | none => resolveSubject pod opts.owners

/-- The seat a pod should have. -/
def seatOf (opts : StateOptions) (inv : Inventory) (seats : Seating) (pod : Pod) : Option Seat :=
  (State.resolvePlacement opts inv pod).bind fun p =>
    (seats.subjectOf opts pod).map fun sub => ⟨sub, p⟩

/-- A pod takes the seat it should have, or none. -/
def update (opts : StateOptions) (inv : Inventory) (seats : Seating) (pod : Pod) : Seating :=
  match seats.seatOf opts inv pod with
  | none => seats.erase pod.uid
  | some seat => seats.insert pod.uid seat

end Seating

namespace Refines

variable {seat : Seat} {opts : StateOptions}

theorem subjectOf (h : Refines s seats) (pod : Pod) :
    s.subjectOf opts pod = seats.subjectOf opts pod := by
  unfold State.subjectOf Seating.subjectOf
  rw [h.subjects]
  cases seats.lookup pod.uid <;> rfl

theorem onPodUpdate (h : Refines s seats) (old : Option Pod) (cur : Pod) :
    Refines (s.onPodUpdate opts old cur) (seats.update opts s.inv cur) := by
  unfold State.onPodUpdate Seating.update Seating.seatOf
  cases hplace : State.resolvePlacement opts s.inv cur with
  | none => exact h.uncount cur.uid
  | some next =>
    simp only [Option.bind_some, h.subjectOf, h.placements]
    cases hseat : seats.lookup cur.uid with
    | none =>
      cases seats.subjectOf opts cur with
      | none => exact h.uncount cur.uid
      | some sub => exact h.seat_free hseat ⟨sub, next⟩
    | some seat =>
      have hsub : seats.subjectOf opts cur = some seat.subject := by
        rw [Seating.subjectOf, hseat]
      simp only [Option.map_some, Option.some.injEq, hsub]
      split
      next hsame =>
        -- The placement has not moved, and neither has the seat.
        rw [← hsame, Map.insert_of_lookup hseat]
        exact h
      next =>
        by_cases hnode : seat.placement.nodeName = next.nodeName
        · simp only [ne_eq, hnode]
          refine h.reseat hseat next rfl rfl rfl rfl fun node uid' => ?_
          refine (and_iff_right_of_imp fun _ => ?_).symm
          rintro ⟨rfl, hne, -⟩
          exact hne hnode
        · simp only [ne_eq, hnode, not_false_eq_true, if_true]
          refine h.reseat hseat next (by simp [State.applyLocked]) (by simp [State.applyLocked])
            (by simp [State.applyLocked]) (by simp [State.applyLocked]) fun node uid' => ?_
          rw [State.linked_unlinkNode]
          refine and_congr_left fun _ => not_congr ⟨?_, fun hleft => ⟨hleft.1, hleft.2.2⟩⟩
          rintro ⟨rfl, rfl⟩
          exact ⟨rfl, hnode, rfl⟩

end Refines

/-! ## Node events -/

/-- The seat with other domains. -/
def Seat.inDomains (domains : List Domain) (seat : Seat) : Seat :=
  { seat with placement := { seat.placement with domains := domains } }

namespace Seating

/-- One pod moves to other domains. -/
def shift (domains : List Domain) (seats : Seating) (uid : UID) : Seating :=
  match seats.lookup uid with
  | none => seats
  | some seat => seats.insert uid (seat.inDomains domains)

/-- The pods on a node move to other domains. -/
def remap (seats : Seating) (node : GoString) (domains : List Domain) : Seating :=
  Map.mapVals (fun seat =>
    if seat.placement.nodeName = node then seat.inDomains domains else seat) seats

theorem lookup_shift (domains : List Domain) (seats : Seating) (uid uid' : UID) :
    (seats.shift domains uid).lookup uid' =
      if uid' = uid then (seats.lookup uid').map (Seat.inDomains domains)
      else seats.lookup uid' := by
  unfold shift
  cases hseat : seats.lookup uid with
  | none =>
    dsimp only
    split
    next heq => rw [heq, hseat, Option.map_none]
    next => rfl
  | some seat =>
    rw [Map.lookup_insert]
    split
    next heq => rw [heq, hseat, Option.map_some]
    next => rfl

theorem lookup_foldl_shift (domains : List Domain) (uids : List UID) (seats : Seating) (uid : UID) :
    (uids.foldl (shift domains) seats).lookup uid =
      if uid ∈ uids then (seats.lookup uid).map (Seat.inDomains domains)
      else seats.lookup uid := by
  induction uids generalizing seats with
  | nil => rfl
  | cons u uids ih =>
    rw [List.foldl_cons, ih, lookup_shift]
    have htwice : ∀ o : Option Seat, (o.map (Seat.inDomains domains)).map (Seat.inDomains domains) =
        o.map (Seat.inDomains domains) := by
      intro o
      cases o <;> rfl
    by_cases hu : uid = u
    · subst hu
      rw [if_pos rfl, if_pos List.mem_cons_self, htwice, ite_self]
    · rw [if_neg hu]
      exact if_congr (by simp [hu]) rfl rfl

theorem foldl_shift_eq_remap {node : GoString} {uids : List UID}
    (h : ∀ uid, uid ∈ uids ↔ ∃ seat, seats.lookup uid = some seat ∧ seat.placement.nodeName = node)
    (domains : List Domain) : uids.foldl (shift domains) seats = seats.remap node domains := by
  refine Finmap.ext_lookup fun uid => ?_
  rw [lookup_foldl_shift, remap, Map.lookup_mapVals]
  cases hseat : seats.lookup uid with
  | none => simp
  | some seat =>
    have hiff : uid ∈ uids ↔ seat.placement.nodeName = node := by simp [h, hseat]
    simp only [Option.map_some, hiff]
    split <;> rfl

end Seating

namespace Refines

theorem remapPod (h : Refines s seats) (domains : List Domain) (hseated : seats.lookup uid ≠ none) :
    Refines (s.remapPod domains uid) (seats.shift domains uid) := by
  obtain ⟨seat, hseat⟩ := Option.ne_none_iff_exists'.1 hseated
  have hplace : s.placements.lookup uid = some seat.placement := by rw [h.placements, hseat]; rfl
  have hsub : Map.getD s.subjects uid ⟨[], [], []⟩ = seat.subject := by
    rw [Map.getD, h.subjects, hseat]
    rfl
  unfold State.remapPod Seating.shift
  simp only [hplace, hseat, hsub, Option.getD_some]
  split
  next hsame =>
    rw [Seat.inDomains, ← hsame, Map.insert_of_lookup hseat]
    exact h
  next =>
    constructor
    · intro uid'
      change (s.placements.insert uid _).lookup uid' = _
      rw [Map.lookup_insert, Map.lookup_insert, h.placements]
      split <;> rfl
    · intro uid'
      change s.subjects.lookup uid' = _
      rw [Map.lookup_insert, h.subjects]
      split
      next heq => rw [heq, hseat]; rfl
      next => rfl
    · intro node uid'
      change Linked s.byNode node uid' ↔ _
      rw [h.byNode, Map.lookup_insert]
      by_cases huid : uid' = uid
      · subst huid
        simp [hseat, Seat.inDomains]
      · simp [huid]
    · exact h.counts.move s.inv.distinct hseat _

/-- The loop moves every pod it visits. -/
theorem foldl_remapPod (domains : List Domain) (uids : List UID) (h : Refines s seats)
    (hseated : ∀ uid ∈ uids, seats.lookup uid ≠ none) :
    Refines (uids.foldl (State.remapPod domains) s) (uids.foldl (Seating.shift domains) seats) := by
  induction uids generalizing s seats with
  | nil => exact h
  | cons uid uids ih =>
    refine ih (h.remapPod domains (hseated uid List.mem_cons_self)) fun uid' hmem => ?_
    have hold := hseated uid' (List.mem_cons_of_mem uid hmem)
    rw [Seating.lookup_shift]
    split
    next => simpa using hold
    next => exact hold

theorem remapNode (h : Refines s seats) (w : Map.Walk UID) (node : GoString) :
    Refines (s.remapNode w node) (seats.remap node (s.inv.tupleOf node)) := by
  have hlisted : ∀ uid, uid ∈ Map.walk w (Map.getD s.byNode node ∅) ↔
      ∃ seat, seats.lookup uid = some seat ∧ seat.placement.nodeName = node :=
    fun uid => Map.mem_walk.trans (h.byNode node uid)
  rw [← Seating.foldl_shift_eq_remap hlisted]
  refine h.foldl_remapPod _ _ fun uid hmem => ?_
  obtain ⟨seat, hseat, -⟩ := (hlisted uid).1 hmem
  rw [hseat]
  exact Option.some_ne_none seat

/-- The seating says nothing about the nodes. -/
theorem withInv (h : Refines s seats) {inv : Inventory} (hkeys : inv.keys = s.inv.keys) :
    Refines { s with inv := inv } seats where
  placements := h.placements
  subjects := h.subjects
  byNode := h.byNode
  counts := by
    change Tallies inv.keys s.counts seats
    rw [hkeys]
    exact h.counts

end Refines

namespace State

@[simp] theorem uncount_inv (s : State) (uid : UID) : (s.uncount uid).inv = s.inv := by
  unfold uncount
  split
  · rfl
  · exact unlinkNode_frame.1

@[simp] theorem onPodUpdate_inv (opts : StateOptions) (s : State) (old : Option Pod) (cur : Pod) :
    (s.onPodUpdate opts old cur).inv = s.inv := by
  unfold onPodUpdate
  split
  next => exact uncount_inv s cur.uid
  next next hplace =>
    dsimp only
    split
    next => rfl
    next =>
      split
      next => exact uncount_inv s cur.uid
      next =>
        split
        next => rfl
        next =>
          split
          next => exact unlinkNode_frame.1
          next => rfl

@[simp] theorem remapPod_inv (s : State) (domains : List Domain) (uid : UID) :
    (s.remapPod domains uid).inv = s.inv := by
  unfold remapPod
  dsimp only
  split <;> rfl

@[simp] theorem remapNode_inv (w : Map.Walk UID) (s : State) (node : GoString) :
    (s.remapNode w node).inv = s.inv := by
  unfold remapNode
  refine List.foldlRecOn (motive := fun s' : State => s'.inv = s.inv) _ _ rfl fun s' h uid _ => ?_
  rw [remapPod_inv, h]

end State

/-! ## Events -/

/-- What the informers tell the state. A node event comes with the order in which the
    pods on the node are visited. -/
inductive Event where
  | podAdd (pod : Pod)
  | podUpdate (old : Option Pod) (cur : Pod)
  | podDelete (obj : State.Deleted Pod)
  | nodeUpsert (w : Map.Walk UID) (node : Node)
  | nodeDelete (w : Map.Walk UID) (obj : State.Deleted Node)

/-- The handler of an event. -/
def State.step (opts : StateOptions) (s : State) : Event → State
  | .podAdd pod => s.onPodAdd opts pod
  | .podUpdate old cur => s.onPodUpdate opts old cur
  | .podDelete obj => s.onPodDelete obj
  | .nodeUpsert w node => s.onNodeUpsert w node
  | .nodeDelete w obj => s.onNodeDelete w obj

/-- The inventory after an event. -/
def Inventory.step (inv : Inventory) : Event → Inventory
  | .nodeUpsert _ node => (inv.upsert node).1
  | .nodeDelete _ obj => match obj.obj with
    | none => inv
    | some node => (inv.remove node.name).1
  | _ => inv

namespace Seating

def delete (seats : Seating) (obj : State.Deleted Pod) : Seating :=
  match obj.obj with
  | none => seats
  | some pod => seats.erase pod.uid

def nodeUpsert (inv : Inventory) (seats : Seating) (node : Node) : Seating :=
  if (inv.upsert node).2.domainsChanged then
    seats.remap node.name ((inv.upsert node).1.tupleOf node.name)
  else seats

def nodeDelete (inv : Inventory) (seats : Seating) (obj : State.Deleted Node) : Seating :=
  match obj.obj with
  | none => seats
  | some node =>
    if (inv.remove node.name).2.removed then
      seats.remap node.name ((inv.remove node.name).1.tupleOf node.name)
    else seats

/-- The seating after an event. -/
def step (opts : StateOptions) (inv : Inventory) (seats : Seating) : Event → Seating
  | .podAdd pod => seats.update opts inv pod
  | .podUpdate _ cur => seats.update opts inv cur
  | .podDelete obj => seats.delete obj
  | .nodeUpsert _ node => seats.nodeUpsert inv node
  | .nodeDelete _ obj => seats.nodeDelete inv obj

end Seating

/-- What a node upsert does to the inventory and to the seating. -/
theorem onNodeUpsert_spec (h : Refines s seats) (w : Map.Walk UID) (node : Node) :
    (s.onNodeUpsert w node).inv = (s.inv.upsert node).1 ∧
      Refines (s.onNodeUpsert w node) (seats.nodeUpsert s.inv node) := by
  have hinv := h.withInv (s.inv.upsert_keys node)
  unfold State.onNodeUpsert Seating.nodeUpsert
  dsimp only
  split
  next => exact ⟨State.remapNode_inv w _ node.name, hinv.remapNode w node.name⟩
  next => exact ⟨rfl, hinv⟩

theorem onNodeDelete_spec (h : Refines s seats) (w : Map.Walk UID) (obj : State.Deleted Node) :
    (s.onNodeDelete w obj).inv = s.inv.step (.nodeDelete w obj) ∧
      Refines (s.onNodeDelete w obj) (seats.nodeDelete s.inv obj) := by
  unfold State.onNodeDelete Seating.nodeDelete Inventory.step
  dsimp only
  cases obj.obj with
  | none => exact ⟨rfl, h⟩
  | some node =>
    have hinv := h.withInv (s.inv.remove_keys node.name)
    dsimp only
    split
    next => exact ⟨State.remapNode_inv w _ node.name, hinv.remapNode w node.name⟩
    next => exact ⟨rfl, hinv⟩

theorem onPodDelete_spec (h : Refines s seats) (obj : State.Deleted Pod) :
    (s.onPodDelete obj).inv = s.inv ∧ Refines (s.onPodDelete obj) (seats.delete obj) := by
  unfold State.onPodDelete Seating.delete
  cases obj.obj with
  | none => exact ⟨rfl, h⟩
  | some pod => exact ⟨s.uncount_inv pod.uid, h.uncount pod.uid⟩

/-- Every handler refines the step on seatings. -/
theorem step_spec (h : Refines s seats) (opts : StateOptions) (e : Event) :
    (s.step opts e).inv = s.inv.step e ∧ Refines (s.step opts e) (seats.step opts s.inv e) := by
  cases e with
  | podAdd pod => exact ⟨s.onPodUpdate_inv opts none pod, h.onPodUpdate none pod⟩
  | podUpdate old cur => exact ⟨s.onPodUpdate_inv opts old cur, h.onPodUpdate old cur⟩
  | podDelete obj => exact onPodDelete_spec h obj
  | nodeUpsert w node => exact onNodeUpsert_spec h w node
  | nodeDelete w obj => exact onNodeDelete_spec h w obj

end Lookout.TopologyDrift
