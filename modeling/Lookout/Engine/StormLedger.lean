-- SUMMARY: The storm correlator as a membership ledger, its counters, and the size reports of a storm.
import Lookout.Engine.Storm
import Lookout.Lib.Ledger
import Lookout.Lib.Run
import Mathlib.Algebra.BigOperators.Group.List.Basic
import Mathlib.Algebra.GroupWithZero.Nat

/-!
# The correlator's ledger

The correlator refines a membership ledger: its storms are the groups, the keys of
the window are the waiting items, and `byKey` is the index of owners. Every
operation of the correlator is one operation of the ledger, or none. The counters
that a storm keeps next to its member map agree with the map in every state.

An attachment may be followed by a size report. The storm remembers when it reported last
and which size it gave, and both start at the formation. A report that the rate limit holds
back leaves this cursor where it is, so the next one counts all the growth since.
-/

namespace Lookout.Engine

open StormState
open Ledger (ext' gather join narrow)

variable {st : StormState} {k : EventKey} {c : StormCorrelator}

/-! ## The counters of one storm -/

namespace StormState

/-- The counters are those of the member map. -/
structure Balanced (st : StormState) : Prop where
  unresolved : st.unresolved = (Ledger.unsettled st.resolved).card
  memberCount : st.memberCount = st.resolved.keys.card

@[simp] theorem raise_frame (sev : Severity) (st : StormState) :
    (st.raise sev).id = st.id ∧ (st.raise sev).resolved = st.resolved ∧
      (st.raise sev).unresolved = st.unresolved ∧ (st.raise sev).memberCount = st.memberCount := by
  unfold raise
  split <;> exact ⟨rfl, rfl, rfl, rfl⟩

theorem addMember_id (m : StormMember) (sev : Severity) (seen now : Int) (st : StormState) :
    (st.addMember m sev seen now).id = st.id := by
  simp only [addMember]
  split <;> simp [arm, recordMember]

theorem lookup_addMember (m : StormMember) (sev : Severity) (seen now : Int) (st : StormState)
    (k : EventKey) : (st.addMember m sev seen now).resolved.lookup k =
      if k = m.key then some false else st.resolved.lookup k := by
  simp only [addMember, raise_frame]
  split
  · simp [arm, Map.lookup_insert]
  · next hfalse =>
    rw [(raise_frame _ _).2.1]
    split
    · next hk => rw [hk, hfalse]
    · rfl
  · simp [arm, recordMember, Map.lookup_insert]

theorem balanced_addMember (h : st.Balanced) (m : StormMember) (sev : Severity) (seen now : Int) :
    (st.addMember m sev seen now).Balanced := by
  obtain ⟨hunres, hcount⟩ := h
  simp only [addMember, raise_frame]
  split
  · next htrue =>
    constructor
    · simp only [arm, raise_frame]
      rw [Ledger.card_unsettled_insert_false (by rw [htrue]; decide), hunres]
      rfl
    · simp only [arm, raise_frame]
      rw [Ledger.card_keys_insert_of_mem (by rw [htrue]; exact Option.some_ne_none _), hcount]
  · exact ⟨by simpa using hunres, by simpa using hcount⟩
  · next hnone =>
    constructor
    · simp only [arm, recordMember, raise_frame]
      rw [Ledger.card_unsettled_insert_false (by rw [hnone]; exact nofun), hunres]
      rfl
    · simp only [arm, recordMember, raise_frame]
      rw [Ledger.card_keys_insert_of_notMem hnone, hcount]

theorem Balanced.live (h : st.Balanced) (hk : st.resolved.lookup k = some false) :
    0 < st.unresolved := by
  rw [h.unresolved]
  exact Int.natCast_pos.2 (Finset.card_pos.2 ⟨k, Ledger.mem_unsettled.2 hk⟩)

theorem maybeSizeUpdate_frame (now : Int) (st : StormState) :
    (st.maybeSizeUpdate now).1.id = st.id ∧ (st.maybeSizeUpdate now).1.resolved = st.resolved ∧
      ((st.maybeSizeUpdate now).1.Balanced ↔ st.Balanced) := by
  unfold maybeSizeUpdate
  split
  · exact ⟨rfl, rfl, Iff.rfl⟩
  · split
    · exact ⟨rfl, rfl, Iff.rfl⟩
    · exact ⟨rfl, rfl, fun h => ⟨h.1, h.2⟩, fun h => ⟨h.1, h.2⟩⟩

theorem enrol_id (q : PendingIncident) (st : StormState) : (st.enrol q).id = st.id := by
  simp [enrol, arm, recordMember]

theorem enrol_resolved (q : PendingIncident) (st : StormState) :
    (st.enrol q).resolved = st.resolved.insert q.member.key false := by
  simp [enrol, arm, recordMember]

theorem balanced_enrol (h : st.Balanced) {q : PendingIncident}
    (hnew : st.resolved.lookup q.member.key = none) : (st.enrol q).Balanced := by
  constructor
  · rw [enrol_resolved, Ledger.card_unsettled_insert_false (by rw [hnew]; exact nofun)]
    simp [enrol, arm, recordMember, h.unresolved]
  · rw [enrol_resolved, Ledger.card_keys_insert_of_notMem hnew]
    simp [enrol, arm, recordMember, h.memberCount]

theorem foldl_enrol_id (group : List PendingIncident) (st : StormState) :
    (group.foldl (fun st q => st.enrol q) st).id = st.id :=
  Run.foldl_keeps (fun st q => enrol_id q st) group st

theorem lookup_foldl_enrol (group : List PendingIncident) (st : StormState) (k : EventKey) :
    (group.foldl (fun st q => st.enrol q) st).resolved.lookup k =
      if k ∈ group.map (·.member.key) then some false else st.resolved.lookup k := by
  induction group generalizing st with
  | nil => rfl
  | cons q group ih =>
    rw [List.foldl_cons, ih, enrol_resolved, Map.lookup_insert, List.map_cons]
    by_cases hk : k = q.member.key
    · simp [hk]
    · simp [hk]

theorem balanced_foldl_enrol {group : List PendingIncident} (h : st.Balanced)
    (hnodup : (group.map (·.member.key)).Nodup)
    (hnew : ∀ k ∈ group.map (·.member.key), st.resolved.lookup k = none) :
    (group.foldl (fun st q => st.enrol q) st).Balanced := by
  induction group generalizing st with
  | nil => exact h
  | cons q group ih =>
    obtain ⟨hq, hrest⟩ := List.nodup_cons.1 hnodup
    refine ih (balanced_enrol h (hnew _ List.mem_cons_self)) hrest fun k hk => ?_
    rw [enrol_resolved, Map.lookup_insert, if_neg (by rintro rfl; exact hq hk)]
    exact hnew k (List.mem_cons_of_mem _ hk)

theorem settle_id (key : EventKey) (st : StormState) : (st.settle key).id = st.id := by
  unfold settle
  split <;> rfl

variable {key : EventKey}

theorem lookup_settle (hknown : st.resolved.lookup key ≠ none) (k : EventKey) :
    (st.settle key).resolved.lookup k = if k = key then some true else st.resolved.lookup k := by
  unfold settle
  split
  · exact Map.lookup_insert _ _ _ _
  · next hnot =>
    split
    · next hk =>
      subst hk
      cases hb : st.resolved.lookup k with
      | none => exact absurd hb hknown
      | some b => cases b with
        | false => exact absurd hb hnot
        | true => rfl
    · rfl

theorem balanced_settle (h : st.Balanced) (key : EventKey) : (st.settle key).Balanced := by
  unfold settle
  split
  · next hfalse =>
    constructor
    · have hcard := Ledger.card_unsettled_insert_true hfalse
      rw [h.unresolved, ← hcard]
      push_cast
      omega
    · change st.memberCount = _
      rw [Ledger.card_keys_insert_of_mem (by rw [hfalse]; exact Option.some_ne_none _),
        h.memberCount]
  · exact h

theorem balanced_arm (h : st.Balanced) (htrue : st.resolved.lookup key = some true) :
    (st.arm key).Balanced where
  unresolved := by
    rw [arm, Ledger.card_unsettled_insert_false (by rw [htrue]; decide), h.unresolved]
    rfl
  memberCount := by
    rw [arm, Ledger.card_keys_insert_of_mem (by rw [htrue]; exact Option.some_ne_none _),
      h.memberCount]

end StormState

/-! ## The ledger -/

namespace StormCorrelator

/-- The keys of the window. -/
def windowKeys (c : StormCorrelator) : List EventKey := c.pending.map (·.member.key)

/-- The correlator as a ledger. -/
def ledger (c : StormCorrelator) : Ledger GoString EventKey where
  status id k := (c.storms.lookup id).bind fun st => st.resolved.lookup k
  owner k := c.byKey.lookup k
  waiting := {k | k ∈ c.windowKeys}

/-- What every reachable correlator satisfies: storms are filed under their id, a key
    is windowed once, the index names open storms that know the key, and an open
    storm has balanced counters and someone unresolved. -/
structure Indexed (c : StormCorrelator) : Prop where
  ids : ∀ {id st}, c.storms.lookup id = some st → st.id = id
  windowed : c.windowKeys.Nodup
  index : ∀ {k id}, c.byKey.lookup k = some id → c.ledger.status id k ≠ none
  balanced : ∀ {id st}, c.storms.lookup id = some st → st.Balanced
  live : ∀ {id st}, c.storms.lookup id = some st → 0 < st.unresolved

variable {id : GoString}

theorem ledger_status (h : c.storms.lookup id = some st) (k : EventKey) :
    c.ledger.status id k = st.resolved.lookup k := by
  simp [ledger, h]

variable {st' : StormState} {kept : List PendingIncident}

/-- Replacing a storm by one with the same member map leaves the ledger as it is. -/
theorem ledger_insert_same (h : c.storms.lookup id = some st) (hres : st'.resolved = st.resolved) :
    ({ c with storms := c.storms.insert id st' } : StormCorrelator).ledger = c.ledger := by
  refine ext' (fun g k => ?_) (fun _ => rfl) fun _ => Iff.rfl
  simp only [ledger, Map.lookup_insert]
  split
  · next hg =>
    subst hg
    simp [h, hres]
  · rfl

/-- A call that writes one storm keeps the invariant if that storm is as it should be, the
    window is without repetitions and the index leads to members. -/
theorem Indexed.insert (h : c.Indexed) {c' : StormCorrelator}
    (hstorms : c'.storms = c.storms.insert id st) (hid : st.id = id) (hbal : st.Balanced)
    (hlive : 0 < st.unresolved) (hwindowed : c'.windowKeys.Nodup)
    (hindex : ∀ {k g}, c'.byKey.lookup k = some g → c'.ledger.status g k ≠ none) :
    c'.Indexed := by
  have hcases : ∀ {g s}, c'.storms.lookup g = some s →
      (g = id ∧ s = st) ∨ c.storms.lookup g = some s := by
    intro g s hg
    rw [hstorms] at hg
    exact (Map.of_lookup_insert hg).imp (.imp_right Eq.symm) And.right
  refine ⟨fun hg => ?_, hwindowed, hindex, fun hg => ?_, fun hg => ?_⟩
  · rcases hcases hg with ⟨rfl, rfl⟩ | hg
    · exact hid
    · exact h.ids hg
  · rcases hcases hg with ⟨rfl, rfl⟩ | hg
    · exact hbal
    · exact h.balanced hg
  · rcases hcases hg with ⟨rfl, rfl⟩ | hg
    · exact hlive
    · exact h.live hg

/-- Replacing an open storm by one with the same members and counters. -/
theorem Indexed.insert_same (h : c.Indexed) (hst : c.storms.lookup id = some st)
    (hid : st'.id = st.id) (hres : st'.resolved = st.resolved)
    (hunres : st'.unresolved = st.unresolved) (hcount : st'.memberCount = st.memberCount) :
    ({ c with storms := c.storms.insert id st' } : StormCorrelator).ledger = c.ledger ∧
      ({ c with storms := c.storms.insert id st' } : StormCorrelator).Indexed := by
  have hb := h.balanced hst
  refine ⟨ledger_insert_same hst hres, ?_⟩
  refine h.insert rfl (hid.trans (h.ids hst)) ⟨?_, ?_⟩ (hunres ▸ h.live hst) h.windowed ?_
  · rw [hunres, hres, hb.unresolved]
  · rw [hcount, hres, hb.memberCount]
  · rw [ledger_insert_same hst hres]
    exact h.index

/-! ## Closing -/

/-- Drop the storms in `closed` and their index entries, and part of the window. -/
def drop (closed : GoString → Bool) (kept : List PendingIncident) (c : StormCorrelator) :
    StormCorrelator :=
  { c with
    pending := kept
    storms := Map.filter (fun id _ => !closed id) c.storms
    byKey := Map.filter (fun _ owner => !closed owner) c.byKey }

theorem prune_eq_drop (now : Int) (c : StormCorrelator) :
    c.prune now = c.drop (c.expired now) (c.pending.filter fun q => q.arrivedAt > now - c.window) :=
  rfl

theorem close_eq_drop (id : GoString) (c : StormCorrelator) :
    c.close id = c.drop (fun g => g = id) c.pending := by
  have hstorms : c.storms.erase id = Map.filter (fun g _ => !decide (g = id)) c.storms := by
    refine Finmap.ext_lookup fun g => ?_
    rw [Map.lookup_erase, Map.lookup_filter]
    cases hl : c.storms.lookup g <;> simp [Option.filter]
  simp only [close, drop, hstorms]
  simp

theorem lookup_drop {closed : GoString → Bool} :
    (c.drop closed kept).storms.lookup id = some st ↔
      c.storms.lookup id = some st ∧ closed id = false := by
  rw [drop, Map.lookup_filter, Option.filter_eq_some_iff]
  simp

theorem ledger_drop (closed : GoString → Bool) (kept : List PendingIncident)
    (c : StormCorrelator) : (c.drop closed kept).ledger =
      c.ledger.narrow (fun id => closed id = true) {k | k ∈ kept.map (·.member.key)} := by
  refine ext' (fun g k => ?_) (fun k => ?_) fun _ => Iff.rfl
  · simp only [ledger, drop, narrow, Map.lookup_filter]
    by_cases hc : closed g = true <;> cases hl : c.storms.lookup g <;> simp [Option.filter, hc]
  · simp only [ledger, drop, narrow, Map.lookup_filter]
    cases hl : c.byKey.lookup k with
    | none => rfl
    | some g => by_cases hc : closed g = true <;> simp

theorem Indexed.drop (h : c.Indexed) (closed : GoString → Bool) (hkept : kept.Sublist c.pending) :
    (c.drop closed kept).Indexed where
  ids hst := h.ids (lookup_drop.1 hst).1
  windowed := List.Nodup.sublist (hkept.map _) h.windowed
  index := by
    intro k id hk
    simp only [StormCorrelator.drop, Map.lookup_filter, Option.filter_eq_some_iff] at hk
    have hopen : closed id = false := by simpa using hk.2
    rw [ledger_drop]
    simpa [narrow, hopen] using h.index hk.1
  balanced hst := h.balanced (lookup_drop.1 hst).1
  live hst := h.live (lookup_drop.1 hst).1

theorem Indexed.prune (h : c.Indexed) (now : Int) : (c.prune now).Indexed :=
  prune_eq_drop now c ▸ h.drop _ List.filter_sublist

theorem Indexed.close (h : c.Indexed) (id : GoString) : (c.close id).Indexed :=
  close_eq_drop id c ▸ h.drop _ (List.Sublist.refl _)

/-! ## Attaching -/

section Attach

theorem ledger_attach (hst : c.storms.lookup st.id = some st) (now : Int) (member : StormMember)
    (sev : Severity) (seen : Int) :
    (c.attach now member sev seen st).1.ledger = c.ledger.join st.id member.key := by
  obtain ⟨-, hres, -⟩ := maybeSizeUpdate_frame now (st.addMember member sev seen now)
  refine ext' (fun g k => ?_) (fun k => ?_) fun _ => Iff.rfl
  · simp only [ledger, attach, join, addMember_id]
    by_cases hg : g = st.id
    · subst hg
      simp [hst, hres, lookup_addMember]
    · simp [hg]
  · simp only [ledger, attach, join, Map.lookup_insert, addMember_id]
    by_cases hk : k = member.key <;> simp

theorem Indexed.attach (h : c.Indexed) (hst : c.storms.lookup st.id = some st) (now : Int)
    (member : StormMember) (sev : Severity) (seen : Int) :
    (c.attach now member sev seen st).1.Indexed := by
  obtain ⟨hid, hres, hbal⟩ :=
    maybeSizeUpdate_frame now (st.addMember member sev seen now)
  have hbal' := hbal.2 (balanced_addMember (h.balanced hst) member sev seen now)
  have hstorms : (c.attach now member sev seen st).1.storms = c.storms.insert st.id
      ((st.addMember member sev seen now).maybeSizeUpdate now).1 := by
    simp only [StormCorrelator.attach, addMember_id]
  refine h.insert hstorms (hid.trans (addMember_id _ _ _ _ _)) hbal'
    (hbal'.live (k := member.key) ?_) h.windowed fun {k id} hk => ?_
  · rw [hres, lookup_addMember, if_pos rfl]
  · rw [ledger_attach hst]
    simp only [StormCorrelator.attach, Map.lookup_insert, addMember_id] at hk
    simp only [join]
    split at hk
    · next hkey =>
      cases hk
      simp [hkey]
    · next hkey =>
      rw [if_neg fun hboth => hkey hboth.2]
      exact h.index hk

end Attach

/-! ## Windowing -/

variable {f : PendingIncident → Option PendingIncident} (p : PendingIncident) (now : Int)

/-- Replacing one entry by an entry with its key keeps the keys. -/
theorem map_key_replaceF (hf : ∀ q q', f q = some q' → q'.member.key = q.member.key)
    (l : List PendingIncident) : (l.replaceF f).map (·.member.key) = l.map (·.member.key) := by
  induction l with
  | nil => rfl
  | cons q l ih =>
    rw [List.replaceF]
    cases hq : f q with
    | none => simp [ih]
    | some q' => simp [hf q q' hq]

theorem windowKeys_enqueue (c : StormCorrelator) :
    (c.enqueue p).windowKeys =
      if p.member.key ∈ c.windowKeys then c.windowKeys else c.windowKeys ++ [p.member.key] := by
  have hany : (c.pending.any fun q => q.member.key = p.member.key) = true ↔
      p.member.key ∈ c.windowKeys := by
    simp [windowKeys]
  unfold windowKeys enqueue at *
  split
  · next h =>
    rw [if_pos (hany.1 h)]
    refine map_key_replaceF (fun q q' hq => ?_) _
    split at hq
    · next hkey =>
      cases hq
      exact hkey.symm
    · cases hq
  · next h => rw [if_neg fun hmem => h (hany.2 hmem), List.map_append, List.map_singleton]

theorem mem_replaceF {p : PendingIncident} {l : List PendingIncident} (h : ∃ q ∈ l, f q = some p)
    (hf : ∀ q q', f q = some q' → q' = p) : p ∈ l.replaceF f := by
  induction l with
  | nil => simp at h
  | cons q l ih =>
    rw [List.replaceF]
    cases hq : f q with
    | none =>
      obtain ⟨q₀, hq₀, hfq₀⟩ := h
      rcases List.mem_cons.1 hq₀ with rfl | hmem
      · rw [hq] at hfq₀
        cases hfq₀
      · exact List.mem_cons_of_mem _ (ih ⟨q₀, hmem, hfq₀⟩)
    | some q' =>
      rw [hf q q' hq]
      exact List.mem_cons_self

/-- The observed incident is in the window. -/
theorem mem_enqueue (c : StormCorrelator) : p ∈ (c.enqueue p).pending := by
  unfold enqueue
  split
  · next h =>
    obtain ⟨q, hq, hkey⟩ := List.any_eq_true.1 h
    refine mem_replaceF ⟨q, hq, if_pos (by simpa using hkey)⟩ fun q q' hq => ?_
    split at hq
    · exact (Option.some.inj hq).symm
    · cases hq
  · exact List.mem_append_right _ List.mem_cons_self

theorem ledger_enqueue (c : StormCorrelator) :
    (c.enqueue p).ledger = c.ledger.wait p.member.key := by
  refine ext' (fun _ _ => rfl) (fun _ => rfl) fun k => ?_
  change k ∈ (c.enqueue p).windowKeys ↔ k = p.member.key ∨ k ∈ c.windowKeys
  rw [windowKeys_enqueue]
  split
  · next hmem =>
    constructor
    · exact Or.inr
    · rintro (rfl | hk)
      · exact hmem
      · exact hk
  · rw [List.mem_append, List.mem_singleton, or_comm]

theorem Indexed.enqueue (h : c.Indexed) (p : PendingIncident) : (c.enqueue p).Indexed where
  ids := h.ids
  windowed := by
    rw [windowKeys_enqueue]
    split
    · exact h.windowed
    · next hnew => exact List.nodup_append.2 ⟨h.windowed, List.nodup_singleton _, by
        rintro k hk k' hk' rfl
        exact hnew (List.mem_singleton.1 hk' ▸ hk)⟩
  index := by
    exact h.index
  balanced := h.balanced
  live := h.live

/-! ## Forming -/

/-- The keys of the incidents a storm is formed over. -/
def groupKeys (f : Formation) : List EventKey := f.group.map (·.member.key)

theorem lookup_foldl_byKey (group : List PendingIncident) (id : GoString) (m : Map EventKey GoString)
    (k : EventKey) : (group.foldl (fun m q => m.insert q.member.key id) m).lookup k =
      if k ∈ group.map (·.member.key) then some id else m.lookup k := by
  induction group generalizing m with
  | nil => rfl
  | cons q group ih =>
    rw [List.foldl_cons, ih, Map.lookup_insert, List.map_cons]
    by_cases hk : k = q.member.key <;> simp [hk]

theorem stormOver_id (f : Formation) (first : PendingIncident) :
    (stormOver now f first).id = f.ancestor.key := by
  simp [stormOver, foldl_enrol_id]

theorem lookup_stormOver (f : Formation) (first : PendingIncident) (k : EventKey) :
    (stormOver now f first).resolved.lookup k = if k ∈ groupKeys f then some false else none := by
  simp only [stormOver, lookup_foldl_enrol]
  rfl

theorem balanced_stormOver {f : Formation} (first : PendingIncident) (hnodup : (groupKeys f).Nodup) :
    (stormOver now f first).Balanced := by
  have hempty : ∀ st : StormState, st.resolved = ∅ → st.unresolved = 0 → st.memberCount = 0 →
      (f.group.foldl (fun st q => st.enrol q) st).Balanced := by
    intro st hres hunres hcount
    refine balanced_foldl_enrol ⟨?_, ?_⟩ hnodup fun k _ => ?_
    · rw [hunres, hres]
      rfl
    · rw [hcount, hres]
      rfl
    · rw [hres, Finmap.lookup_empty]
  constructor
  · exact (hempty _ (by rfl) (by rfl) (by rfl)).unresolved
  · exact (hempty _ (by rfl) (by rfl) (by rfl)).memberCount

section Form

variable {f : Formation}

theorem form_eq (now : Int) (member : StormMember) (hne : f.group ≠ []) :
    ∃ first ∈ f.group, c.form now f member =
      (c.install (stormOver now f first) f.group,
        .formed (stormOver now f first).info (stormOver now f first).members member) := by
  unfold form
  split
  · next hnil => exact absurd hnil hne
  · next first rest hgroup => exact ⟨first, hgroup ▸ List.mem_cons_self, rfl⟩

theorem ledger_install (now : Int) (first : PendingIncident) :
    (c.install (stormOver now f first) f.group).ledger =
      c.ledger.gather f.ancestor.key {k | k ∈ groupKeys f} := by
  refine ext' (fun g k => ?_) (fun k => ?_) fun k => ?_
  · simp only [ledger, install, gather, Map.lookup_insert, stormOver_id]
    by_cases hg : g = f.ancestor.key
    · simp [hg, lookup_stormOver]
    · simp [hg]
  · simp only [ledger, install, gather, lookup_foldl_byKey, stormOver_id]
    by_cases hk : k ∈ f.group.map (·.member.key)
    · rw [if_pos hk, if_pos (by exact hk)]
    · rw [if_neg hk, if_neg (by exact hk)]
  · simp only [ledger, install, windowKeys, groupKeys, List.mem_map, List.mem_filter,
      List.all_eq_true, decide_eq_true_eq]
    constructor
    · rintro ⟨q, ⟨hq, hout⟩, rfl⟩
      refine ⟨⟨q, hq, rfl⟩, ?_⟩
      rintro ⟨g, hg, hkey⟩
      exact hout g hg hkey
    · rintro ⟨⟨q, hq, rfl⟩, hout⟩
      exact ⟨q, ⟨hq, fun g hg hkey => hout ⟨g, hg, hkey⟩⟩, rfl⟩

theorem Indexed.install (h : c.Indexed) (now : Int) {first : PendingIncident}
    (hfirst : first ∈ f.group) (hsub : f.group.Sublist c.pending)
    (hfresh : c.storms.lookup f.ancestor.key = none) :
    (c.install (stormOver now f first) f.group).Indexed := by
  have hbal := balanced_stormOver now first (List.Nodup.sublist (hsub.map _) h.windowed)
  have hstorms : (c.install (stormOver now f first) f.group).storms =
      c.storms.insert f.ancestor.key (stormOver now f first) := by
    rw [StormCorrelator.install, stormOver_id]
  refine h.insert hstorms (stormOver_id now f first) hbal (hbal.live (k := first.member.key) ?_)
    (List.Nodup.sublist (List.Sublist.map _ List.filter_sublist) h.windowed) fun {k id} hk => ?_
  · rw [lookup_stormOver, if_pos]
    exact List.mem_map.2 ⟨first, hfirst, rfl⟩
  · simp only [StormCorrelator.install, lookup_foldl_byKey, stormOver_id] at hk
    rw [ledger_install]
    simp only [gather]
    split at hk
    · next hmem =>
      cases hk
      rw [if_pos rfl, if_pos (by exact hmem)]
      exact Option.some_ne_none _
    · -- An old index entry names an open storm, so not the new one.
      have hold := h.index hk
      have hid : id ≠ f.ancestor.key := by
        rintro rfl
        exact hold (by simp [ledger, hfresh])
      rw [if_neg hid]
      exact hold

end Form

/-! ## What an observation finds -/

section Formation

variable {now : Int} {fleet : Option Int} {topo : List Ancestor} {sig : Signal} {f : Formation}

theorem distinctKeys_subset {cands : List Candidate} {a : Candidate}
    (h : a ∈ distinctKeys cands) : a ∈ cands := by
  refine List.foldlRecOn (motive := fun kept => a ∈ kept → a ∈ cands) cands _ (by simp)
    (fun kept ih b hb hmem => ?_) h
  split at hmem
  · exact ih hmem
  · rcases List.mem_append.1 hmem with hkept | hlast
    · exact ih hkept
    · exact List.mem_singleton.1 hlast ▸ hb

/-- Without a home, none of the ancestors a signal offers has an open storm. -/
theorem lookup_of_home_none (h : c.home fleet topo sig = none) {a : Ancestor}
    (ha : a ∈ (c.candidates fleet topo sig).map (·.ancestor) ++
      minedAncestors c.mined (minedValues c.mined sig)) : c.storms.lookup a.key = none :=
  List.findSome?_eq_none_iff.1 h a ha

/-- A home is an open storm, filed under its id. -/
theorem lookup_of_home (hi : c.Indexed) (h : c.home fleet topo sig = some st) :
    c.storms.lookup st.id = some st := by
  obtain ⟨a, -, ha⟩ := List.exists_of_findSome?_eq_some h
  rwa [hi.ids ha]

/-- A formation is over part of the window, includes the observed incident, and has a
    key that no open storm has. -/
structure Founded (c : StormCorrelator) (p : PendingIncident) (f : Formation) : Prop where
  mem : p ∈ f.group
  sub : f.group.Sublist c.pending
  fresh : c.storms.lookup f.ancestor.key = none

theorem founded_of_formation (hhome : c.home fleet topo sig = none)
    (h : (c.enqueue (c.pendingOf now fleet topo sig)).formation now fleet
      (c.pendingOf now fleet topo sig) = some f) :
    Founded (c.enqueue (c.pendingOf now fleet topo sig)) (c.pendingOf now fleet topo sig) f := by
  generalize hp : c.pendingOf now fleet topo sig = p at h ⊢
  rcases Option.or_eq_some_iff.1 h with hdeclared | ⟨-, hmined⟩
  · obtain ⟨a, ha, hbind⟩ := List.exists_of_findSome?_eq_some hdeclared
    obtain ⟨⟨min, window⟩, hthreshold, hgroup⟩ := Option.bind_eq_some_iff.1 hbind
    have hwindow : 0 < window := by
      unfold threshold at hthreshold
      split at hthreshold
      · obtain ⟨m, -, hm⟩ := Option.map_eq_some_iff.1 hthreshold
        cases hm
        decide
      · cases hthreshold
        exact c.window_pos
    have hcand : a ∈ c.candidates fleet topo sig := distinctKeys_subset (by
      rw [← hp] at ha
      exact ha)
    dsimp only at hgroup
    split at hgroup
    · cases hgroup
    · cases hgroup
      refine ⟨List.mem_filter.2 ⟨mem_enqueue p c, ?_⟩, List.filter_sublist, ?_⟩
      · have hnow : p.arrivedAt = now := by rw [← hp]; rfl
        simp only [List.any_eq_true, decide_eq_true_eq]
        exact ⟨⟨a, ha, rfl⟩, by omega⟩
      · exact lookup_of_home_none hhome (List.mem_append_left _ (List.mem_map_of_mem hcand))
  · obtain ⟨d, hd, hbind⟩ := List.exists_of_findSome?_eq_some hmined
    obtain ⟨v, hv, hgroup⟩ := Option.bind_eq_some_iff.1 hbind
    split at hgroup
    · cases hgroup
    · next hne =>
      dsimp only at hgroup
      split at hgroup
      · cases hgroup
      · cases hgroup
        refine ⟨List.mem_filter.2 ⟨mem_enqueue p c, ?_⟩, List.filter_sublist, ?_⟩
        · simp [Map.getD, hv]
        · refine lookup_of_home_none hhome (List.mem_append_right _ (List.mem_filterMap.2 ?_))
          have hv' : (minedValues c.mined sig).lookup d.name = some v := by
            rw [← hv, ← hp]
            rfl
          exact ⟨d, hd, by rw [hv']; exact if_neg hne⟩

end Formation

/-- A storm is open while it knows someone. -/
theorem Indexed.open_iff (h : c.Indexed) (id : GoString) :
    c.storms.lookup id ≠ none ↔ ∃ k, c.ledger.status id k ≠ none := by
  constructor
  · intro hopen
    obtain ⟨st, hst⟩ := Option.ne_none_iff_exists'.1 hopen
    have hpos := h.live hst
    rw [(h.balanced hst).unresolved] at hpos
    obtain ⟨k, hk⟩ := Finset.card_pos.1 (Int.natCast_pos.1 hpos)
    refine ⟨k, ?_⟩
    rw [ledger_status hst, Ledger.mem_unsettled.1 hk]
    exact Option.some_ne_none _
  · rintro ⟨k, hk⟩ hnone
    exact hk (by simp [ledger, hnone])

/-! ## Clearing and re-arming -/

/-- Replacing an open storm by a balanced one with someone unresolved, whose member map
    differs in a known key. -/
theorem Indexed.mark (h : c.Indexed) {b : Bool} (hst : c.storms.lookup id = some st)
    (hid : st'.id = st.id)
    (hres : ∀ k', st'.resolved.lookup k' = if k' = k then some b else st.resolved.lookup k')
    (hbal : st'.Balanced) (hlive : 0 < st'.unresolved) :
    ({ c with storms := c.storms.insert id st' } : StormCorrelator).ledger =
        c.ledger.mark id k b ∧
      ({ c with storms := c.storms.insert id st' } : StormCorrelator).Indexed := by
  have hledger : { c with storms := c.storms.insert id st' }.ledger =
      c.ledger.mark id k b := by
    refine ext' (fun g k' => ?_) (fun _ => rfl) fun _ => Iff.rfl
    simp only [ledger, Ledger.mark]
    by_cases hg : g = id
    · subst hg
      simp [hst, hres]
    · simp [hg]
  refine ⟨hledger, h.insert rfl (hid.trans (h.ids hst)) hbal hlive h.windowed fun {k' g} hk' => ?_⟩
  rw [hledger]
  simp only [Ledger.mark]
  split
  · exact Option.some_ne_none _
  · exact h.index hk'

/-- The storm that the index names for a key. -/
theorem Indexed.stormOf (h : c.Indexed) (hk : c.byKey.lookup k = some id) :
    ∃ st, c.storms.lookup id = some st ∧ st.id = id ∧ st.resolved.lookup k ≠ none := by
  have hknown := h.index hk
  cases hst : c.storms.lookup id with
  | none => exact absurd (by simp [ledger, hst]) hknown
  | some st => exact ⟨st, rfl, h.ids hst, by rwa [ledger_status hst] at hknown⟩

end StormCorrelator

/-! ## Size reports -/

/-- The arguments of one attachment. -/
structure Attachment where
  now : Int
  member : StormMember
  severity : Severity
  seen : Int

namespace StormState

/-- The storm with the member of the attachment. -/
def grown (st : StormState) (a : Attachment) : StormState :=
  st.addMember a.member a.severity a.seen a.now

/-- What an attachment makes of its storm, and the size report that follows it. -/
def attachOne (st : StormState) (a : Attachment) : StormState × Option StormSizeUpdate :=
  (st.grown a).maybeSizeUpdate a.now

/-- The storm after a sequence of attachments, and the reports with their times. -/
def attachAll (st : StormState) : List Attachment → StormState × List (Int × StormSizeUpdate)
  | [] => (st, [])
  | a :: rest =>
    let after := attachAll (st.attachOne a).1 rest
    (after.1, ((st.attachOne a).2.map (a.now, ·)).toList ++ after.2)

/-- The correlator's attachment writes just this. -/
theorem attach_eq (c : StormCorrelator) (st : StormState) (a : Attachment) :
    (c.attach a.now a.member a.severity a.seen st).1.storms.lookup st.id =
        some (st.attachOne a).1 ∧
      (c.attach a.now a.member a.severity a.seen st).2 =
        .attached (st.grown a).info a.member (st.attachOne a).2 := by
  simp [StormCorrelator.attach, attachOne, grown, addMember_id]

/-- A report is due: the membership has doubled or grown by ten since the last one, and
    that is a minute ago. -/
def Due (st : StormState) (now : Int) : Prop :=
  (2 * st.reportedCount ≤ st.memberCount ∨
      st.reportedCount + stormUpdateGrowth ≤ st.memberCount) ∧
    st.reportedAt + stormUpdateMinInterval ≤ now

variable (st : StormState)

theorem maybeSizeUpdate_cases (now : Int) :
    (¬st.Due now ∧ st.maybeSizeUpdate now = (st, none)) ∨
      st.Due now ∧ st.maybeSizeUpdate now =
        ({ st with reportedCount := st.memberCount, reportedAt := now },
          some ⟨st.memberCount, st.namespaces.card, st.memberCount - st.reportedCount⟩) := by
  have hsince : since now st.reportedAt < stormUpdateMinInterval ↔
      ¬st.reportedAt + stormUpdateMinInterval ≤ now := by
    unfold since minDuration maxDuration stormUpdateMinInterval minute second
    omega
  unfold maybeSizeUpdate Due
  split
  · exact Or.inl ⟨fun h => by omega, rfl⟩
  · split
    · next hlimit => exact Or.inl ⟨fun h => hsince.1 hlimit h.2, rfl⟩
    · next hlimit => exact Or.inr ⟨⟨by omega, not_not.1 (hsince.not.1 hlimit)⟩, rfl⟩

/-- An attachment keeps the cursor and never makes the storm smaller. -/
theorem grown_cursor (a : Attachment) :
    (st.grown a).reportedCount = st.reportedCount ∧ (st.grown a).reportedAt = st.reportedAt ∧
      st.memberCount ≤ (st.grown a).memberCount := by
  unfold grown addMember raise
  dsimp only
  split <;> split <;> simp [arm, recordMember]

/-- The time of the last report, or of the formation at `t`. -/
def lastAt (t : Int) (reports : List (Int × StormSizeUpdate)) : Int :=
  (reports.map (·.1)).getLastD t

/-- The count of the last report, or of the formation with `n` members. -/
def lastCount (n : Nat) (reports : List (Int × StormSizeUpdate)) : Nat :=
  (reports.map (·.2.affectedCount)).getLastD n

/-- The reports of a storm are a minute apart, the cursor is that of the last one, and their
    growth adds up to it. -/
theorem attachAll_spec (h : st.reportedCount ≤ st.memberCount) (as : List Attachment) :
    (st.reportedAt :: (st.attachAll as).2.map (·.1)).IsChain
        (fun t t' => t + stormUpdateMinInterval ≤ t') ∧
      (st.attachAll as).1.reportedAt = lastAt st.reportedAt (st.attachAll as).2 ∧
      (st.attachAll as).1.reportedCount = lastCount st.reportedCount (st.attachAll as).2 ∧
      st.reportedCount + ((st.attachAll as).2.map (·.2.newSinceLast)).sum =
        (st.attachAll as).1.reportedCount := by
  induction as generalizing st with
  | nil => simp [attachAll, lastAt, lastCount]
  | cons a rest ih =>
    obtain ⟨hcount, hat, hmore⟩ := grown_cursor st a
    rcases maybeSizeUpdate_cases (st.grown a) a.now with ⟨-, hstep⟩ | ⟨hdue, hstep⟩
    · have hone : st.attachOne a = (st.grown a, none) := hstep
      obtain ⟨hchain, hlast, hsize, hsum⟩ := ih (st.grown a) (by omega)
      rw [hat] at hchain hlast
      rw [hcount] at hsize hsum
      simpa only [attachAll, hone] using
        ⟨hchain, hlast, hsize, hsum⟩
    · -- The cursor moves to the report, and the rest of the run starts from there.
      have hone : st.attachOne a = _ := hstep
      obtain ⟨hchain, hlast, hsize, hsum⟩ := ih (st.attachOne a).1 (by simp [hone])
      have hgap : st.reportedAt + stormUpdateMinInterval ≤ a.now := hat ▸ hdue.2
      simp only [hone] at hchain hlast hsize hsum
      simp only [attachAll, hone, Option.map_some, Option.toList_some, List.singleton_append,
        List.map_cons, List.sum_cons, List.isChain_cons_cons]
      refine ⟨⟨hgap, hchain⟩, ?_, ?_, ?_⟩
      · rw [hlast, lastAt, lastAt, List.map_cons, List.getLastD_cons]
      · rw [hsize, lastCount, lastCount, List.map_cons, List.getLastD_cons]
      · rw [← hsum]
        omega

/-- The size updates of a storm partition its growth. They are a minute apart, from each
    other and from the formation; each gives the member count of its moment; the formation
    count and the growth they report add up to the count last reported; and an attachment
    that finds a report due is followed by one. Each attachment is that of a correlator, which
    files the storm it makes and answers with its report. -/
theorem size_updates_partition_growth (t : Int) (f : Formation) (first : PendingIncident)
    (as : List Attachment) :
    let st := StormCorrelator.stormOver t f first
    (t :: (st.attachAll as).2.map (·.1)).IsChain (fun t t' => t + stormUpdateMinInterval ≤ t') ∧
    st.memberCount + ((st.attachAll as).2.map (·.2.newSinceLast)).sum =
      lastCount st.memberCount (st.attachAll as).2 ∧
    ∀ before a after, as = before ++ a :: after →
      (∀ c : StormCorrelator,
        let (c', answer) := c.attach a.now a.member a.severity a.seen (st.attachAll before).1
        c'.storms.lookup (st.attachAll before).1.id = some ((st.attachAll before).1.attachOne a).1 ∧
          answer = .attached ((st.attachAll before).1.grown a).info a.member
            ((st.attachAll before).1.attachOne a).2) ∧
      (∀ u, ((st.attachAll before).1.attachOne a).2 = some u →
        u.affectedCount = ((st.attachAll before).1.grown a).memberCount) ∧
      (lastAt t (st.attachAll before).2 + stormUpdateMinInterval ≤ a.now →
        2 * lastCount st.memberCount (st.attachAll before).2 ≤
            ((st.attachAll before).1.grown a).memberCount ∨
          lastCount st.memberCount (st.attachAll before).2 + stormUpdateGrowth ≤
            ((st.attachAll before).1.grown a).memberCount →
        ((st.attachAll before).1.attachOne a).2 ≠ none) := by
  intro st
  have hspec := attachAll_spec st (Nat.le_refl _)
  obtain ⟨hchain, -, hsize, hsum⟩ := hspec as
  refine ⟨hchain, hsum.trans hsize, fun before a _ _ => ⟨fun c => attach_eq c _ a, ?_⟩⟩
  obtain ⟨-, hlast, hreported, -⟩ := hspec before
  obtain ⟨hcount, hat, -⟩ := grown_cursor (st.attachAll before).1 a
  rw [hlast] at hat
  rw [hreported] at hcount
  rcases maybeSizeUpdate_cases ((st.attachAll before).1.grown a) a.now with
    ⟨hnot, hstep⟩ | ⟨-, hstep⟩
  · refine ⟨fun u hu => ?_, fun hgap hgrown => absurd ⟨?_, ?_⟩ hnot⟩
    · rw [attachOne, hstep] at hu
      cases hu
    · rw [hcount]
      exact hgrown
    · rw [hat]
      exact hgap
  · rw [attachOne, hstep]
    exact ⟨fun u hu => by cases hu; rfl, fun _ _ => Option.some_ne_none _⟩

end StormState

namespace StormSample

def crashed (name : String) : StormMember where
  key := ⟨bytes name, bytes "CrashLoopBackOff"⟩
  fingerprint := []
  ns := bytes "shop"
  kindOfObject := bytes "Pod"
  name := bytes name
  reason := bytes "CrashLoopBackOff"
  reasonClass := []
  firstSeen := second

def waiting (name : String) : PendingIncident := ⟨second, crashed name, .critical, [], second, ∅, []⟩

/-- A storm over two pods of a node. -/
def twoPods : Formation :=
  ⟨⟨bytes "Node", [], bytes "node-1"⟩, bytes "topology", [waiting "a", waiting "b"]⟩

def follower (seconds : Int) (name : String) : Attachment :=
  ⟨seconds * second, crashed name, .critical, seconds * second⟩

end StormSample

open StormSample in
/-- Two more pods follow. The storm has doubled when the second one is attached, and the
    report gives all of the growth since the formation. -/
theorem StormState.doubled_storm_reported :
    let st := StormCorrelator.stormOver second twoPods (waiting "a")
    (st.attachAll [follower 30 "c"]).2 = [] ∧
      ((st.attachAll [follower 30 "c"]).1.attachOne (follower 70 "d")).2 ≠ none ∧
      (st.attachAll [follower 30 "c", follower 70 "d"]).2.map (·.2.newSinceLast) = [2] := by
  intro st
  obtain ⟨-, -, hreport⟩ := size_updates_partition_growth second twoPods (waiting "a")
    [follower 30 "c", follower 70 "d"]
  have hdue := (hreport [follower 30 "c"] (follower 70 "d") [] rfl).2.2
  exact ⟨by decide +kernel, hdue (by decide +kernel) (by decide +kernel), by decide +kernel⟩

end Lookout.Engine
