-- SUMMARY: The object-state source reports every loss of all endpoints, just as long as no sweep forgets a live Service and no slice changes its Service.
import Lookout.Lib.Informer
import Lookout.Sources.Degradation
import Mathlib.Data.Fintype.EquivFin

/-!
# Endpoints of a Service

The object-state source keeps the number of ready endpoints of every EndpointSlice under
the Service its label names, and reports a Service whose total falls to zero while it has
a slice. A sweep drops the Services that no slice was added to or updated for the time of
`StateTTL`. Here the source is paired with the cache of the informer that feeds it.

A source that remembers just the live slices of every Service signals a loss exactly. Once
it has forgotten a live slice, or kept one that went to another Service, a few more events
bring it to a loss that it does not see or to a signal without a loss.
-/

namespace Lookout.Sources.ObjectState

open Engine (hour)
open Degradation (sliceServiceUID)

export Degradation (EndpointSlice)

/-! ## The source -/

/-- The ready endpoints of all the slices. -/
def total (slices : Map GoString Nat) : Nat := ∑ n ∈ slices.keys, Map.getD slices n 0

/-- `serviceState`. The keys of `slices` are the names of the slices. -/
structure ServiceState where
  slices : Map GoString Nat := ∅
  uid : UID := []
  lastSeen : Int := 0

/-- The memory of Services. -/
structure Source where
  stateTTL : Int
  armed : Bool := false
  services : Map ObjectName ServiceState := ∅

def new (stateTTL : Int) : Source :=
  { stateTTL := if stateTTL ≤ 0 then 24 * hour else stateTTL }

/-- What the signal `endpoints_empty` is composed from. -/
structure EmptySignal where
  service : ObjectName
  uid : UID
  prev : Nat
  slices : Nat
  now : Int

def emptySignal (key : ObjectName) (st : ServiceState) (prev : Nat) (now : Int) : EmptySignal where
  service := key
  uid := if st.uid = [] then bytes "service:" ++ key.ns ++ bytes "/" ++ key.name else st.uid
  prev := prev
  slices := st.slices.keys.card
  now := now

/-- `readyEndpoints`. An unknown condition counts as ready. -/
def readyEndpoints (sl : EndpointSlice) : Nat := sl.endpoints.countP fun ready => ready.getD true

namespace Source

def onSlice (now : Int) (sl : EndpointSlice) (s : Source) : Source × Option EmptySignal :=
  if sl.serviceName = [] then (s, none)
  else
    let st := (s.services.lookup sl.service).getD {}
    let prev := total st.slices
    let hadSlice := st.slices.keys ≠ ∅
    let st : ServiceState :=
      { slices := st.slices.insert sl.name (readyEndpoints sl)
        uid := if st.uid = [] then sliceServiceUID sl else st.uid
        lastSeen := now }
    ({ s with services := s.services.insert sl.service st },
      if s.armed ∧ hadSlice ∧ 0 < prev ∧ total st.slices = 0 then
        some (emptySignal sl.service st prev now)
      else none)

def onSliceDelete (now : Int) (sl : EndpointSlice) (s : Source) : Source × Option EmptySignal :=
  if sl.serviceName = [] then (s, none)
  else match s.services.lookup sl.service with
    | none => (s, none)
    | some st =>
      let prev := total st.slices
      let st' := { st with slices := st.slices.erase sl.name }
      -- The last slice is gone, and the Service with it.
      if st'.slices.keys = ∅ then ({ s with services := s.services.erase sl.service }, none)
      else
        ({ s with services := s.services.insert sl.service st' },
          if s.armed ∧ 0 < prev ∧ total st'.slices = 0 then
            some (emptySignal sl.service st' prev now)
          else none)

/-- The part of `sweep` that prunes the Services. -/
def sweep (now : Int) (s : Source) : Source :=
  { s with services := Map.filter (fun _ st => !(st.lastSeen < now - s.stateTTL)) s.services }

/-- The handlers of the informer. -/
def handle (now : Int) (s : Source) : Informer.Event EndpointSlice → Source × Option EmptySignal
  | .upsert sl => s.onSlice now sl
  | .delete sl => s.onSliceDelete now sl

/-- What the source remembers of the slices of a Service. -/
def memory (s : Source) (k : ObjectName) : Map GoString Nat :=
  ((s.services.lookup k).map (·.slices)).getD ∅

end Source

/-! ## The source and the cache -/

/-- The slices of a Service in the cache, with their ready endpoints. -/
def live (cache : Map ObjectName EndpointSlice) (k : ObjectName) : Map GoString Nat :=
  Map.rebuild (Map.sortedKeys cache) cache fun key sl =>
    if key.ns = k.ns ∧ sl.serviceName = k.name ∧ k.name ≠ [] then some (key.name, readyEndpoints sl)
    else none

/-- The total falls from positive to zero while at least one slice remains. -/
def Emptied (before after : Map GoString Nat) : Prop :=
  0 < total before ∧ total after = 0 ∧ after.keys ≠ ∅

/-- The source and the cache of its informer. -/
structure Feed where
  source : Source
  cache : Map ObjectName EndpointSlice := ∅

namespace Feed

def new (stateTTL : Int) : Feed := { source := ObjectState.new stateTTL }

inductive Event where
  | arm
  | slice (now : Int) (e : Informer.Event EndpointSlice)
  | sweep (now : Int)

def step (w : Feed) : Event → Feed
  | .arm => { w with source := { w.source with armed := true } }
  | .slice now e =>
    { source := (w.source.handle now e).1,
      cache := Informer.deliver Degradation.EndpointSlice.key w.cache e }
  | .sweep now => { w with source := w.source.sweep now }

/-- A deletion carries the slice as it is cached. -/
def Lawful (w : Feed) : Event → Prop
  | .slice _ (.delete sl) => w.cache.lookup sl.key = some sl
  | _ => True

/-- An event makes a signal for a Service just if it takes the total of the live slices of
    the Service to zero. -/
def Exact (w : Feed) : Event → Prop
  | .slice now e => w.source.armed = true → ∀ k,
      (∃ sig, (w.source.handle now e).2 = some sig ∧ sig.service = k) ↔
        Emptied (live w.cache k) (live (Informer.deliver Degradation.EndpointSlice.key w.cache e) k)
  | _ => True

/-- The slice belongs to the Service. -/
def Serves (sl : EndpointSlice) (k : ObjectName) : Prop := sl.serviceName ≠ [] ∧ sl.service = k

/-- The update takes a live slice away from the Service. -/
def Moves (cache : Map ObjectName EndpointSlice) (sl : EndpointSlice)
    (k : ObjectName) : Prop :=
  ¬Serves sl k ∧ sl.ns = k.ns ∧ sl.name ∈ live cache k

/-- No update takes a slice from one Service to another. -/
def Steady (w : Feed) : Event → Prop
  | .slice _ (.upsert sl) => ∀ k, ¬Moves w.cache sl k
  | .sweep _ => False
  | _ => True

/-- No update takes a slice from one Service to another, and a sweep finds every Service
    that has slices touched within the time it keeps them. -/
def Kept (w : Feed) : Event → Prop
  | .sweep now => ∀ k st, w.source.services.lookup k = some st →
      st.lastSeen < now - w.source.stateTTL → (live w.cache k).keys = ∅
  | i => Steady w i

/-- Whatever happens next to the slices, as long as they stay with their Services, is
    signalled exactly. -/
def Reliable (w : Feed) : Prop :=
  ∀ es, Run.Steps step (fun w i => Lawful w i ∧ Steady w i) w es → Run.Steps step Exact w es

/-! ## One event -/

instance (sl : EndpointSlice) (k : ObjectName) : Decidable (Serves sl k) :=
  inferInstanceAs (Decidable (_ ∧ _))

/-- The slices of a Service after an event about one of them. -/
def record (e : Informer.Event EndpointSlice) (slices : Map GoString Nat) : Map GoString Nat :=
  match e with
  | .upsert sl => slices.insert sl.name (readyEndpoints sl)
  | .delete sl => slices.erase sl.name

theorem lookup_record (e : Informer.Event EndpointSlice) (slices : Map GoString Nat)
    (n : GoString) :
    (record e slices).lookup n =
      if n = e.object.name then e.current.map readyEndpoints else slices.lookup n := by
  cases e with
  | upsert sl => exact Map.lookup_insert slices sl.name n _
  | delete sl => exact Map.lookup_erase slices sl.name n

variable {slices : Map GoString Nat} {cache : Map ObjectName EndpointSlice} (now : Int)
  (sl : EndpointSlice) (s : Source)

theorem total_pos_ne_empty (h : 0 < total slices) : slices.keys ≠ ∅ := by
  intro hempty
  rw [total, hempty, Finset.sum_empty] at h
  exact Nat.lt_irrefl 0 h

variable {n : GoString} {k : ObjectName}

theorem total_insert_new (c : Nat) (h : slices.lookup n = none) :
    total (slices.insert n c) = total slices + c := Map.sum_insert_new id 0 c h

theorem lookup_live (cache : Map ObjectName EndpointSlice) (k : ObjectName)
    (n : GoString) :
    (live cache k).lookup n = (cache.lookup ⟨k.ns, n⟩).bind fun sl =>
      if sl.serviceName = k.name ∧ k.name ≠ [] then some (readyEndpoints sl) else none := by
  refine Option.ext fun c => ?_
  rw [live, Map.lookup_rebuild, Option.bind_eq_some_iff]
  · constructor
    · rintro ⟨key, -, sl, hsl, hentry⟩
      split at hentry
      next hk =>
        cases hentry
        exact ⟨sl, hk.1 ▸ hsl, if_pos hk.2⟩
      next => cases hentry
    · rintro ⟨sl, hsl, hentry⟩
      split at hentry
      next hk =>
        cases hentry
        have hmem : (⟨k.ns, n⟩ : ObjectName) ∈ cache :=
          Map.mem_iff_ne_none.2 (hsl ▸ Option.some_ne_none sl)
        exact ⟨⟨k.ns, n⟩, Map.mem_sortedKeys.2 hmem, sl, hsl, if_pos ⟨rfl, hk⟩⟩
      next => cases hentry
  · intro key₁ key₂ sl₁ sl₂ n' c₁ c₂ _ _ h₁ h₂
    split at h₁ <;> split at h₂ <;> try contradiction
    next hk₁ hk₂ =>
      have hn₁ : key₁.name = n' := congrArg Prod.fst (Option.some.inj h₁)
      have hn₂ : key₂.name = n' := congrArg Prod.fst (Option.some.inj h₂)
      exact congrArg₂ ObjectName.mk (hk₁.1.trans hk₂.1.symm) (hn₁.trans hn₂.symm)

theorem mem_live :
    n ∈ live cache k ↔
      ∃ sl, cache.lookup ⟨k.ns, n⟩ = some sl ∧ sl.serviceName = k.name ∧ k.name ≠ [] := by
  rw [Map.mem_iff_ne_none, lookup_live]
  cases cache.lookup ⟨k.ns, n⟩ with
  | none => simp
  | some sl => simp

theorem serves_iff {sl : EndpointSlice} :
    Serves sl k ↔ sl.ns = k.ns ∧ sl.serviceName = k.name ∧ k.name ≠ [] := by
  constructor
  · rintro ⟨hname, rfl⟩
    exact ⟨rfl, rfl, hname⟩
  · rintro ⟨hns, hservice, hname⟩
    exact ⟨hservice ▸ hname, congrArg₂ ObjectName.mk hns hservice⟩

variable {e : Informer.Event EndpointSlice}

/-- An event changes the live slices of the Service that its slice belongs to. -/
theorem live_deliver (h : ¬Moves cache e.object k) :
    live (Informer.deliver Degradation.EndpointSlice.key cache e) k =
      if Serves e.object k then record e (live cache k) else live cache k := by
  refine Finmap.ext_lookup fun n => ?_
  rw [lookup_live, Informer.lookup_deliver]
  by_cases hkey : (⟨k.ns, n⟩ : ObjectName) = e.object.key
  · have hns : e.object.ns = k.ns := (congrArg ObjectName.ns hkey).symm
    have hn : n = e.object.name := congrArg ObjectName.name hkey
    rw [if_pos hkey]
    by_cases hs : Serves e.object k
    · rw [if_pos hs, lookup_record, if_pos hn]
      cases e with
      | upsert sl => exact if_pos (serves_iff.1 hs).2
      | delete sl => rfl
    · -- The slice was none of the Service before.
      have hother : (live cache k).lookup n = none := by
        by_contra hlive
        exact h ⟨hs, hns, hn ▸ Map.mem_iff_ne_none.2 hlive⟩
      rw [if_neg hs, hother]
      cases e with
      | upsert sl => exact if_neg fun hk => hs (serves_iff.2 ⟨hns, hk⟩)
      | delete sl => rfl
  · rw [if_neg hkey, ← lookup_live]
    split
    next hs =>
      have hname : n ≠ e.object.name := by
        rintro rfl
        exact hkey (congrArg₂ ObjectName.mk (serves_iff.1 hs).1.symm rfl)
      rw [lookup_record, if_neg hname]
    next => rfl

theorem handle_of_unlabelled (h : e.object.serviceName = []) : s.handle now e = (s, none) := by
  cases e <;> exact if_pos h

theorem memory_onSlice (hname : sl.serviceName ≠ []) (k : ObjectName) :
    (s.onSlice now sl).1.memory k =
      if k = sl.service then record (.upsert sl) (s.memory k) else s.memory k := by
  rw [Source.onSlice, if_neg hname, Source.memory, Map.lookup_insert, Source.memory]
  split
  next hk =>
    rw [hk]
    cases s.services.lookup sl.service <;> rfl
  next => rfl

theorem memory_onSliceDelete (hname : sl.serviceName ≠ []) (k : ObjectName) :
    (s.onSliceDelete now sl).1.memory k =
      if k = sl.service then record (.delete sl) (s.memory k) else s.memory k := by
  rw [Source.onSliceDelete, if_neg hname]
  by_cases hk : k = sl.service
  · subst hk
    cases hst : s.services.lookup sl.service with
    | none =>
      simp only [Source.memory, hst, if_true]
      rfl
    | some st =>
      dsimp only
      split
      next hlast => simp [Source.memory, hst, record, Map.eq_empty_of_keys hlast]
      next => simp [Source.memory, hst, record]
  · cases s.services.lookup sl.service with
    | none => rw [if_neg hk]
    | some st =>
      dsimp only
      split <;> simp [Source.memory, hk]

/-- The source remembers an event under the Service that its slice belongs to. -/
theorem memory_handle (now : Int) (e : Informer.Event EndpointSlice) (k : ObjectName) :
    (s.handle now e).1.memory k =
      if Serves e.object k then record e (s.memory k) else s.memory k := by
  by_cases hname : e.object.serviceName = []
  · rw [handle_of_unlabelled now s hname, if_neg fun hs => hs.1 hname]
  · have hserves : Serves e.object k ↔ k = e.object.service :=
      ⟨fun hs => hs.2.symm, fun hk => ⟨hname, hk.symm⟩⟩
    simp only [hserves]
    cases e with
    | upsert sl => exact memory_onSlice now sl s hname k
    | delete sl => exact memory_onSliceDelete now sl s hname k

theorem memory_sweep (now : Int) (k : ObjectName) :
    (s.sweep now).memory k =
      if ∃ st, s.services.lookup k = some st ∧ st.lastSeen < now - s.stateTTL then ∅
      else s.memory k := by
  rw [Source.memory, Source.sweep, Map.lookup_filter, Source.memory]
  cases s.services.lookup k with
  | none => simp
  | some st =>
    by_cases hold : st.lastSeen < now - s.stateTTL <;> simp [Option.filter, hold]

theorem record_upsert_ne_empty (slices : Map GoString Nat) :
    (record (.upsert sl) slices).keys ≠ ∅ := by
  rw [record, Map.keys_insert]
  exact Finset.insert_ne_empty _ _

theorem signal_onSlice (hname : sl.serviceName ≠ []) (k : ObjectName) (harmed : s.armed = true) :
    (∃ sig, (s.onSlice now sl).2 = some sig ∧ sig.service = k) ↔
      Serves sl k ∧ Emptied (s.memory k) (record (.upsert sl) (s.memory k)) := by
  have hslices : ((s.services.lookup sl.service).getD {}).slices = s.memory sl.service := by
    rw [Source.memory]
    cases s.services.lookup sl.service <;> rfl
  rw [Source.onSlice, if_neg hname]
  dsimp only
  rw [hslices]
  constructor
  · rintro ⟨sig, hsig, rfl⟩
    split at hsig
    next hfire =>
      cases hsig
      exact ⟨⟨hname, rfl⟩, hfire.2.2.1, hfire.2.2.2, record_upsert_ne_empty sl _⟩
    next => cases hsig
  · rintro ⟨⟨-, rfl⟩, hpos, hzero, -⟩
    exact ⟨_, if_pos ⟨harmed, total_pos_ne_empty hpos, hpos, hzero⟩, rfl⟩

theorem signal_onSliceDelete (hname : sl.serviceName ≠ []) (k : ObjectName)
    (harmed : s.armed = true) :
    (∃ sig, (s.onSliceDelete now sl).2 = some sig ∧ sig.service = k) ↔
      Serves sl k ∧ Emptied (s.memory k) (record (.delete sl) (s.memory k)) := by
  rw [Source.onSliceDelete, if_neg hname]
  cases hst : s.services.lookup sl.service with
  | none =>
    refine iff_of_false nofun ?_
    rintro ⟨⟨-, rfl⟩, hpos, -⟩
    rw [Source.memory, hst] at hpos
    exact hpos.false
  | some st =>
    have hslices : s.memory sl.service = st.slices := by
      rw [Source.memory, hst]
      rfl
    dsimp only
    constructor
    · rintro ⟨sig, hsig, rfl⟩
      split_ifs at hsig with hrest hfire
      cases hsig
      refine ⟨⟨hname, rfl⟩, ?_⟩
      rw [emptySignal, hslices]
      exact ⟨hfire.2.1, hfire.2.2, hrest⟩
    · rintro ⟨⟨-, rfl⟩, hemptied⟩
      rw [hslices] at hemptied
      obtain ⟨hpos, hzero, hrest⟩ := hemptied
      exact ⟨_, (congrArg Prod.snd (if_neg hrest)).trans (if_pos ⟨harmed, hpos, hzero⟩), rfl⟩

/-- An armed source makes a signal just if what it remembers of a Service is emptied. -/
theorem signal_handle {s : Source} (e : Informer.Event EndpointSlice) (k : ObjectName)
    (harmed : s.armed = true) :
    (∃ sig, (s.handle now e).2 = some sig ∧ sig.service = k) ↔
      Serves e.object k ∧ Emptied (s.memory k) (record e (s.memory k)) := by
  by_cases hname : e.object.serviceName = []
  · rw [handle_of_unlabelled now s hname]
    exact iff_of_false nofun fun h => h.1.1 hname
  · cases e with
    | upsert sl => exact signal_onSlice now sl s hname k harmed
    | delete sl => exact signal_onSliceDelete now sl s hname k harmed

end Feed

end Lookout.Sources.ObjectState

namespace Lookout.Sources.ObjectState.Feed

open Engine (hour)

/-! ## Runs that forget nothing -/

/-- The source remembers just the live slices of every Service. -/
structure InSync (w : Feed) : Prop where
  keyed : ∀ key sl, w.cache.lookup key = some sl → sl.key = key
  memory : ∀ k, w.source.memory k = live w.cache k

theorem inSync_new (stateTTL : Int) : (new stateTTL).InSync := by
  refine ⟨fun key sl h => absurd h.symm (Option.some_ne_none _), fun k => ?_⟩
  refine Finmap.ext_lookup fun n => ?_
  rfl

variable {w : Feed} {i : Event} {k : ObjectName} {n : GoString} {now : Int}
  {e : Informer.Event EndpointSlice}

/-- A conformant event that leaves slices with their Services moves none. -/
theorem not_moves (hlaw : Lawful w (.slice now e)) (hsteady : Steady w (.slice now e))
    (k : ObjectName) : ¬Moves w.cache e.object k := by
  cases e with
  | upsert sl => exact hsteady k
  | delete sl =>
    rintro ⟨hs, hns, hlive⟩
    obtain ⟨sl', hcached, hk⟩ := mem_live.1 hlive
    have hkey : sl.key = ⟨k.ns, sl.name⟩ := congrArg₂ ObjectName.mk hns rfl
    have hsame : sl = sl' := Option.some.inj (hlaw.symm.trans (hkey ▸ hcached))
    exact hs (serves_iff.2 ⟨hns, hsame ▸ hk⟩)

theorem exact_of_inSync (h : w.InSync) (hlaw : Lawful w i) (hkept : Kept w i) : Exact w i := by
  cases i with
  | arm => exact trivial
  | sweep now => exact trivial
  | slice now e =>
    intro harmed k
    rw [signal_handle now e k harmed, live_deliver (not_moves hlaw hkept k), h.memory]
    by_cases hs : Serves e.object k
    · rw [if_pos hs, and_iff_right hs]
    · rw [if_neg hs]
      constructor
      · exact fun hsig => absurd hsig.1 hs
      · exact fun ⟨hpos, hzero, _⟩ => absurd hzero hpos.ne'

theorem InSync.step (h : w.InSync) (hlaw : Lawful w i) (hkept : Kept w i) : (w.step i).InSync := by
  cases i with
  | arm => exact ⟨h.keyed, h.memory⟩
  | slice now e =>
    refine ⟨Informer.keyed_deliver h.keyed e, fun k => ?_⟩
    exact (memory_handle w.source now e k).trans
      (h.memory k ▸ (live_deliver (not_moves hlaw hkept k)).symm)
  | sweep now =>
    refine ⟨h.keyed, fun k => ?_⟩
    refine (memory_sweep w.source now k).trans ?_
    split
    next hpruned =>
      obtain ⟨st, hst, hold⟩ := hpruned
      exact (Map.eq_empty_of_keys (hkept k st hst hold)).symm
    next => exact h.memory k

theorem kept_of_steady (h : Steady w i) : Kept w i := by
  cases i with
  | sweep now => exact h.elim
  | arm => exact trivial
  | slice now e => exact h

theorem reliable_of_inSync (h : w.InSync) : w.Reliable := fun _ hes =>
  hes.of_invariant (fun _ _ hw hi => InSync.step hw hi.1 (kept_of_steady hi.2))
    (fun _ _ hw hi => exact_of_inSync hw hi.1 (kept_of_steady hi.2)) h

/-! ## Runs that forget something -/

theorem Reliable.step (h : w.Reliable) (hlaw : Lawful w i) (hsteady : Steady w i) :
    Exact w i ∧ (w.step i).Reliable :=
  ⟨(h [i] ⟨⟨hlaw, hsteady⟩, trivial⟩).1, fun es hes => (h (i :: es) ⟨⟨hlaw, hsteady⟩, hes⟩).2⟩

/-- An armed source that can be relied on. -/
structure Trusted (w : Feed) : Prop where
  reliable : w.Reliable
  keyed : ∀ key sl, w.cache.lookup key = some sl → sl.key = key
  armed : w.source.armed = true

theorem handle_armed (s : Source) (now : Int) (e : Informer.Event EndpointSlice) :
    (s.handle now e).1.armed = s.armed := by
  cases e with
  | upsert sl =>
    unfold Source.handle Source.onSlice
    dsimp only
    split <;> rfl
  | delete sl =>
    unfold Source.handle Source.onSliceDelete
    dsimp only
    repeat' split
    all_goals rfl

/-- After an event about a slice of a Service, the source has reported just what happened. -/
structure Reported (w : Feed) (k : ObjectName) (e : Informer.Event EndpointSlice) : Prop where
  trusted : (w.step (.slice 0 e)).Trusted
  memory : (w.step (.slice 0 e)).source.memory k = record e (w.source.memory k)
  cached : live (w.step (.slice 0 e)).cache k = record e (live w.cache k)
  signal : Emptied (w.source.memory k) (record e (w.source.memory k)) ↔
    Emptied (live w.cache k) (record e (live w.cache k))

theorem Trusted.next (h : w.Trusted) (hlaw : Lawful w (.slice 0 e))
    (hsteady : Steady w (.slice 0 e)) (hs : Serves e.object k) : Reported w k e := by
  obtain ⟨hexact, hreliable⟩ := h.reliable.step hlaw hsteady
  have hlive := live_deliver (not_moves hlaw hsteady k)
  rw [if_pos hs] at hlive
  have hsignal := hexact h.armed k
  rw [signal_handle 0 e k h.armed, and_iff_right hs, hlive] at hsignal
  refine ⟨⟨hreliable, Informer.keyed_deliver h.keyed e, ?_⟩, ?_, hlive, hsignal⟩
  · exact (handle_armed w.source 0 e).trans h.armed
  · exact (memory_handle w.source 0 e k).trans (if_pos hs)

/-- A slice of a Service. -/
def sliceOf (k : ObjectName) (n : GoString) (endpoints : List (Option Bool)) :
    EndpointSlice :=
  { ns := k.ns, name := n, serviceName := k.name, endpoints := endpoints }

/-- An update of a slice that the cache does not hold for another Service. -/
theorem steady_sliceOf {endpoints : List (Option Bool)} (now : Int) (hk : k.name ≠ [])
    (hown : ∀ sl, w.cache.lookup ⟨k.ns, n⟩ = some sl → sl.serviceName = k.name) :
    Steady w (.slice now (.upsert (sliceOf k n endpoints))) := by
  rintro k' ⟨hs, hns, hlive⟩
  obtain ⟨sl, hsl, hname, -⟩ := mem_live.1 hlive
  have hns' : k.ns = k'.ns := hns
  have hname' : k.name = k'.name := (hown sl (hns' ▸ hsl)).symm.trans hname
  exact hs ⟨hk, congrArg₂ ObjectName.mk hns' hname'⟩

theorem Trusted.update (h : w.Trusted) (endpoints : List (Option Bool)) (hk : k.name ≠ [])
    (hown : ∀ sl, w.cache.lookup ⟨k.ns, n⟩ = some sl → sl.serviceName = k.name) :
    Reported w k (.upsert (sliceOf k n endpoints)) :=
  h.next trivial (steady_sliceOf 0 hk hown) ⟨hk, rfl⟩

theorem lookup_updated (w : Feed) (k : ObjectName) (n : GoString) (endpoints : List (Option Bool)) :
    (w.step (.slice 0 (.upsert (sliceOf k n endpoints)))).cache.lookup ⟨k.ns, n⟩ =
      some (sliceOf k n endpoints) := (Informer.lookup_deliver ..).trans (if_pos rfl)

theorem Trusted.remove (h : w.Trusted) (hlive : n ∈ live w.cache k) :
    ∃ sl, sl.name = n ∧ Reported w k (.delete sl) := by
  obtain ⟨sl, hsl, hname⟩ := mem_live.1 hlive
  have hkey : sl.key = ⟨k.ns, n⟩ := h.keyed _ sl hsl
  have hs : Serves sl k := serves_iff.2 ⟨congrArg ObjectName.ns hkey, hname⟩
  have hcached : w.cache.lookup sl.key = some sl := hkey ▸ hsl
  exact ⟨sl, congrArg ObjectName.name hkey, h.next hcached trivial hs⟩

/-- Slices of a Service are deleted one after the other. -/
theorem Trusted.shrink (h : w.Trusted) (k : ObjectName) (names : Finset GoString) :
    ∃ w' : Feed, w'.Trusted ∧
      (∀ n, (live w'.cache k).lookup n = if n ∈ names then none else (live w.cache k).lookup n) ∧
      (∀ n, (w'.source.memory k).lookup n = (w.source.memory k).lookup n ∨
        n ∈ names ∧ (w'.source.memory k).lookup n = none) := by
  induction names using Finset.induction_on with
  | empty => exact ⟨w, h, fun n => rfl, fun n => Or.inl rfl⟩
  | insert a names _ ih =>
    obtain ⟨w₁, h₁, hlive₁, hmemory₁⟩ := ih
    by_cases ha : a ∈ live w₁.cache k
    · obtain ⟨sl, rfl, h₂⟩ := h₁.remove ha
      refine ⟨_, h₂.trusted, fun n => ?_, fun n => ?_⟩
      · rw [h₂.cached, record, Map.lookup_erase, hlive₁]
        by_cases hn : n = sl.name <;> simp [hn]
      · rw [h₂.memory, record, Map.lookup_erase]
        by_cases hn : n = sl.name
        · exact Or.inr ⟨hn ▸ Finset.mem_insert_self _ names, if_pos hn⟩
        · rw [if_neg hn]
          exact (hmemory₁ n).imp_right fun h => ⟨Finset.mem_insert_of_mem h.1, h.2⟩
    · refine ⟨w₁, h₁, fun n => ?_, fun n => ?_⟩
      · rw [hlive₁]
        by_cases hn : n = a
        · subst hn
          rw [if_pos (Finset.mem_insert_self n names)]
          exact (hlive₁ n).symm.trans (not_not.1 (mt Map.mem_iff_ne_none.2 ha))
        · simp [hn]
      · exact (hmemory₁ n).imp_right fun h => ⟨Finset.mem_insert_of_mem h.1, h.2⟩

/-- A name that neither the cache nor the source has for a slice of the Service. -/
theorem exists_fresh (w : Feed) (k : ObjectName) :
    ∃ n, w.cache.lookup ⟨k.ns, n⟩ = none ∧ (w.source.memory k).lookup n = none := by
  obtain ⟨n, hn⟩ := Infinite.exists_notMem_finset
    (w.cache.keys.image (·.name) ∪ (w.source.memory k).keys)
  rw [Finset.notMem_union] at hn
  refine ⟨n, ?_, ?_⟩
  · by_contra hcached
    exact hn.1 (Finset.mem_image.2 ⟨_, Finmap.mem_keys.2 (Map.mem_iff_ne_none.2 hcached), rfl⟩)
  · by_contra hknown
    exact hn.2 (Finmap.mem_keys.2 (Map.mem_iff_ne_none.2 hknown))

theorem erase_insert_new {slices : Map GoString Nat} (c : Nat) (h : slices.lookup n = none) :
    (slices.insert n c).erase n = slices := by
  refine Finmap.ext_lookup fun x => ?_
  rw [Map.lookup_erase, Map.lookup_insert]
  by_cases hx : x = n
  · rw [if_pos hx, hx, h]
  · rw [if_neg hx, if_neg hx]

section

variable {slices : Map GoString Nat} (hn : slices.lookup n = none)

include hn

/-- A new slice that loses its endpoint was the last with one. -/
theorem emptied_update :
    Emptied (record (.upsert (sliceOf k n [some true])) slices)
        (record (.upsert (sliceOf k n [])) (record (.upsert (sliceOf k n [some true])) slices)) ↔
      total slices = 0 := by
  rw [record, record, sliceOf, sliceOf, Finmap.insert_insert, Emptied, total_insert_new _ hn,
    total_insert_new _ hn]
  simp [readyEndpoints, Map.keys_insert]

/-- A new slice that goes was the last with an endpoint. -/
theorem emptied_remove {sl : EndpointSlice} (hname : sl.name = n) :
    Emptied (record (.upsert (sliceOf k n [some true])) slices)
        (record (.delete sl) (record (.upsert (sliceOf k n [some true])) slices)) ↔
      total slices = 0 ∧ slices.keys ≠ ∅ := by
  rw [record, record, sliceOf, hname, erase_insert_new _ hn, Emptied, total_insert_new _ hn]
  simp [readyEndpoints]

end

/-- A relied-on source knows whether a Service has slices. A new slice tells otherwise, by
    losing its endpoint or by going. -/
theorem Trusted.empty_iff (h : w.Trusted) (hk : k.name ≠ []) :
    (w.source.memory k).keys = ∅ ↔ (live w.cache k).keys = ∅ := by
  obtain ⟨y, hcached, hy⟩ := exists_fresh w k
  have hy' : (live w.cache k).lookup y = none := by
    rw [lookup_live, hcached]
    rfl
  have hcame := h.update [some true] hk
    fun sl hsl => absurd (hcached.symm.trans hsl) (Option.some_ne_none sl).symm
  have hown := lookup_updated w k y [some true]
  have hloses := (hcame.trusted.update [] hk fun sl hsl =>
    Option.some.inj (hown.symm.trans hsl) ▸ rfl).signal
  rw [hcame.memory, hcame.cached, emptied_update hy, emptied_update hy'] at hloses
  obtain ⟨sl, hname, hwent⟩ := hcame.trusted.remove (Feed.mem_live.2 ⟨_, hown, rfl, hk⟩)
  have hgoes := hwent.signal
  rw [hcame.memory, hcame.cached, emptied_remove hy hname, emptied_remove hy' hname] at hgoes
  have hzero {slices : Map GoString Nat} (hempty : slices.keys = ∅) : total slices = 0 :=
    Nat.eq_zero_of_not_pos fun hpos => total_pos_ne_empty hpos hempty
  constructor
  · intro hempty
    by_contra hne
    exact (hgoes.2 ⟨hloses.1 (hzero hempty), hne⟩).2 hempty
  · intro hempty
    by_contra hne
    exact (hgoes.1 ⟨hloses.2 (hzero hempty), hne⟩).2 hempty

/-- A relied-on source that remembers no slice of a Service knows that it has none. -/
theorem Trusted.not_lost (h : w.Trusted) (hforgot : w.source.memory k = ∅) :
    (live w.cache k).keys = ∅ := by
  by_contra hne
  obtain ⟨n, hn⟩ := Finset.nonempty_iff_ne_empty.2 hne
  obtain ⟨-, -, -, hk⟩ := mem_live.1 (Finmap.mem_keys.1 hn)
  exact hne ((h.empty_iff hk).1 (by rw [hforgot]; rfl))

/-- A relied-on source remembers live slices only. -/
theorem Trusted.mem_live (h : w.Trusted) (hk : k.name ≠ []) {g : GoString}
    (hg : g ∈ w.source.memory k) : g ∈ live w.cache k := by
  by_contra hgone
  -- When all live slices are deleted, the others stay in the memory.
  obtain ⟨w', hw', hlive, hmemory⟩ := h.shrink k (live w.cache k).keys
  have hnone : live w'.cache k = ∅ := by
    refine Finmap.ext_lookup fun x => ?_
    rw [hlive, Finmap.lookup_empty]
    split
    next => rfl
    next hx => exact not_not.1 fun hne => hx (Finmap.mem_keys.2 (Map.mem_iff_ne_none.2 hne))
  have hghost : (w'.source.memory k).keys ≠ ∅ := by
    refine Finset.nonempty_iff_ne_empty.1 ⟨g, Finmap.mem_keys.2 (Map.mem_iff_ne_none.2 ?_)⟩
    rcases hmemory g with hg' | ⟨hg', -⟩
    · exact hg' ▸ Map.mem_iff_ne_none.1 hg
    · exact absurd (Finmap.mem_keys.1 hg') hgone
  exact hghost ((hw'.empty_iff hk).2 (by rw [hnone]; rfl))

theorem Reliable.trusted (h : w.Reliable)
    (hkeyed : ∀ key sl, w.cache.lookup key = some sl → sl.key = key) : (w.step .arm).Trusted :=
  ⟨(h.step (i := .arm) trivial trivial).2, hkeyed, rfl⟩

/-- A step after which the source can be relied on has met the condition. -/
theorem Reliable.kept (hsync : w.InSync) (h : (w.step i).Reliable) : Kept w i := by
  cases i with
  | arm => exact trivial
  | sweep now =>
    intro k st hst hold
    refine (h.trusted hsync.keyed).not_lost ?_
    exact (memory_sweep w.source now k).trans (if_pos ⟨st, hst, hold⟩)
  | slice now e =>
    cases e with
    | delete sl => exact trivial
    | upsert sl =>
      rintro k ⟨hs, hns, hlive⟩
      have hremembered : sl.name ∈ (w.source.handle now (.upsert sl)).1.memory k := by
        rw [memory_handle, if_neg (show ¬Serves (Informer.Event.upsert sl).object k from hs),
          hsync.memory k]
        exact hlive
      obtain ⟨-, -, -, hk⟩ := Feed.mem_live.1 hlive
      have hstill := (h.trusted (Informer.keyed_deliver hsync.keyed (.upsert sl))).mem_live hk hremembered
      obtain ⟨sl', hsl', hname, -⟩ := Feed.mem_live.1 hstill
      have hkey : ⟨k.ns, sl.name⟩ = sl.key := congrArg₂ ObjectName.mk hns.symm rfl
      have hsame : sl = sl' := by
        refine Option.some.inj (Eq.trans ?_ hsl')
        exact ((Informer.lookup_deliver ..).trans (if_pos hkey)).symm
      exact hs (serves_iff.2 ⟨hns, hsame ▸ hname, hk⟩)

/-- In a conformant run every loss of all endpoints is signalled and nothing else is, and
    so it is with whatever may still happen to the slices, just if no update takes a slice
    to another Service and no sweep forgets a Service that has slices. -/
theorem endpoints_loss_seen_iff (stateTTL : Int) (es : List Event)
    (hlaw : Run.Steps step Lawful (new stateTTL) es) :
    (Run.Steps step Exact (new stateTTL) es ∧ Run.Always step Reliable (new stateTTL) es) ↔
      Run.Steps step Kept (new stateTTL) es := by
  have hkeep : ∀ w i, InSync w → Lawful w i → Kept w i → InSync (w.step i) :=
    fun _ _ hw hi hk => hw.step hi hk
  have hlose : ∀ w i, InSync w → Lawful w i → Reliable (w.step i) → Kept w i :=
    fun _ _ hw _ hr => hr.kept hw
  have halways := Run.always_iff_steps_of_invariant (fun _ => reliable_of_inSync) hkeep hlose
    (inSync_new stateTTL) hlaw
  constructor
  · exact fun h => halways.1 h.2
  · intro h
    refine ⟨?_, halways.2 h⟩
    exact (hlaw.and h).of_invariant (fun _ _ hw hi => InSync.step hw hi.1 hi.2)
      (fun _ _ hw hi => exact_of_inSync hw hi.1 hi.2) (inSync_new stateTTL)

/-- A Service. -/
def web : ObjectName := ⟨bytes "shop", bytes "web"⟩

/-- A slice comes with an endpoint, and loses it after the sweep. -/
def losing (swept : Int) : List Event :=
  [.arm, .slice 0 (.upsert (sliceOf web (bytes "web-1") [some true])), .sweep swept,
    .slice swept (.upsert (sliceOf web (bytes "web-1") []))]

/-- One of two slices, the one with the endpoint, is taken to another Service. -/
def moving : List Event :=
  [.arm, .slice 0 (.upsert (sliceOf web (bytes "web-1") [some true])),
    .slice 0 (.upsert (sliceOf web (bytes "web-2") [])),
    .slice 0 (.upsert (sliceOf ⟨bytes "shop", bytes "api"⟩ (bytes "web-1") [some true]))]

theorem losing_kept : Run.Steps step Kept (new 0) (losing hour) := by
  have hweb : web.name ≠ [] := by decide +kernel
  refine ⟨trivial, ?_, ?_, ?_, trivial⟩
  · refine steady_sliceOf 0 hweb fun sl hsl => ?_
    exact absurd hsl.symm (Option.some_ne_none sl)
  · intro k st hst hold
    have hnow := Map.forall_lookup_of_keys (p := fun _ st => decide (st.lastSeen = 0))
      (by decide +kernel) k st hst
    rw [of_decide_eq_true hnow] at hold
    exact absurd hold (by decide +kernel)
  · refine steady_sliceOf hour hweb fun sl hsl => ?_
    rcases Map.of_lookup_insert hsl with ⟨-, rfl⟩ | ⟨-, hsl⟩
    · rfl
    · cases hsl

theorem loss_within_ttl_seen :
    Run.Steps step Lawful (new 0) (losing hour) ∧
      Run.Steps step Exact (new 0) (losing hour) ∧ Run.Always step Reliable (new 0) (losing hour) :=
  have hlaw : Run.Steps step Lawful (new 0) (losing hour) :=
    ⟨trivial, trivial, trivial, trivial, trivial⟩
  ⟨hlaw, (endpoints_loss_seen_iff 0 (losing hour) hlaw).2 losing_kept⟩

instance (before after : Map GoString Nat) : Decidable (Emptied before after) :=
  inferInstanceAs (Decidable (_ ∧ _))

theorem not_exact
    (h : w.source.armed = true ∧ (w.source.handle now e).2.isNone = true ∧
      Emptied (live w.cache k)
        (live (Informer.deliver Degradation.EndpointSlice.key w.cache e) k)) :
    ¬Exact w (.slice now e) := by
  obtain ⟨harmed, hsilent, hemptied⟩ := h
  intro hexact
  obtain ⟨sig, hsig, -⟩ := (hexact harmed k).2 hemptied
  rw [hsig] at hsilent
  cases hsilent

/-- A Service loses its last endpoint after it was quiet for a day, and another one loses
    it with its slice: neither loss is signalled. -/
theorem loss_unseen :
    (Run.Steps step Lawful (new 0) (losing (25 * hour)) ∧
        ¬Run.Steps step Exact (new 0) (losing (25 * hour))) ∧
      Run.Steps step Lawful (new 0) moving ∧ ¬Run.Steps step Exact (new 0) moving := by
  refine ⟨⟨⟨trivial, trivial, trivial, trivial, trivial⟩, fun h => ?_⟩,
    ⟨trivial, trivial, trivial, trivial, trivial⟩, fun h => ?_⟩
  · exact not_exact (k := web) (by decide +kernel) h.2.2.2.1
  · exact not_exact (k := web) (by decide +kernel) h.2.2.2.1

end Lookout.Sources.ObjectState.Feed
