-- SUMMARY: Runs of the dedup cache: sibling groups stay flat, and replays are never news.
import Lookout.Engine.DedupEffect
import Lookout.Lib.Run

/-!
# Runs of the dedup cache

Two properties of every run. The first is about sibling groups: a folded entry points
to a root, and a root points nowhere. The second is about replays: an event that was
processed once is a duplicate whenever it is delivered again. Both need a condition
that the code does not enforce, and the runs after each result show why.
-/

namespace Lookout.Engine

variable {result : DedupResult} {k key : EventKey} {c c' : DedupCache} {e e' : DedupEntry}
  {s : DedupStep} {now : Int} {isOpen : EventKey → Bool} {obs : Observation}

namespace DedupCache

open DedupEntry

/-! ## Flat groups -/

/-- A folded entry points to another key, and what is filed there is not folded. -/
def Flat (c : DedupCache) : Prop :=
  ∀ k e p, c.entries.lookup k = some e → e.parent = some p →
    p ≠ k ∧ ∀ root, c.entries.lookup p = some root → root.parent = none

/-- The entries that are folded onto a key. -/
def children (key : EventKey) (c : DedupCache) : List EventKey :=
  (Map.sortedKeys c.entries).filter fun k => (c.entries.lookup k).any fun e => e.parent = some key

variable {self : EventKey}

theorem mem_children :
    k ∈ c.children key ↔ ∃ e, c.entries.lookup k = some e ∧ e.parent = some key := by
  rw [children, List.mem_filter, Map.mem_sortedKeys, Map.mem_iff_ne_none, Option.any_eq_true]
  constructor
  · rintro ⟨-, e, he, hparent⟩
    exact ⟨e, he, of_decide_eq_true hparent⟩
  · rintro ⟨e, he, hparent⟩
    refine ⟨?_, e, he, decide_eq_true hparent⟩
    rw [he]
    exact Option.some_ne_none e

/-- Whoever is folded after the call was folded onto the same key before it. -/
def KeepsParents (c c' : DedupCache) : Prop :=
  ∀ k e', c'.entries.lookup k = some e' →
    e'.parent = none ∨ ∃ e, c.entries.lookup k = some e ∧ e'.parent = e.parent

theorem KeepsParents.flat (h : KeepsParents c c') (hflat : c.Flat) : c'.Flat := by
  intro k e' p he' hp
  rcases h k e' he' with hnone | ⟨e, he, hsame⟩
  · rw [hnone] at hp
    cases hp
  · obtain ⟨hne, hroot⟩ := hflat k e p he (hsame ▸ hp)
    refine ⟨hne, fun root' hroot' => ?_⟩
    rcases h p root' hroot' with hnone | ⟨root, hr, hrsame⟩
    · exact hnone
    · rw [hrsame]
      exact hroot root hr

/-- A mark never sets a parent, unless it is a fold. -/
theorem Marked.parent (h : Marked c s k e e')
    (hs : ∀ now o self kind candidates, s ≠ .sessionForSibling now o self kind candidates) :
    e'.parent = none ∨ e'.parent = e.parent := by
  cases h with
  | unbound | storm => exact Or.inl rfl
  | incident key sessionID ref parentSession =>
    unfold DedupEntry.bindIncident
    split
    · exact Or.inr rfl
    · exact Or.inl rfl
  | folded | foldedBack => exact absurd rfl (hs _ _ _ _ _)
  | _ => exact Or.inr rfl

/-- The only call that sets a parent is a fold. -/
theorem keepsParents_step
    (hs : ∀ now o self kind candidates, s ≠ .sessionForSibling now o self kind candidates) :
    KeepsParents c (c.step s) := by
  intro k e' he'
  cases step_stepped he' with
  | opened => exact Or.inl rfl
  | observed he hbecame => exact Or.inr ⟨_, he, parent_of_core hbecame.core⟩
  | marked he hmarked => exact (hmarked.parent hs).imp_right fun hsame => ⟨_, he, hsame⟩

theorem freshest_qualifies {o : Map.Walk EventKey} {qualifies : EventKey → DedupEntry → Bool}
    (h : c.freshest o qualifies = some k) :
    ∃ e, c.entries.lookup k = some e ∧ qualifies k e = true := by
  have hfound := (List.mem_filter.1 (Select.select_mem h)).2
  rwa [Option.any_eq_true] at hfound

/-- The sibling an incident folds onto is in the cache and is another one. -/
theorem sibling_lookup {o : Map.Walk EventKey} {kind cand : GoString} {candidates : List GoString}
    {best : DedupEntry} (h : c.sibling now o self kind candidates = some (cand, k, best)) :
    c.entries.lookup k = some best ∧ k ≠ self := by
  obtain ⟨cand', -, hcand⟩ := List.exists_of_findSome?_eq_some h
  obtain ⟨k', hk', hmap⟩ := Option.bind_eq_some_iff.1 hcand
  obtain ⟨e, he, heq⟩ := Option.map_eq_some_iff.1 hmap
  cases heq
  obtain ⟨e', -, hq⟩ := freshest_qualifies hk'
  exact ⟨he, (of_decide_eq_true hq).1⟩

/-- The condition under which a call keeps the groups flat: what folds is not itself the
    root of a group. -/
def LoneFold (c : DedupCache) : DedupStep → Prop
  | .sessionForSibling now o self kind candidates =>
    c.sibling now o self.canonical kind candidates ≠ none →
      c.entries.lookup self.canonical ≠ none → c.children self.canonical = []
  | _ => True

instance (c : DedupCache) : (s : DedupStep) → Decidable (c.LoneFold s)
  | .sessionForSibling .. => inferInstanceAs (Decidable (_ ≠ none → _ ≠ none → _ = []))
  | .observeSignal .. | .markUndelivered .. | .unbind .. | .markResolved .. | .bindSession ..
  | .bindIncident .. | .attachToStorm .. | .noteIncidentKind .. | .noteAncestors ..
  | .sessionForAncestors .. | .crossSourceJoin .. | .bindings .. | .sweep .. => isTrue trivial

/-- A fold keeps the groups flat just if what folds has no children. -/
theorem flat_fold_iff {root : EventKey} (hflat : c.Flat) (hself : c.entries.lookup self = some e)
    (hroot : root ≠ self) (htop : ∀ r, c.entries.lookup root = some r → r.parent = none) :
    (c.update self (·.foldOnto root)).Flat ↔ c.children self = [] := by
  have hat (k : EventKey) := lookup_update self k (·.foldOnto root) c
  constructor
  · intro h
    rw [List.eq_nil_iff_forall_not_mem]
    intro k hk
    obtain ⟨x, hx, hparent⟩ := mem_children.1 hk
    have hne : k ≠ self := fun hks => (hflat k x self hx hparent).1 hks.symm
    have hk' := (hat k).trans ((if_neg hne).trans hx)
    have hself' := (hat self).trans ((if_pos rfl).trans (congrArg _ hself))
    cases (h k x self hk' hparent).2 _ hself'
  · intro hnone k x p hx hp
    rw [hat] at hx
    split at hx
    · next hk =>
      obtain ⟨x₀, -, rfl⟩ := Option.map_eq_some_iff.1 hx
      cases hp
      refine ⟨hk ▸ hroot, fun r hr => ?_⟩
      rw [hat, if_neg hroot] at hr
      exact htop r hr
    · obtain ⟨hne, htop'⟩ := hflat k x p hx hp
      refine ⟨hne, fun r hr => ?_⟩
      have hpself : p ≠ self := by
        rintro rfl
        exact List.eq_nil_iff_forall_not_mem.1 hnone k (mem_children.2 ⟨x, hx, hp⟩)
      rw [hat, if_neg hpself] at hr
      exact htop' r hr

/-- Counting changes nothing about the groups. -/
theorem flat_update_iff {f : DedupEntry → DedupEntry} (hf : ∀ e, (f e).parent = e.parent) :
    (c.update key f).Flat ↔ c.Flat := by
  constructor
  · refine KeepsParents.flat fun k e he => Or.inr ?_
    have hat := lookup_update key k f c
    split at hat
    · exact ⟨f e, by rw [hat, he, Option.map_some], (hf e).symm⟩
    · exact ⟨e, hat.trans he, rfl⟩
  · refine KeepsParents.flat fun k e' he' => Or.inr ?_
    rw [lookup_update] at he'
    split at he'
    · obtain ⟨e, he, rfl⟩ := Option.map_eq_some_iff.1 he'
      exact ⟨e, he, hf e⟩
    · exact ⟨e', he', rfl⟩

theorem update_of_none (h : c.entries.lookup key = none) (f : DedupEntry → DedupEntry) :
    c.update key f = c := by
  rw [update, h]

/-- A call keeps the groups flat just if it meets the condition. -/
theorem flat_step_iff (s : DedupStep) (hflat : c.Flat) : (c.step s).Flat ↔ c.LoneFold s := by
  cases s with
  | sessionForSibling now o self kind candidates =>
    change (c.sessionForSibling now o self kind candidates).1.Flat ↔ (_ → _ → _)
    cases hsib : c.sibling now o self.canonical kind candidates with
    | none =>
      have hsame : (c.sessionForSibling now o self kind candidates).1 = c := by
        rw [sessionForSibling, hsib]
      rw [hsame]
      exact iff_of_true hflat fun hne => absurd rfl hne
    | some found =>
      obtain ⟨cand, k, best⟩ := found
      obtain ⟨hbest, hk⟩ := sibling_lookup hsib
      rw [sessionForSibling_eq hsib, flat_update_iff (f := (·.countFold)) fun _ => rfl]
      cases hself : c.entries.lookup self.canonical with
      | none =>
        rw [update_of_none hself]
        exact iff_of_true hflat fun _ hne => absurd rfl hne
      | some e =>
        simp only [ne_eq, reduceCtorEq, not_false_eq_true, forall_const]
        cases hparent : best.parent with
        | none =>
          refine flat_fold_iff hflat hself hk fun r hr => ?_
          rw [Option.getD_none, hbest] at hr
          cases hr
          exact hparent
        | some p =>
          by_cases hp : p = self.canonical
          · -- The sibling hangs on the incident that folds: it would become its own root.
            subst hp
            refine iff_of_false (fun h => ?_) fun hnil => ?_
            · have hat := lookup_update self.canonical self.canonical
                (·.foldOnto self.canonical) c
              rw [if_pos rfl, hself] at hat
              exact (h _ _ _ hat rfl).1 rfl
            · exact List.eq_nil_iff_forall_not_mem.1 hnil k (mem_children.2 ⟨best, hbest, hparent⟩)
          · exact flat_fold_iff hflat hself hp (hflat k best p hbest hparent).2
  | _ =>
    refine iff_of_true (KeepsParents.flat (keepsParents_step fun _ _ _ _ _ h => ?_) hflat) trivial
    cases h

theorem flat_new (window : Int) (hw : 0 < window) : (new window hw).Flat := by
  intro k e p he
  cases he

/-- The sibling groups are flat in every state of a run, just if no incident that is
    itself the root of a group is folded. -/
theorem groups_flat_iff {c : DedupCache} (hflat : c.Flat) (steps : List DedupStep) :
    Run.Always step Flat c steps ↔ Run.Steps step LoneFold c steps :=
  Run.always_iff_steps (fun _ s h => flat_step_iff s h) hflat

end DedupCache

namespace DedupSample

def crashLoop (uid : GoString) : EventKey := ⟨uid, bytes "CrashLoopBackOff"⟩

/-- The pods of one rollout, and the session that their incident opens. -/
def old : EventKey := crashLoop (bytes "pod-old")

def young : EventKey := crashLoop (bytes "pod-young")

def session : GoString := bytes "s-1"

def deployment : List GoString := [bytes "Deployment/default/web"]

def loops : Loops := ⟨.listed, .listed, .listed⟩

/-- An occurrence of the crash loop, with the time its event carries. -/
def occurrence (lastTS : Int) : Observation :=
  { lastTS := lastTS, kind := kindK8sEvent, repeatable := true }

def cache : DedupCache := DedupCache.new (5 * minute) five_minutes_pos

/-- The calls of the pipeline for a new incident that opens a session. -/
def opening (isOpen : EventKey → Bool) (now lastTS : Int) (key : EventKey) : List DedupStep :=
  [.observeSignal now isOpen loops key (occurrence lastTS), .noteIncidentKind key kindK8sEvent,
    .bindIncident key session {}, .noteAncestors key deployment]

/-- The calls for a new incident that folds into a sibling's session. -/
def folding (isOpen : EventKey → Bool) (now lastTS : Int) (key : EventKey) : List DedupStep :=
  [.observeSignal now isOpen loops key (occurrence lastTS), .noteIncidentKind key kindK8sEvent,
    .sessionForSibling now .listed key kindK8sEvent deployment, .bindIncident key session {},
    .noteAncestors key deployment]

/-- No tracker: no incident is known to be open. -/
def untracked : EventKey → Bool := fun _ => false

/-- The tracker holds every incident as open. -/
def tracked : EventKey → Bool := fun _ => true

/-- Two pods of a rollout, one folded onto the other. -/
def rollout : List DedupStep :=
  opening untracked minute minute old ++ folding untracked (2 * minute) (2 * minute) young

/-- The first pod is quiet for longer than the window, and then crashes again while the
    second one is still at it. -/
def relapse : List DedupStep :=
  rollout ++ [.observeSignal (5 * minute) untracked loops young (occurrence (5 * minute))] ++
    folding untracked (7 * minute) (7 * minute) old

end DedupSample

namespace DedupCache

open DedupEntry

theorem rollout_flat : Run.Always step Flat DedupSample.cache DedupSample.rollout :=
  (groups_flat_iff (flat_new _ _) _).2 (by decide +kernel)

open DedupSample in
/-- The root of a group that lapses folds back onto its own child, and is then its own
    root. -/
theorem root_folds_onto_itself : ¬(cache.run relapse).Flat := by
  intro h
  have hself : ∃ e, (cache.run relapse).entries.lookup old =
      some e ∧ e.parent = some old := by
    have hparent : ((cache.run relapse).entries.lookup
        old).bind (·.parent) = some old := by decide +kernel
    exact Option.bind_eq_some_iff.1 hparent
  obtain ⟨e, he, hparent⟩ := hself
  exact (h _ e _ he hparent).1 rfl

/-! ## Capacity -/

/-- If the sweep retires the key's entry, there is room for the tombstone. -/
def RoomToRetire (now : Int) (c : DedupCache) (k : EventKey) : Prop :=
  (c.entries.lookup k).all (fun e => since now e.lastSeen > c.window ∧ e.resolved = true →
    c.tombstones.lookup k = none → c.tombstones.keys.card < c.max) = true

/-- No tombstone has to make room for another in a sweep. -/
def SweepsInRoom (now : Int) (isOpen : EventKey → Bool) (o : Loops) (c : DedupCache) : Prop :=
  Run.Steps (sweepOne now isOpen o.retire) (RoomToRetire now) { c with lastSweep := now }
    (Map.walk o.sweep c.entries)

/-- `evictIfFull` evicts nothing: there is room, or there is after its sweep. -/
def EvictsNothing (now : Int) (isOpen : EventKey → Bool) (o : Loops) (c : DedupCache) : Prop :=
  c.entries.keys.card < c.max ∨
    (c.SweepsInRoom now isOpen o ∧ (c.sweepExpired now isOpen o).entries.keys.card < c.max)

/-- The cache in which a new incident of the key is filed. -/
def beforeOpen (now : Int) (isOpen : EventKey → Bool) (o : Loops) (key : EventKey)
    (c : DedupCache) : DedupCache :=
  let c := c.maybeSweep now isOpen o
  { c with tombstones :=
      if c.entries.lookup key = none then c.tombstones.erase key else c.tombstones }

instance (now : Int) (c : DedupCache) (k : EventKey) : Decidable (c.RoomToRetire now k) :=
  inferInstanceAs (Decidable (_ = true))

instance (now : Int) (isOpen : EventKey → Bool) (o : Loops) (c : DedupCache) :
    Decidable (c.SweepsInRoom now isOpen o) :=
  inferInstanceAs (Decidable (Run.Steps _ _ _ _))

instance (now : Int) (isOpen : EventKey → Bool) (o : Loops) (c : DedupCache) :
    Decidable (c.EvictsNothing now isOpen o) :=
  inferInstanceAs (Decidable (_ ∨ _))

/-- The call removes nothing for lack of room. -/
def NoEviction (c : DedupCache) : DedupStep → Prop
  | .observeSignal now isOpen o key obs =>
    (c.lastSweep ≠ 0 ∧ since now c.lastSweep < c.window ∨ c.SweepsInRoom now isOpen o) ∧
      ((c.observeSignal now isOpen o key obs).2.kind = .newIncident →
        (c.beforeOpen now isOpen o key.canonical).EvictsNothing now isOpen o)
  | .bindings now o =>
    Run.Steps (bindingsOne now o.retire) (fun acc k => acc.1.RoomToRetire now k) (c, [])
      (Map.walk o.sweep c.entries)
  | .sweep now isOpen o => c.SweepsInRoom now isOpen o
  | _ => True

instance (c : DedupCache) : (s : DedupStep) → Decidable (c.NoEviction s)
  | .observeSignal .. => inferInstanceAs (Decidable (_ ∧ _))
  | .bindings .. => inferInstanceAs (Decidable (Run.Steps _ _ _ _))
  | .sweep .. => inferInstanceAs (Decidable (SweepsInRoom _ _ _ _))
  | .markUndelivered .. | .unbind .. | .markResolved .. | .bindSession .. | .bindIncident ..
  | .attachToStorm .. | .noteIncidentKind .. | .noteAncestors .. | .sessionForAncestors ..
  | .sessionForSibling .. | .crossSourceJoin .. => isTrue trivial

/-! ## Records -/

/-- What the cache knows of the events of a key: its entry, or the tombstone of one. -/
def record (k : EventKey) (c : DedupCache) : Option Tombstone :=
  match c.entries.lookup k with
  | some e => some ⟨e.eventLastTS, e.lastSeen⟩
  | none => c.tombstones.lookup k

/-- The record of the key has not aged past the replay time. -/
def Recent (now : Int) (k : EventKey) (c : DedupCache) : Prop :=
  (c.record k).all (fun r => since now r.lastSeen ≤ c.replayTTL) = true

variable {o : Loops}

theorem Recent.le (h : c.Recent now k) {r : Tombstone} (hr : c.record k = some r) :
    since now r.lastSeen ≤ c.replayTTL := by
  rw [Recent, hr] at h
  exact of_decide_eq_true h

theorem record_of_lookup (he : c.entries.lookup k = some e) :
    c.record k = some ⟨e.eventLastTS, e.lastSeen⟩ := by
  rw [record, he]

theorem record_of_none (he : c.entries.lookup k = none) : c.record k = c.tombstones.lookup k := by
  rw [record, he]

variable {t : Int}

/-- The record depends on the entry and the tombstone of the key. -/
theorem record_congr (he : c'.entries.lookup k = c.entries.lookup k)
    (ht : c'.tombstones.lookup k = c.tombstones.lookup k) : c'.record k = c.record k := by
  rw [record, he, ht, record]

/-- Replacing an entry by one with the same times keeps the records. -/
theorem record_insert (he : c.entries.lookup key = some e) (hts : e'.eventLastTS = e.eventLastTS)
    (hseen : e'.lastSeen = e.lastSeen) (k : EventKey) :
    ({ c with entries := c.entries.insert key e' } : DedupCache).record k = c.record k := by
  by_cases hk : k = key
  · subst hk
    rw [record_of_lookup he, ← hts, ← hseen]
    exact record_of_lookup (Finmap.lookup_insert _)
  · exact record_congr (Finmap.lookup_insert_of_ne _ hk) rfl

/-- A mark is no activity. -/
theorem Marked.times (h : Marked c s k e e') :
    e'.eventLastTS = e.eventLastTS ∧ e'.lastSeen = e.lastSeen := by
  cases h with
  | _ => exact ⟨rfl, rfl⟩

theorem MarkedBy.record (h : MarkedBy c s c') (k : EventKey) : c'.record k = c.record k := by
  cases he : c.entries.lookup k with
  | none => rw [record_of_none he, record_of_none (h.absent he), h.tombstones]
  | some e =>
    obtain ⟨e', he', hmark⟩ := h.present he
    rw [record_of_lookup he, record_of_lookup he', hmark.times.1, hmark.times.2]

/-- A retired entry leaves its record behind, and takes nobody else's. -/
theorem record_retire {o : Map.Walk EventKey} (he : c.entries.lookup key = some e)
    (hroom : c.tombstones.lookup key = none → c.tombstones.keys.card < c.max) (k : EventKey) :
    (c.retire o key e).record k = c.record k := by
  have hkeep : ¬(c.tombstones.lookup key = none ∧ c.tombstones.keys.card ≥ c.max) :=
    fun ⟨hnone, hfull⟩ => absurd (hroom hnone) (not_lt.2 hfull)
  have hretire : c.retire o key e = { c with
      entries := c.entries.erase key
      tombstones := c.tombstones.insert key ⟨e.eventLastTS, e.lastSeen⟩ } := by
    rw [retire, if_neg hkeep]
  rw [hretire]
  by_cases hk : k = key
  · subst hk
    rw [record_of_lookup he]
    exact (record_of_none (Finmap.lookup_erase _ _)).trans (Finmap.lookup_insert _)
  · exact record_congr (Finmap.lookup_erase_ne hk) (Finmap.lookup_insert_of_ne _ hk)

theorem RoomToRetire.room (h : c.RoomToRetire now k) (he : c.entries.lookup k = some e)
    (hidle : since now e.lastSeen > c.window) (hres : e.resolved = true)
    (hnone : c.tombstones.lookup k = none) : c.tombstones.keys.card < c.max := by
  rw [RoomToRetire, he, Option.all_some, decide_eq_true_iff] at h
  exact h ⟨hidle, hres⟩ hnone

/-- One round of a sweep keeps a record that has not aged out. -/
theorem record_sweepOne (isOpen : EventKey → Bool) (o : Map.Walk EventKey) {k' : EventKey}
    (hrecent : c.Recent now k) (hroom : c.RoomToRetire now k') :
    (c.sweepOne now isOpen o k').record k = c.record k := by
  fun_cases sweepOne with
  | case3 e he age hidle hres => exact record_retire he (hroom.room he (not_le.1 hidle) hres) k
  | case5 e he age _ _ _ hold =>
    have hk : k ≠ k' := by
      rintro rfl
      exact absurd (hrecent.le (record_of_lookup he)) (not_le.2 hold)
    exact record_congr (Finmap.lookup_erase_ne hk) rfl
  | _ => rfl

theorem record_foldl_sweepOne {o : Map.Walk EventKey} {ks : List EventKey}
    (hrecent : c.Recent now k) (hroom : Run.Steps (sweepOne now isOpen o) (RoomToRetire now) c ks) :
    (ks.foldl (sweepOne now isOpen o) c).record k = c.record k := by
  have hinv := Run.invariant (P := fun c' => c'.record k = c.record k ∧ c'.Recent now k)
    (fun c' k' h hr => ?_) ⟨rfl, hrecent⟩ hroom
  · exact hinv.1
  · have hsame := record_sweepOne isOpen o h.2 hr
    have hswept := sweepOne_swept now isOpen o c' k'
    refine ⟨hsame.trans h.1, ?_⟩
    rw [Recent, hsame, hswept.replayTTL]
    exact h.2

theorem record_filter {p : EventKey → Tombstone → Bool}
    (hp : ∀ r, c.record k = some r → p k r = true) :
    ({ c with tombstones := Map.filter p c.tombstones } : DedupCache).record k = c.record k := by
  cases he : c.entries.lookup k with
  | some e => simp only [record, he]
  | none =>
    rw [record_of_none he] at hp
    simp only [record, he, Map.lookup_filter]
    cases htomb : c.tombstones.lookup k with
    | none => rfl
    | some tomb => exact Option.filter_some_pos (hp tomb htomb)

theorem record_sweepExpired (hrecent : c.Recent now k) (hroom : c.SweepsInRoom now isOpen o) :
    (c.sweepExpired now isOpen o).record k = c.record k := by
  have hrecent' : Recent now k { c with lastSweep := now } := hrecent
  have hfold := record_foldl_sweepOne hrecent' hroom
  -- The second loop drops tombstones by age, and this one is young.
  refine (record_filter fun r hr => decide_eq_true (hrecent.le ?_)).trans hfold
  exact hfold.symm.trans hr

theorem record_maybeSweep (hrecent : c.Recent now k)
    (hroom : c.lastSweep ≠ 0 ∧ since now c.lastSweep < c.window ∨ c.SweepsInRoom now isOpen o) :
    (c.maybeSweep now isOpen o).record k = c.record k := by
  unfold maybeSweep
  split
  · rfl
  · next hdue => exact record_sweepExpired hrecent (hroom.resolve_left hdue)

theorem record_evictIfFull (hrecent : c.Recent now k) (hroom : c.EvictsNothing now isOpen o) :
    (c.evictIfFull now isOpen o).record k = c.record k := by
  unfold evictIfFull
  split
  · rfl
  · next hfull =>
    obtain ⟨hsweeps, hfree⟩ := hroom.resolve_left hfull
    dsimp only
    rw [(sweepExpired_swept now isOpen o c).max, if_pos hfree]
    exact record_sweepExpired hrecent hsweeps

theorem record_bindings
    (hroom : Run.Steps (bindingsOne now o.retire) (fun acc k => acc.1.RoomToRetire now k) (c, [])
      (Map.walk o.sweep c.entries)) : (c.bindings now o).1.record k = c.record k := by
  refine Run.invariant (P := fun acc => acc.1.record k = c.record k) (fun acc k' h hr => ?_) rfl hroom
  rw [← h]
  fun_cases bindingsOne with
  | case2 e he hres =>
    dsimp only
    split
    next hidle => exact record_retire he (hr.room he hidle hres) k
    next => rfl
  | _ => rfl

section Observed

variable {o : Loops}

/-- Once a root took note, both it and the entry handed over to it carry the event's time. -/
theorem lookup_root {rk : EventKey} {root' : DedupEntry} (hlast : root'.eventLastTS = obs.lastTS) :
    ∃ x, ((c.entries.insert key (touch now obs.lastTS e)).insert rk root').lookup key = some x ∧
      x.eventLastTS = obs.lastTS := by
  rw [Map.lookup_insert]
  split
  · exact ⟨root', rfl, hlast⟩
  · exact ⟨_, Finmap.lookup_insert _, rfl⟩

/-- After an observation, the record of its key is at least as late as the event, and no
    earlier than it was. -/
theorem Observed.record_key (h : Observed now isOpen o key obs c c' result) :
    ∃ r, c'.record key = some r ∧ obs.lastTS ≤ r.eventLastTS ∧
      ∀ r₀, c.record key = some r₀ → r₀.eventLastTS ≤ r.eventLastTS := by
  have hfresh {e e' : DedupEntry} (he : c.entries.lookup key = some e)
      (he' : c'.entries.lookup key = some e') (hts : e.eventLastTS < obs.lastTS)
      (hlast : e'.eventLastTS = obs.lastTS) : ∃ r, c'.record key = some r ∧
        obs.lastTS ≤ r.eventLastTS ∧
        ∀ r₀, c.record key = some r₀ → r₀.eventLastTS ≤ r.eventLastTS := by
    refine ⟨_, record_of_lookup he', hlast.ge, fun r₀ hr₀ => ?_⟩
    rw [record_of_lookup he] at hr₀
    cases hr₀
    exact (hts.trans_eq hlast.symm).le
  cases h with
  | @buried tomb hnone htomb hts =>
    have hr := (record_of_none hnone).trans htomb
    refine ⟨tomb, hr, hts, fun r₀ hr₀ => ?_⟩
    rw [hr] at hr₀
    cases hr₀
    exact le_rfl
  | opened _ hlapsed hfirst =>
    refine ⟨_, record_of_lookup (Finmap.lookup_insert _), le_rfl,
      fun r₀ hr₀ => ?_⟩
    cases he : c.entries.lookup key with
    | some e =>
      rw [record_of_lookup he] at hr₀
      cases hr₀
      exact (hlapsed e he).1.le
    | none =>
      rw [record_of_none he] at hr₀
      exact (hfirst r₀ he hr₀).le
  | @replayed e he hts =>
    refine ⟨_, (record_insert he ?_ ?_ key).trans (record_of_lookup he), hts, fun r₀ hr₀ => ?_⟩
    · rfl
    · rfl
    · rw [record_of_lookup he] at hr₀
      cases hr₀
      exact le_rfl
  | @repeated e lapsed he hts =>
    exact hfresh he (Finmap.lookup_insert _) hts
      (repeat_core c.window now obs.lastTS obs.class lapsed e).2.2.1
  | noted he hts _ hnoted => exact hfresh he (Finmap.lookup_insert _) hts hnoted.eventLastTS
  | @rootRepeated e rk root root₀ lapsed he hts =>
    obtain ⟨x, hx, hlast⟩ :=
      lookup_root (repeat_core c.window now obs.lastTS obs.class lapsed root₀).2.2.1
    exact hfresh he hx hts hlast
  | rootNoted he hts _ _ _ hnoted =>
    obtain ⟨x, hx, hlast⟩ := lookup_root hnoted.eventLastTS
    exact hfresh he hx hts hlast

/-- The record of another key stays, or the observation is handed over to its entry. -/
theorem Observed.record_other (h : Observed now isOpen o key obs c c' result) (hk : k ≠ key)
    (hroom : result.kind = .newIncident → c.Recent now k ∧
      ({ c with tombstones := if c.entries.lookup key = none then c.tombstones.erase key
                              else c.tombstones } : DedupCache).EvictsNothing now isOpen o) :
    c'.record k = c.record k ∨
      (DecidedOn isOpen key obs c k ∧ ∃ r, c'.record k = some r ∧ r.eventLastTS = obs.lastTS) := by
  have hroot {e root root' : DedupEntry} {rk : EventKey} (he : c.entries.lookup key = some e)
      (hts : e.eventLastTS < obs.lastTS) (hdel : c.delegate isOpen e = some (rk, root))
      (hlast : root'.eventLastTS = obs.lastTS) (hentries : c'.entries =
        (c.entries.insert key (touch now obs.lastTS e)).insert rk root')
      (htombs : c'.tombstones = c.tombstones) : c'.record k = c.record k ∨
        (DecidedOn isOpen key obs c k ∧
          ∃ r, c'.record k = some r ∧ r.eventLastTS = obs.lastTS) := by
    by_cases hrk : k = rk
    · subst hrk
      have hat : c'.entries.lookup k = some root' := by
        rw [hentries]
        exact Finmap.lookup_insert _
      exact Or.inr ⟨⟨e, he, hts, Or.inr ⟨root, hdel⟩⟩, _, record_of_lookup hat, hlast⟩
    · refine Or.inl (record_congr ?_ (by rw [htombs]))
      rw [hentries, Finmap.lookup_insert_of_ne _ hrk, Finmap.lookup_insert_of_ne _ hk]
  cases h with
  | buried => exact Or.inl rfl
  | @opened tombstones htombstones =>
    refine Or.inl ?_
    obtain ⟨hrecent, hevict⟩ := hroom rfl
    rw [← htombstones] at hevict
    have hsame : DedupCache.record k { c with tombstones := tombstones } = c.record k := by
      refine record_congr rfl ?_
      rw [htombstones]
      split
      · exact Finmap.lookup_erase_ne hk
      · rfl
    have hrecent' : DedupCache.Recent now k { c with tombstones := tombstones } := by
      rw [Recent, hsame]
      exact hrecent
    rw [← hsame, ← record_evictIfFull hrecent' hevict]
    exact record_congr (Finmap.lookup_insert_of_ne _ hk) rfl
  | replayed | repeated | noted => exact Or.inl (record_congr (Finmap.lookup_insert_of_ne _ hk) rfl)
  | @rootRepeated e rk root root₀ lapsed he hts hdel =>
    exact hroot he hts hdel (repeat_core c.window now obs.lastTS obs.class lapsed root₀).2.2.1 rfl rfl
  | rootNoted he hts hdel _ _ hnoted => exact hroot he hts hdel hnoted.eventLastTS rfl rfl

end Observed

/-! ## Replays -/

/-- The cache knows that the events of the key were processed up to `t`. -/
def Remembers (k : EventKey) (t : Int) (c : DedupCache) : Prop :=
  ∃ r, c.record k = some r ∧ t ≤ r.eventLastTS

/-- The record of the key is within the replay time whenever the clock is read, unless
    the call itself is new activity of the key. -/
def Unaged (k : EventKey) (t : Int) (c : DedupCache) : DedupStep → Prop
  | .observeSignal now _ _ key obs => (key.canonical = k ∧ t < obs.lastTS) ∨ c.Recent now k
  | .sweep now _ _ => c.Recent now k
  | _ => True

/-- The condition under which what was processed is not forgotten: an observation that a
    sibling hands over to the key's entry is not older than `t`. -/
def InOrder (k : EventKey) (t : Int) (c : DedupCache) : DedupStep → Prop
  | .observeSignal now isOpen o key obs => key.canonical ≠ k →
      DecidedOn isOpen key.canonical obs (c.maybeSweep now isOpen o) k → t ≤ obs.lastTS
  | _ => True

instance (isOpen : EventKey → Bool) (key : EventKey) (obs : Observation) (c : DedupCache)
    (k : EventKey) : Decidable (DecidedOn isOpen key obs c k) :=
  decidable_of_iff (∃ x ∈ c.entries.lookup key, x.eventLastTS < obs.lastTS ∧
    (k = key ∨ ∃ p ∈ c.delegate isOpen x, p.1 = k)) (by simp [DecidedOn])

instance (k : EventKey) (t : Int) (c : DedupCache) : (s : DedupStep) → Decidable (c.Unaged k t s)
  | .observeSignal .. => inferInstanceAs (Decidable (_ ∨ _ = true))
  | .sweep .. => inferInstanceAs (Decidable (_ = true))
  | .bindings .. | .markUndelivered .. | .unbind .. | .markResolved .. | .bindSession ..
  | .bindIncident .. | .attachToStorm .. | .noteIncidentKind .. | .noteAncestors ..
  | .sessionForAncestors .. | .sessionForSibling .. | .crossSourceJoin .. => isTrue trivial

instance (k : EventKey) (t : Int) (c : DedupCache) : (s : DedupStep) → Decidable (c.InOrder k t s)
  | .observeSignal .. => inferInstanceAs (Decidable (_ → _ → _))
  | .sweep .. | .bindings .. | .markUndelivered .. | .unbind .. | .markResolved .. | .bindSession ..
  | .bindIncident .. | .attachToStorm .. | .noteIncidentKind .. | .noteAncestors ..
  | .sessionForAncestors .. | .sessionForSibling .. | .crossSourceJoin .. => isTrue trivial

theorem remembers_observe (h : c.Remembers k t)
    (hroom : c.NoEviction (.observeSignal now isOpen o key obs))
    (hage : c.Unaged k t (.observeSignal now isOpen o key obs))
    (horder : c.InOrder k t (.observeSignal now isOpen o key obs)) :
    (c.observeSignal now isOpen o key obs).1.Remembers k t := by
  have hpath := observeSignal_observed now isOpen o key obs c
  obtain ⟨r₀, hr₀, hle⟩ := h
  by_cases hk : k = key.canonical
  · obtain ⟨r, hr, hlast, hgrow⟩ := hpath.record_key
    rw [← hk] at hr hgrow
    refine ⟨r, hr, ?_⟩
    rcases hage with ⟨-, hnew⟩ | hrecent
    · exact hnew.le.trans hlast
    · exact hle.trans (hgrow r₀ ((record_maybeSweep hrecent hroom.1).trans hr₀))
  · have hrecent : c.Recent now k := hage.resolve_left fun hnew => hk hnew.1.symm
    have hsame : (c.maybeSweep now isOpen o).record k = c.record k :=
      record_maybeSweep hrecent hroom.1
    have hrecent' : (c.maybeSweep now isOpen o).Recent now k := by
      rw [Recent, hsame, (maybeSweep_swept now isOpen o c).replayTTL]
      exact hrecent
    rcases hpath.record_other hk fun hnew => ⟨hrecent', hroom.2 hnew⟩ with hkept | ⟨hon, r, hr, hlast⟩
    · exact ⟨r₀, hkept.trans (hsame.trans hr₀), hle⟩
    · exact ⟨r, hr, (horder (Ne.symm hk) hon).trans_eq hlast.symm⟩

/-- What was processed stays known through a call. -/
theorem remembers_step (h : c.Remembers k t) (hroom : c.NoEviction s) (hage : c.Unaged k t s)
    (horder : c.InOrder k t s) : (c.step s).Remembers k t := by
  have hsame {c' : DedupCache} (hrecord : c'.record k = c.record k) : c'.Remembers k t := by
    rw [Remembers, hrecord]
    exact h
  have hmark (hmarks : Marks s) : (c.step s).Remembers k t :=
    hsame ((step_markedBy c hmarks).record k)
  cases s with
  | observeSignal now isOpen o key obs => exact remembers_observe h hroom hage horder
  | bindings now o => exact hsame (record_bindings hroom)
  | sweep now isOpen o => exact hsame (record_sweepExpired hage hroom)
  | _ => exact hmark trivial

/-- An event that is known is a duplicate, and moves nothing but a counter. -/
theorem observe_known (hpath : Observed now isOpen o key obs c c' result)
    (h : c.Remembers key obs.lastTS) :
    result.kind = .duplicate ∧ ∀ k e', c'.entries.lookup k = some e' →
      ∃ e, c.entries.lookup k = some e ∧ e'.lastSeen = e.lastSeen ∧
        e'.toRepeatState = e.toRepeatState := by
  obtain ⟨r, hr, hle⟩ := h
  have hnot {e : DedupEntry} (he : c.entries.lookup key = some e) :
      ¬e.eventLastTS < obs.lastTS := by
    rw [record_of_lookup he] at hr
    cases hr
    exact not_lt.2 hle
  cases hpath with
  | buried => exact ⟨rfl, fun k e' he' => ⟨e', he', rfl, rfl⟩⟩
  | opened _ hlapsed hfirst =>
    cases he : c.entries.lookup key with
    | some e => exact absurd (hlapsed e he).1 (hnot he)
    | none =>
      rw [record_of_none he] at hr
      exact absurd (hfirst r he hr) (not_lt.2 hle)
  | @replayed e he =>
    refine ⟨rfl, fun k e' he' => ?_⟩
    rcases Map.of_lookup_insert he' with ⟨hk, rfl⟩ | ⟨-, he'⟩
    · exact ⟨e, hk ▸ he, rfl, rfl⟩
    · exact ⟨e', he', rfl, rfl⟩
  | repeated he hts | noted he hts | rootRepeated he hts | rootNoted he hts =>
    exact absurd hts (hnot he)

/-- Replays are never news. Once an observation of a key with time `first.lastTS` was
    processed, every later one that is not later than it is a duplicate and leaves the
    activity and the schedule of every entry as they are, provided that nothing is evicted,
    the record does not age out, and no sibling hands over an older event in between. -/
theorem replay_not_news {c : DedupCache} {key key' : EventKey} {first obs : Observation}
    {now now' : Int} {isOpen isOpen' : EventKey → Bool} {o o' : Loops} {between : List DedupStep}
    (hkey : key'.canonical = key.canonical) (hts : obs.lastTS ≤ first.lastTS)
    (hrun : Run.Steps step (fun c s => c.NoEviction s ∧ c.Unaged key.canonical first.lastTS s ∧
        c.InOrder key.canonical first.lastTS s)
      (c.observeSignal now isOpen o key first).1
      (between ++ [.observeSignal now' isOpen' o' key' obs])) :
    let before := (c.observeSignal now isOpen o key first).1.run between
    let (after, result) := before.observeSignal now' isOpen' o' key' obs
    result.kind = .duplicate ∧ ∀ k e', after.entries.lookup k = some e' →
      ∃ e, before.entries.lookup k = some e ∧ e'.lastSeen = e.lastSeen ∧
        e'.toRepeatState = e.toRepeatState := by
  obtain ⟨hbetween, ⟨hroom, hage, -⟩, -⟩ := Run.steps_append.1 hrun
  obtain ⟨r, hr, hfirst, -⟩ := (observeSignal_observed now isOpen o key first c).record_key
  have hknown : ((c.observeSignal now isOpen o key first).1.run between).Remembers key.canonical
      first.lastTS :=
    Run.invariant (fun _ _ h hs => remembers_step h hs.1 hs.2.1 hs.2.2) ⟨r, hr, hfirst⟩ hbetween
  change NoEviction (run _ between) _ at hroom
  change Unaged _ _ (run _ between) _ at hage
  generalize (c.observeSignal now isOpen o key first).1.run between = before at hknown hroom hage ⊢
  -- The replay sweeps first, and the record survives that.
  have hrecent : before.Recent now' key.canonical :=
    hage.resolve_left fun hnew => absurd hts (not_le.2 hnew.2)
  obtain ⟨r', hr', hle⟩ := hknown
  have hknown' : (before.maybeSweep now' isOpen' o').Remembers key'.canonical obs.lastTS := by
    refine ⟨r', ?_, hts.trans hle⟩
    rw [hkey, record_maybeSweep hrecent hroom.1, hr']
  obtain ⟨hdup, hsame⟩ :=
    observe_known (observeSignal_observed now' isOpen' o' key' obs before) hknown'
  refine ⟨hdup, fun k e' he' => ?_⟩
  obtain ⟨e, he, hseen⟩ := hsame k e' he'
  exact ⟨e, (maybeSweep_swept now' isOpen' o' before).lookup he, hseen⟩

end DedupCache

namespace DedupSample

/-- The cache after the first pod's event of the tenth minute was processed. -/
def processed : DedupCache :=
  (cache.observeSignal (10 * minute) tracked loops old (occurrence (10 * minute))).1

/-- The second pod folds onto it, and its next event is from the minute `t`. -/
def siblingCrash (t : Int) : List DedupStep :=
  (opening tracked (10 * minute) (10 * minute) old).tail ++
    folding tracked (11 * minute) minute young ++
    [.observeSignal (12 * minute) tracked loops young (occurrence (t * minute))]

/-- The first pod's event is delivered again. -/
def again : DedupStep :=
  .observeSignal (18 * minute) tracked loops old (occurrence (10 * minute))

end DedupSample

namespace DedupCache

open DedupSample in
theorem replay_after_sibling :
    let before := processed.run (siblingCrash 12)
    let (after, result) :=
      before.observeSignal (18 * minute) tracked loops old (occurrence (10 * minute))
    result.kind = .duplicate ∧ ∀ k e', after.entries.lookup k = some e' →
      ∃ e, before.entries.lookup k = some e ∧ e'.lastSeen = e.lastSeen ∧
        e'.toRepeatState = e.toRepeatState := by
  have hrun : Run.Steps step (fun c s => c.NoEviction s ∧ c.Unaged old.canonical (10 * minute) s ∧
      c.InOrder old.canonical (10 * minute) s) processed (siblingCrash 12 ++ [again]) := by
    decide +kernel
  exact replay_not_news rfl le_rfl hrun

open DedupSample in
/-- An event of the sibling that is older than the root's own sets the root back, and the
    root's event is news again when it is delivered once more. -/
theorem stale_sibling_revives_replay :
    Run.Steps step (fun c s => c.NoEviction s ∧ c.Unaged old (10 * minute) s) processed
        (siblingCrash 2 ++ [again]) ∧
      ((processed.run (siblingCrash 2)).observeSignal (18 * minute) tracked loops old
        (occurrence (10 * minute))).2.kind = .repeated := by
  decide +kernel

end DedupCache

end Lookout.Engine
