-- SUMMARY: What one call can do to the dedup cache: removals, and the paths of an observation.
import Lookout.Engine.Dedup

/-!
# Effects on the dedup cache

An observation first sweeps, then takes one of seven paths. `Swept` says what a sweep
may remove, and `Observed` lists the paths with the cache and the answer each of them
ends in. Every result about runs goes through these two.
-/

namespace Lookout.Engine

variable {e' root x : DedupEntry} {now : Int} {c c' : DedupCache} {k key rk : EventKey}
  {isOpen : EventKey → Bool} {obs : Observation}

/-! ## Occurrences -/

namespace DedupEntry

/-- What no occurrence changes: the binding of the entry and its place in a group. -/
def core (e : DedupEntry) : DedupEntry :=
  { e with toRepeatState := { sessionClass := e.sessionClass, resolved := e.resolved },
           lastSeen := 0, eventLastTS := 0, count := 0 }

/-- The part of the schedule that only an inject moves. -/
structure SameSchedule (e e' : DedupEntry) : Prop where
  lastInjectAt : e'.lastInjectAt = e.lastInjectAt
  repeatCount : e'.repeatCount = e.repeatCount
  step : e'.step = e.step
  undelivered : e'.undelivered = e.undelivered
  lastChange : e'.lastChange = e.lastChange

/-- The entry took note of an occurrence that is not announced. -/
structure Noted (now lastTS : Int) (e e' : DedupEntry) : Prop extends SameSchedule e e' where
  lastSeen : e'.lastSeen = now
  eventLastTS : e'.eventLastTS = lastTS
  core : e'.core = e.core

section Core

variable {e : DedupEntry}

section

variable (h : e'.core = e.core)

include h

theorem sessionID_of_core : e'.sessionID = e.sessionID :=
  congrArg (fun e => e.sessionID) h

theorem parent_of_core : e'.parent = e.parent :=
  congrArg (fun e => e.parent) h

theorem storm_of_core : e'.storm = e.storm :=
  congrArg (fun e => e.storm) h

theorem sessionClass_of_core : e'.sessionClass = e.sessionClass :=
  congrArg (fun e => e.sessionClass) h

theorem incident_of_core : e'.incident = e.incident :=
  congrArg (fun e => e.incident) h

end

end Core

variable {e₁ e₂ e₃ : DedupEntry} {lastTS : Int} (window : Int)

theorem SameSchedule.trans (h : SameSchedule e₁ e₂) (h' : SameSchedule e₂ e₃) :
    SameSchedule e₁ e₃ :=
  ⟨h'.lastInjectAt.trans h.lastInjectAt, h'.repeatCount.trans h.repeatCount, h'.step.trans h.step,
    h'.undelivered.trans h.undelivered, h'.lastChange.trans h.lastChange⟩

theorem Noted.trans {now' lastTS' : Int} (h : Noted now lastTS e₁ e₂)
    (h' : Noted now' lastTS' e₂ e₃) : Noted now' lastTS' e₁ e₃ :=
  ⟨h.toSameSchedule.trans h'.toSameSchedule, h'.lastSeen, h'.eventLastTS, h'.core.trans h.core⟩

theorem noteClass_noted (class_ : UInt64) (e : DedupEntry) :
    Noted e.lastSeen e.eventLastTS e (e.noteClass class_) := by
  unfold noteClass
  split <;> exact ⟨⟨rfl, rfl, rfl, rfl, rfl⟩, rfl, rfl, rfl⟩

theorem showClass_noted (now : Int) (class_ : UInt64) (e : DedupEntry) :
    Noted e.lastSeen e.eventLastTS e (e.showClass window now class_) := by
  have h := noteClass_noted class_ e
  unfold showClass
  split
  · exact ⟨⟨h.lastInjectAt, h.repeatCount, h.step, h.undelivered, h.lastChange⟩, h.lastSeen,
      h.eventLastTS, h.core⟩
  · exact h

theorem Noted.showClass {e : DedupEntry} (h : Noted now lastTS e e') (window : Int)
    (class_ : UInt64) : Noted now lastTS e (e'.showClass window now class_) := by
  have h' := showClass_noted window now class_ e'
  rw [h.lastSeen, h.eventLastTS] at h'
  exact h.trans h'

theorem adoptOpen_core (e : DedupEntry) : e.adoptOpen.core = e.core := by
  unfold adoptOpen
  split <;> rfl

/-- Before it decides, `repeat` only takes note of the occurrence. -/
theorem noteOccurrence_noted (now lastTS : Int) (class_ : UInt64) (e : DedupEntry) :
    Noted now lastTS e.adoptOpen (e.noteOccurrence window now lastTS class_) := by
  have h : Noted now lastTS e.adoptOpen { e.adoptOpen with
      count := e.adoptOpen.count + 1, lastSeen := now, eventLastTS := lastTS } :=
    ⟨⟨rfl, rfl, rfl, rfl, rfl⟩, rfl, rfl, rfl⟩
  exact h.showClass window class_

/-- Whatever `repeat` decides, the entry keeps its binding, and the answer is for the
    session it is bound to. -/
theorem repeat_core (now lastTS : Int) (class_ : UInt64) (lapsed : Bool) (e : DedupEntry) :
    (e.repeat window now lastTS class_ lapsed).1.core = e.core ∧
      (e.repeat window now lastTS class_ lapsed).1.lastSeen = now ∧
      (e.repeat window now lastTS class_ lapsed).1.eventLastTS = lastTS ∧
      (e.repeat window now lastTS class_ lapsed).2.kind ≠ .newIncident ∧
      (e.repeat window now lastTS class_ lapsed).2.sessionID = e.sessionID := by
  have h := noteOccurrence_noted window now lastTS class_ e
  have hcore : (e.noteOccurrence window now lastTS class_).core = e.core :=
    h.core.trans (adoptOpen_core e)
  have hsession := sessionID_of_core hcore
  have hdone {e' : DedupEntry} {result : DedupResult}
      (h₁ : e'.core = (e.noteOccurrence window now lastTS class_).core)
      (h₂ : e'.lastSeen = (e.noteOccurrence window now lastTS class_).lastSeen)
      (h₃ : e'.eventLastTS = (e.noteOccurrence window now lastTS class_).eventLastTS)
      (h₄ : result.kind ≠ .newIncident)
      (h₅ : result.sessionID = (e.noteOccurrence window now lastTS class_).sessionID) :
      e'.core = e.core ∧ e'.lastSeen = now ∧ e'.eventLastTS = lastTS ∧
        result.kind ≠ .newIncident ∧ result.sessionID = e.sessionID :=
    ⟨h₁.trans hcore, h₂.trans h.lastSeen, h₃.trans h.eventLastTS, h₄, h₅.trans hsession⟩
  fun_cases DedupEntry.repeat with
  | case1 =>
    fun_cases resend <;> exact hdone rfl rfl rfl nofun rfl
  | _ => exact hdone rfl rfl rfl nofun rfl

end DedupEntry

namespace DedupCache

open DedupEntry

theorem touch_noted (now lastTS : Int) (e : DedupEntry) : Noted now lastTS e (touch now lastTS e) :=
  ⟨⟨rfl, rfl, rfl, rfl, rfl⟩, rfl, rfl, rfl⟩

theorem absorb_noted (now lastTS : Int) (e : DedupEntry) :
    Noted now lastTS e (absorb now lastTS e) :=
  ⟨⟨rfl, rfl, rfl, rfl, rfl⟩, rfl, rfl, rfl⟩

/-! ## Removals -/

/-- Nothing but removals separates the entries of the two caches. -/
structure Pruned (c c' : DedupCache) : Prop where
  window : c'.window = c.window
  max : c'.max = c.max
  entry : ∀ k, c'.entries.lookup k = c.entries.lookup k ∨ c'.entries.lookup k = none

/-- A sweep at `now` removes only entries that were idle for more than the window, and
    of these only resolved ones and ones past the replay time that nothing keeps open. -/
structure Swept (now : Int) (isOpen : EventKey → Bool) (c c' : DedupCache) : Prop
    extends Pruned c c' where
  removed : ∀ {k e}, c.entries.lookup k = some e → c'.entries.lookup k = none →
    since now e.lastSeen > c.window ∧
      (e.resolved = true ∨ (since now e.lastSeen > c.replayTTL ∧
        ¬(e.sessionClass = true ∧ e.sessionID ≠ [] ∧ e.incident ≠ none ∧ isOpen k = true)))

theorem Pruned.refl (c : DedupCache) : Pruned c c := ⟨rfl, rfl, fun _ => Or.inl rfl⟩

variable {c₁ c₂ c₃ : DedupCache} {r : DedupEntry}

theorem Pruned.trans (h : Pruned c₁ c₂) (h' : Pruned c₂ c₃) : Pruned c₁ c₃ := by
  refine ⟨h'.window.trans h.window, h'.max.trans h.max, fun k => ?_⟩
  rcases h'.entry k with hkept | hgone
  · rw [hkept]
    exact h.entry k
  · exact Or.inr hgone

/-- What is left was there before. -/
theorem Pruned.lookup (h : Pruned c c') {e : DedupEntry} (he : c'.entries.lookup k = some e) :
    c.entries.lookup k = some e := by
  rcases h.entry k with hkept | hgone
  · rw [← hkept, he]
  · rw [hgone] at he
    cases he

theorem Pruned.replayTTL (h : Pruned c c') : c'.replayTTL = c.replayTTL := by
  rw [DedupCache.replayTTL, h.window, DedupCache.replayTTL]

theorem Swept.refl (now : Int) (isOpen : EventKey → Bool) (c : DedupCache) : Swept now isOpen c c :=
  ⟨Pruned.refl c, fun he hnone => absurd hnone (by rw [he]; exact Option.some_ne_none _)⟩

theorem Swept.trans (h : Swept now isOpen c₁ c₂) (h' : Swept now isOpen c₂ c₃) :
    Swept now isOpen c₁ c₃ := by
  refine ⟨h.toPruned.trans h'.toPruned, fun {k e} he hnone => ?_⟩
  rcases h.entry k with hkept | hgone
  · rw [← h.window, ← h.replayTTL]
    exact h'.removed (hkept.trans he) hnone
  · exact h.removed he hgone

theorem pruned_erase (k : EventKey) (c : DedupCache) :
    Pruned c { c with entries := c.entries.erase k } := by
  refine ⟨rfl, rfl, fun k' => ?_⟩
  rw [Map.lookup_erase]
  split
  · exact Or.inr rfl
  · exact Or.inl rfl

theorem pruned_retire (o : Map.Walk EventKey) (k : EventKey) (e : DedupEntry) (c : DedupCache) :
    Pruned c (c.retire o k e) :=
  ⟨rfl, rfl, (pruned_erase k c).entry⟩

/-- Removing one entry for a reason the sweep has. -/
theorem swept_of_erase {e : DedupEntry} (he : c.entries.lookup k = some e) (hpruned : Pruned c c')
    (hentries : c'.entries = c.entries.erase k) (hidle : since now e.lastSeen > c.window)
    (hreason : e.resolved = true ∨ (since now e.lastSeen > c.replayTTL ∧
      ¬(e.sessionClass = true ∧ e.sessionID ≠ [] ∧ e.incident ≠ none ∧ isOpen k = true))) :
    Swept now isOpen c c' := by
  refine ⟨hpruned, fun {k' e'} he' hnone => ?_⟩
  rw [hentries, Map.lookup_erase] at hnone
  split at hnone
  · next hk =>
    subst hk
    rw [he] at he'
    cases he'
    exact ⟨hidle, hreason⟩
  · rw [he'] at hnone
    cases hnone

theorem isGroupOpen_of_isOpen (h : isOpen k = true) (e : DedupEntry) (c : DedupCache) :
    c.isGroupOpen isOpen k e = true := by
  rw [isGroupOpen, h, Bool.true_or]

/-- A bound session-class incident that is itself open is kept. -/
theorem keptOpen_of_isOpen {e : DedupEntry} (hclass : e.sessionClass = true)
    (hbound : e.sessionID ≠ []) (href : e.incident ≠ none) (h : isOpen k = true) (c : DedupCache) :
    c.keptOpen isOpen k e = true := by
  rw [keptOpen, decide_eq_true_iff]
  exact ⟨hclass, hbound, href, isGroupOpen_of_isOpen h e c⟩

theorem sweepOne_swept (now : Int) (isOpen : EventKey → Bool) (o : Map.Walk EventKey)
    (c : DedupCache) (k : EventKey) : Swept now isOpen c (c.sweepOne now isOpen o k) := by
  fun_cases sweepOne with
  | case3 e he age hidle hres =>
    exact swept_of_erase he (pruned_retire o k e c) rfl (not_le.1 hidle) (Or.inl hres)
  | case5 e he age hidle _ hkept hold =>
    refine swept_of_erase he (pruned_erase k c) rfl (not_le.1 hidle) (Or.inr ⟨hold, ?_⟩)
    rintro ⟨hclass, hbound, href, hopen⟩
    exact hkept (keptOpen_of_isOpen hclass hbound href hopen c)
  | _ => exact Swept.refl now isOpen c

theorem foldl_swept {f : DedupCache → EventKey → DedupCache}
    (hf : ∀ c k, Swept now isOpen c (f c k)) (ks : List EventKey) (c : DedupCache) :
    Swept now isOpen c (ks.foldl f c) := by
  induction ks generalizing c with
  | nil => exact Swept.refl now isOpen c
  | cons k ks ih => exact (hf c k).trans (ih (f c k))

section

variable (now) (isOpen)

theorem sweepExpired_swept (o : Loops) (c : DedupCache) :
    Swept now isOpen c (c.sweepExpired now isOpen o) := by
  have h : Swept now isOpen { c with lastSweep := now } _ :=
    foldl_swept (fun c k => sweepOne_swept now isOpen o.retire c k) (Map.walk o.sweep c.entries) _
  exact ⟨⟨h.window, h.max, h.entry⟩, h.removed⟩

theorem maybeSweep_swept (o : Loops) (c : DedupCache) :
    Swept now isOpen c (c.maybeSweep now isOpen o) := by
  unfold maybeSweep
  split
  · exact Swept.refl now isOpen c
  · exact sweepExpired_swept now isOpen o c

theorem evictIfFull_pruned (o : Loops) (c : DedupCache) :
    Pruned c (c.evictIfFull now isOpen o) := by
  have hsweep : Pruned c (c.sweepExpired now isOpen o) := (sweepExpired_swept now isOpen o c).toPruned
  fun_cases evictIfFull with
  | case1 => exact Pruned.refl c
  | case5 => exact hsweep.trans (pruned_retire _ _ _ _)
  | case6 => exact hsweep.trans (pruned_erase _ _)
  | _ => exact hsweep

theorem bindingsOne_swept (o : Map.Walk EventKey) (acc : DedupCache × List BoundIncident)
    (k : EventKey) : Swept now isOpen acc.1 (bindingsOne now o acc k).1 := by
  fun_cases bindingsOne with
  | case2 e he hres =>
    dsimp only
    split
    next hidle => exact swept_of_erase he (pruned_retire o k e _) rfl hidle (Or.inl hres)
    next => exact Swept.refl now isOpen _
  | _ => exact Swept.refl now isOpen _

theorem bindings_swept (o : Loops) (c : DedupCache) : Swept now isOpen c (c.bindings now o).1 := by
  refine List.foldlRecOn (motive := fun acc : DedupCache × List BoundIncident =>
    Swept now isOpen c acc.1) _ _ (Swept.refl now isOpen c) fun acc h k _ => ?_
  exact h.trans (bindingsOne_swept now isOpen o.retire acc k)

end

/-! ## Paths of an observation -/

theorem climb_lookup {n : Nat} {e : DedupEntry} (he : c.entries.lookup key = some e)
    (h : c.climb n key e = (rk, r)) : c.entries.lookup rk = some r := by
  fun_induction climb c n key e with
  | case4 key e n p hp e' he' ih => exact ih he' h
  | _ =>
    cases h
    exact he

theorem resolveParent_lookup {e : DedupEntry} (h : c.resolveParent e = some (rk, r)) :
    c.entries.lookup rk = some r := by
  obtain ⟨key, -, hmap⟩ := Option.bind_eq_some_iff.1 h
  obtain ⟨e', he', hclimb⟩ := Option.map_eq_some_iff.1 hmap
  exact climb_lookup he' hclimb

/-- A root that takes over is in the cache, and speaks into the entry's own session. -/
theorem delegate_root {e : DedupEntry} (h : c.delegate isOpen e = some (rk, root)) :
    c.entries.lookup rk = some root ∧ root.storm = [] ∧ root.resolved = false ∧
      root.sessionID ≠ [] ∧ root.sessionID = e.sessionID ∧
      c.isGroupOpen isOpen rk root = true := by
  obtain ⟨hroot, htest⟩ := Option.filter_eq_some_iff.1 h
  exact ⟨resolveParent_lookup hroot, of_decide_eq_true htest⟩

/-- The paths of an observation, after its sweep, with the cache and the answer each of
    them ends in. A root that is the observed key's own entry is read after the entry
    took note. -/
inductive Observed (now : Int) (isOpen : EventKey → Bool) (o : Loops) (key : EventKey)
    (obs : Observation) (c : DedupCache) : DedupCache → DedupResult → Prop where
  | buried {tomb} (hnone : c.entries.lookup key = none) (htomb : c.tombstones.lookup key = some tomb)
      (hts : obs.lastTS ≤ tomb.eventLastTS) :
      Observed now isOpen o key obs c c { kind := .duplicate, count := 1, replay := true }
  | opened {tombstones}
      (htombstones : tombstones =
        if c.entries.lookup key = none then c.tombstones.erase key else c.tombstones)
      (hlapsed : ∀ e, c.entries.lookup key = some e → e.eventLastTS < obs.lastTS ∧
        since now e.lastSeen > c.window ∧
        (obs.repeatable = true → e.resolved = true ∨ c.keptOpen isOpen key e = false))
      (hfirst : ∀ tomb, c.entries.lookup key = none → c.tombstones.lookup key = some tomb →
        tomb.eventLastTS < obs.lastTS) :
      Observed now isOpen o key obs c
        (({ c with tombstones := tombstones }).openIncident now isOpen o key obs).1
        { kind := .newIncident, count := 1 }
  | replayed {e} (he : c.entries.lookup key = some e) (hts : obs.lastTS ≤ e.eventLastTS) :
      Observed now isOpen o key obs c
        { c with entries := c.entries.insert key { e with count := e.count + 1 } }
        (({ e with count := e.count + 1 } : DedupEntry).duplicateResult false)
  | repeated {e lapsed} (he : c.entries.lookup key = some e) (hts : e.eventLastTS < obs.lastTS)
      (hown : c.delegate isOpen e = none) (hres : e.resolved = false)
      (hkept : c.keptOpen isOpen key e = true) (hrep : obs.repeatable = true) :
      Observed now isOpen o key obs c
        { c with entries :=
            c.entries.insert key (e.repeat c.window now obs.lastTS obs.class lapsed).1 }
        (e.repeat c.window now obs.lastTS obs.class lapsed).2
  | noted {e e' absorbed} (he : c.entries.lookup key = some e) (hts : e.eventLastTS < obs.lastTS)
      (hquiet : obs.repeatable = true → c.delegate isOpen e = none ∧
        (e.resolved = true ∨ c.keptOpen isOpen key e = false))
      (hnoted : Noted now obs.lastTS e e') :
      Observed now isOpen o key obs c { c with entries := c.entries.insert key e' }
        (e'.duplicateResult absorbed)
  | rootRepeated {e rk root root₀ lapsed} (he : c.entries.lookup key = some e)
      (hts : e.eventLastTS < obs.lastTS) (hdel : c.delegate isOpen e = some (rk, root))
      (hroot : root₀ = if rk = key then touch now obs.lastTS e else root)
      (hrep : obs.repeatable = true) (hdue : c.due now root₀ = true) :
      Observed now isOpen o key obs c
        { c with entries := (c.entries.insert key (touch now obs.lastTS e)).insert rk
                   (root₀.repeat c.window now obs.lastTS obs.class lapsed).1 }
        (root₀.repeat c.window now obs.lastTS obs.class lapsed).2
  | rootNoted {e rk root root₀ root' absorbed} (he : c.entries.lookup key = some e)
      (hts : e.eventLastTS < obs.lastTS) (hdel : c.delegate isOpen e = some (rk, root))
      (hroot : root₀ = if rk = key then touch now obs.lastTS e else root)
      (hquiet : obs.repeatable = true → c.due now root₀ = false)
      (hnoted : Noted now obs.lastTS root₀ root') :
      Observed now isOpen o key obs c
        { c with entries := (c.entries.insert key (touch now obs.lastTS e)).insert rk root' }
        (root'.duplicateResult absorbed)

section Paths

variable {o : Loops} {e : DedupEntry}

/-- The paths on the key's own entry, for an entry that is read as it is. -/
theorem observeOwn_observed (he : c.entries.lookup key = some e) (hts : e.eventLastTS < obs.lastTS)
    (hown : c.delegate isOpen e = none) :
    Observed now isOpen o key obs c (c.observeOwn now isOpen o key e obs).1
      (c.observeOwn now isOpen o key e obs).2 := by
  have hquiet (h : ¬((decide (e.resolved = false ∧ c.keptOpen isOpen key e = true)) = true ∧
      obs.repeatable = true)) (hrep : obs.repeatable = true) :
      e.resolved = true ∨ c.keptOpen isOpen key e = false := by
    rw [decide_eq_true_iff, not_and_or, not_and_or, Bool.not_eq_false, Bool.not_eq_true] at h
    exact h.resolve_right (fun hnot => hnot hrep)
  unfold observeOwn
  dsimp only
  split
  · next h =>
    obtain ⟨hopen, hrep⟩ := h
    obtain ⟨hres, hkept⟩ := of_decide_eq_true hopen
    exact .repeated he hts hown hres hkept hrep
  · next hnot =>
    split
    · exact .noted he hts (fun hrep => ⟨hown, hquiet hnot hrep⟩) (touch_noted now obs.lastTS e)
    · split
      · next hlapsed =>
        refine .opened (if_neg ?_).symm (fun e' he' => ?_) fun tomb hnone => ?_
        · rw [he]
          exact Option.some_ne_none e
        · rw [he] at he'
          cases he'
          exact ⟨hts, of_decide_eq_true hlapsed, hquiet hnot⟩
        · rw [he] at hnone
          cases hnone
      · exact .noted he hts (fun hrep => ⟨hown, hquiet hnot hrep⟩)
          ((touch_noted now obs.lastTS e).showClass c.window obs.class)

theorem since_self_le_window (now : Int) (c : DedupCache) : ¬since now now > c.window := by
  rw [since_self, not_lt]
  exact c.window_pos.le

/-- The paths on the key's own entry after its root had nothing to say. The entry took
    note already, so it cannot have lapsed. -/
theorem observeOwn_touched (he : c.entries.lookup key = some e) (hts : e.eventLastTS < obs.lastTS)
    (hrep : obs.repeatable = false) (c' : DedupCache)
    (hc' : c' = { c with entries := c.entries.insert key (touch now obs.lastTS e) }) :
    Observed now isOpen o key obs c (c'.observeOwn now isOpen o key (touch now obs.lastTS e) obs).1
      (c'.observeOwn now isOpen o key (touch now obs.lastTS e) obs).2 := by
  have hquiet {p : Prop} (h : obs.repeatable = true) : p := by
    rw [hrep] at h
    cases h
  have hagain (e' : DedupEntry) : (c.entries.insert key (touch now obs.lastTS e)).insert key e' =
      c.entries.insert key e' := Finmap.insert_insert _
  have hnote := touch_noted now obs.lastTS e
  subst hc'
  unfold observeOwn
  dsimp only
  split
  · next h => exact hquiet h.2
  · split
    · rw [hagain]
      exact .noted he hts hquiet (hnote.trans (touch_noted now obs.lastTS _))
    · split
      · next hlapsed => exact absurd (of_decide_eq_true hlapsed) (since_self_le_window now c)
      · rw [hagain]
        exact .noted he hts hquiet
          ((hnote.trans (touch_noted now obs.lastTS _)).showClass c.window obs.class)

theorem observeFresh_observed (he : c.entries.lookup key = some e)
    (hts : e.eventLastTS < obs.lastTS) :
    Observed now isOpen o key obs c (c.observeFresh now isOpen o key e obs).1
      (c.observeFresh now isOpen o key e obs).2 := by
  unfold observeFresh
  cases hdel : c.delegate isOpen e with
  | none => exact observeOwn_observed he hts hdel
  | some p =>
    obtain ⟨rk, root⟩ := p
    dsimp only
    generalize hroot : (if rk = key then touch now obs.lastTS e else root) = root₀
    cases hchild : observeChild now rk root₀ obs _ with
    | none =>
      refine observeOwn_touched he hts ?_ _ rfl
      unfold observeChild at hchild
      split at hchild
      · split at hchild <;> cases hchild
      · next hrep => exact eq_false_of_ne_true hrep
    | some answer =>
      unfold observeChild at hchild
      split at hchild
      · next hrep =>
        split at hchild
        · next hdue =>
          cases hchild
          exact .rootRepeated he hts hdel hroot.symm hrep hdue
        · next hnot =>
          cases hchild
          exact .rootNoted he hts hdel hroot.symm (fun _ => eq_false_of_ne_true hnot)
            ((absorb_noted now obs.lastTS root₀).showClass c.window obs.class)
      · next hrep =>
        split at hchild
        · cases hchild
          exact .rootNoted he hts hdel hroot.symm (fun h => absurd h hrep)
            (absorb_noted now obs.lastTS root₀)
        · cases hchild

/-- An observation sweeps and takes one of the paths. -/
theorem observeSignal_observed (now : Int) (isOpen : EventKey → Bool) (o : Loops) (key : EventKey)
    (obs : Observation) (c : DedupCache) :
    Observed now isOpen o key.canonical obs (c.maybeSweep now isOpen o)
      (c.observeSignal now isOpen o key obs).1 (c.observeSignal now isOpen o key obs).2 := by
  unfold observeSignal
  dsimp only
  generalize c.maybeSweep now isOpen o = c
  cases he : c.entries.lookup key.canonical with
  | none =>
    have hnot (e : DedupEntry) (h : c.entries.lookup key.canonical = some e) : False := by
      rw [he] at h
      cases h
    cases htomb : c.tombstones.lookup key.canonical with
    | none =>
      refine .opened ?_ (fun e h => (hnot e h).elim) fun tomb _ h => ?_
      · rw [if_pos he, Map.erase_of_lookup_none htomb]
      · rw [htomb] at h
        cases h
    | some tomb =>
      dsimp only
      split
      · next hts => exact .buried he htomb hts
      · next hts =>
        refine .opened (if_pos he).symm (fun e h => (hnot e h).elim) fun tomb' _ h => ?_
        rw [htomb] at h
        cases h
        exact not_le.1 hts
  | some e =>
    dsimp only
    split
    · next hts => exact .replayed he hts
    · next hts => exact observeFresh_observed he (not_le.1 hts)

end Paths

/-- The entry that a fresh observation of `key` is decided on: its own, or that of the
    root it is handed over to. Its own takes note of the occurrence in both cases. -/
def DecidedOn (isOpen : EventKey → Bool) (key : EventKey) (obs : Observation) (c : DedupCache)
    (k : EventKey) : Prop :=
  ∃ x, c.entries.lookup key = some x ∧ x.eventLastTS < obs.lastTS ∧
    (k = key ∨ ∃ root, c.delegate isOpen x = some (k, root))

/-- What an observation of `key`, past its sweep, can make of an entry that was there. -/
inductive Became (now : Int) (isOpen : EventKey → Bool) (key : EventKey) (obs : Observation)
    (c : DedupCache) (result : DedupResult) (k : EventKey) : DedupEntry → DedupEntry → Prop where
  | kept {e} (hk : k ≠ key) : Became now isOpen key obs c result k e e
  | counted {e} (hk : k = key) (hts : obs.lastTS ≤ e.eventLastTS) :
      Became now isOpen key obs c result k e { e with count := e.count + 1 }
  | noted {e e'} (hnoted : Noted now obs.lastTS e e') (hon : DecidedOn isOpen key obs c k) :
      Became now isOpen key obs c result k e e'
  | repeated {e e₀ e' lapsed} (he₀ : e₀ = e ∨ e₀ = touch now obs.lastTS e)
      (hon : DecidedOn isOpen key obs c k) (hrep : obs.repeatable = true)
      (hrepeat : (e', result) = e₀.repeat c.window now obs.lastTS obs.class lapsed) :
      Became now isOpen key obs c result k e e'

section Became

variable {o : Loops} {result : DedupResult} {e : DedupEntry}

theorem Became.core (h : Became now isOpen key obs c result k e e') : e'.core = e.core := by
  cases h with
  | kept => rfl
  | counted => rfl
  | noted hnoted => exact hnoted.core
  | @repeated e₀ _ lapsed he₀ _ _ hrepeat =>
    have hcore := (repeat_core c.window now obs.lastTS obs.class lapsed e₀).1
    rw [← hrepeat] at hcore
    rcases he₀ with rfl | rfl
    · exact hcore
    · exact hcore.trans (touch_noted now obs.lastTS e).core

/-- The entry of the key, when it becomes `x'`. -/
theorem became_of_own {x' : DedupEntry} (hx : c.entries.lookup key = some x)
    (hx' : k = key → Became now isOpen key obs c result k x x')
    (he' : (c.entries.insert key x').lookup k = some e') :
    ∃ e, c.entries.lookup k = some e ∧ Became now isOpen key obs c result k e e' := by
  rcases Map.of_lookup_insert he' with ⟨hk, rfl⟩ | ⟨hk, he'⟩
  · exact ⟨x, hk ▸ hx, hx' hk⟩
  · exact ⟨e', he', .kept hk⟩

/-- The root and the entry that was handed over to it, when the root becomes `root'`. -/
theorem became_of_root {root₀ root' : DedupEntry} (hx : c.entries.lookup key = some x)
    (hts : x.eventLastTS < obs.lastTS) (hdel : c.delegate isOpen x = some (rk, root))
    (hroot : root₀ = if rk = key then touch now obs.lastTS x else root)
    (hroot' : ∀ r, r = root₀ ∨ root₀ = touch now obs.lastTS r → DecidedOn isOpen key obs c rk →
      Became now isOpen key obs c result rk r root')
    (he' : ((c.entries.insert key (touch now obs.lastTS x)).insert rk root').lookup k = some e') :
    ∃ e, c.entries.lookup k = some e ∧ Became now isOpen key obs c result k e e' := by
  have hon : DecidedOn isOpen key obs c rk := ⟨x, hx, hts, Or.inr ⟨root, hdel⟩⟩
  rcases Map.of_lookup_insert he' with ⟨rfl, rfl⟩ | ⟨-, he'⟩
  · split at hroot
    · next hself => exact ⟨x, hself ▸ hx, hroot' x (Or.inr hroot) hon⟩
    · exact ⟨root, (delegate_root hdel).1, hroot' root (Or.inl hroot.symm) hon⟩
  · exact became_of_own hx
      (fun hk => .noted (touch_noted now obs.lastTS x) ⟨x, hx, hts, Or.inl hk⟩) he'

section

variable (h : Observed now isOpen o key obs c c' result)

include h

theorem Observed.window : c'.window = c.window := by
  cases h with
  | @opened tombstones =>
    exact (evictIfFull_pruned now isOpen o { c with tombstones := tombstones }).window
  | _ => rfl

/-- A new incident is filed under its key, and the answer carries nothing but the count. -/
theorem Observed.of_new (hnew : result.kind = .newIncident) :
    c'.entries.lookup key = some (newEntry now obs) ∧
      result = { kind := .newIncident, count := 1 } := by
  cases h with
  | opened => exact ⟨Finmap.lookup_insert _, rfl⟩
  | repeated | rootRepeated => exact absurd hnew (repeat_core _ _ _ _ _ _).2.2.2.1
  | _ => cases hnew

/-- An entry of the cache after the observation is a new incident of the key, or what
    became of an entry that was there. -/
theorem Observed.became (he' : c'.entries.lookup k = some e') :
    (k = key ∧ result.kind = .newIncident ∧ e' = newEntry now obs) ∨
      ∃ e, c.entries.lookup k = some e ∧ Became now isOpen key obs c result k e e' := by
  cases h with
  | buried hnone =>
    refine Or.inr ⟨e', he', .kept ?_⟩
    rintro rfl
    rw [hnone] at he'
    cases he'
  | @opened tombstones =>
    have hpruned := evictIfFull_pruned now isOpen o { c with tombstones := tombstones }
    rcases Map.of_lookup_insert he' with ⟨hk, rfl⟩ | ⟨hk, he'⟩
    · exact Or.inl ⟨hk, rfl, rfl⟩
    · exact Or.inr ⟨e', hpruned.lookup he', .kept hk⟩
  | replayed he hts => exact Or.inr (became_of_own he (fun hk => .counted hk hts) he')
  | repeated he hts _ _ _ hrep =>
    exact Or.inr (became_of_own he
      (fun hk => .repeated (Or.inl rfl) ⟨_, he, hts, Or.inl hk⟩ hrep rfl) he')
  | noted he hts _ hnoted =>
    exact Or.inr (became_of_own he (fun hk => .noted hnoted ⟨_, he, hts, Or.inl hk⟩) he')
  | rootRepeated he hts hdel hroot hrep =>
    refine Or.inr (became_of_root he hts hdel hroot (fun r hr hon => ?_) he')
    exact .repeated (hr.imp Eq.symm id) hon hrep rfl
  | rootNoted he hts hdel hroot _ hnoted =>
    refine Or.inr (became_of_root he hts hdel hroot (fun r hr hon => ?_) he')
    rcases hr with rfl | rfl
    · exact .noted hnoted hon
    · exact .noted ((touch_noted now obs.lastTS r).trans hnoted) hon

end

end Became

/-! ## Steps -/

theorem lookup_update (key k : EventKey) (f : DedupEntry → DedupEntry) (c : DedupCache) :
    (c.update key f).entries.lookup k =
      if k = key then (c.entries.lookup k).map f else c.entries.lookup k := by
  unfold update
  cases he : c.entries.lookup key with
  | none =>
    dsimp only
    split
    · next hk => rw [hk, he, Option.map_none]
    · rfl
  | some e =>
    rw [Map.lookup_insert]
    split
    · next hk => rw [hk, he, Option.map_some]
    · rfl

end DedupCache

/-- A call of the cache, with the clock it reads and the loop orders it takes. -/
inductive DedupStep where
  | observeSignal (now : Int) (isOpen : EventKey → Bool) (o : Loops) (key : EventKey)
      (obs : Observation)
  | markUndelivered (key : EventKey) (change : RepeatChange)
  | unbind (now : Int) (key : EventKey)
  | markResolved (key : EventKey)
  | bindSession (key : EventKey) (sessionID : GoString)
  | bindIncident (key : EventKey) (sessionID : GoString) (ref : IncidentRef)
  | attachToStorm (key : EventKey) (sessionID stormFingerprint : GoString) (ref : IncidentRef)
  | noteIncidentKind (key : EventKey) (kind : GoString)
  | noteAncestors (key : EventKey) (keys : List GoString)
  | sessionForAncestors (o : Map.Walk EventKey) (self : EventKey) (candidates : List GoString)
      (family : GoString)
  | sessionForSibling (now : Int) (o : Map.Walk EventKey) (self : EventKey) (kind : GoString)
      (candidates : List GoString)
  | crossSourceJoin (key : EventKey) (kind : GoString)
  | bindings (now : Int) (o : Loops)
  | sweep (now : Int) (isOpen : EventKey → Bool) (o : Loops)

variable {s : DedupStep}

namespace DedupCache

def step (c : DedupCache) : DedupStep → DedupCache
  | .observeSignal now isOpen o key obs => (c.observeSignal now isOpen o key obs).1
  | .markUndelivered key change => c.markUndelivered key change
  | .unbind now key => c.unbind now key
  | .markResolved key => c.markResolved key
  | .bindSession key sessionID => c.bindSession key sessionID
  | .bindIncident key sessionID ref => c.bindIncident key sessionID ref
  | .attachToStorm key sessionID fp ref => c.attachToStorm key sessionID fp ref
  | .noteIncidentKind key kind => c.noteIncidentKind key kind
  | .noteAncestors key keys => c.noteAncestors key keys
  | .sessionForAncestors o self candidates family =>
    (c.sessionForAncestors o self candidates family).1
  | .sessionForSibling now o self kind candidates =>
    (c.sessionForSibling now o self kind candidates).1
  | .crossSourceJoin key kind => (c.crossSourceJoin key kind).1
  | .bindings now o => (c.bindings now o).1
  | .sweep now isOpen o => c.sweepExpired now isOpen o

def run (c : DedupCache) (steps : List DedupStep) : DedupCache := steps.foldl step c

/-- The calls that neither observe nor sweep: each of them marks an entry or two. -/
def Marks : DedupStep → Prop
  | .observeSignal .. | .bindings .. | .sweep .. => False
  | _ => True

/-- What a marking call can make of the entry of a key. -/
inductive Marked (c : DedupCache) : DedupStep → EventKey → DedupEntry → DedupEntry → Prop where
  | kept (s k e) : Marked c s k e e
  | undelivered (key change e) :
      Marked c (.markUndelivered key change) key.canonical e (e.markUndelivered change)
  | unbound (now key e) : Marked c (.unbind now key) key.canonical e (e.unbind now)
  | resolved (key e) : Marked c (.markResolved key) key.canonical e e.markResolved
  | session (key sessionID e) :
      Marked c (.bindSession key sessionID) key.canonical e (e.bindSession sessionID)
  | incident (key sessionID ref parentSession e) : Marked c (.bindIncident key sessionID ref)
      key.canonical e (e.bindIncident sessionID ref parentSession)
  | storm (key sessionID fp ref e) : Marked c (.attachToStorm key sessionID fp ref) key.canonical e
      (e.attachToStorm sessionID fp ref)
  | kind (key kind e) : Marked c (.noteIncidentKind key kind) key.canonical e (e.noteIncidentKind kind)
  | ancestors (key keys e) : Marked c (.noteAncestors key keys) key.canonical e (e.noteAncestors keys)
  | family (o self candidates family k e) :
      Marked c (.sessionForAncestors o self candidates family) k e (e.addFamily family)
  | joined (key kind e) :
      Marked c (.crossSourceJoin key kind) key.canonical e (e.addFamily (sourceFamily kind))
  | folded (now o self kind candidates e) {cand k best}
      (hsib : c.sibling now o self.canonical kind candidates = some (cand, k, best))
      (hroot : best.parent.getD k ≠ self.canonical) :
      Marked c (.sessionForSibling now o self kind candidates) self.canonical e
        (e.foldOnto (best.parent.getD k))
  | counted (now o self kind candidates e) {cand k best}
      (hsib : c.sibling now o self.canonical kind candidates = some (cand, k, best))
      (hroot : best.parent.getD k ≠ self.canonical) :
      Marked c (.sessionForSibling now o self kind candidates) (best.parent.getD k) e e.countFold
  | foldedBack (now o self kind candidates e) {cand k best}
      (hsib : c.sibling now o self.canonical kind candidates = some (cand, k, best))
      (hroot : best.parent.getD k = self.canonical) :
      Marked c (.sessionForSibling now o self kind candidates) self.canonical e
        (e.foldOnto self.canonical).countFold

/-- The tombstones stay, and every entry is marked. -/
structure MarkedBy (c : DedupCache) (s : DedupStep) (c' : DedupCache) : Prop where
  tombstones : c'.tombstones = c.tombstones
  window : c'.window = c.window
  absent : ∀ {k}, c.entries.lookup k = none → c'.entries.lookup k = none
  present : ∀ {k e}, c.entries.lookup k = some e → ∃ e', c'.entries.lookup k = some e' ∧
    Marked c s k e e'

theorem MarkedBy.refl (c : DedupCache) (s : DedupStep) : MarkedBy c s c :=
  ⟨rfl, rfl, id, fun {k e} he => ⟨e, he, .kept s k e⟩⟩

theorem markedBy_update {f : DedupEntry → DedupEntry} (hf : ∀ e, Marked c s key e (f e)) :
    MarkedBy c s (c.update key f) := by
  refine ⟨?_, ?_, fun {k} hnone => ?_, fun {k e} he => ?_⟩
  · unfold update
    split <;> rfl
  · unfold update
    split <;> rfl
  · rw [lookup_update, hnone, Option.map_none, ite_self]
  · rw [lookup_update, he]
    split
    · next hk => exact ⟨f e, rfl, hk ▸ hf e⟩
    · exact ⟨e, rfl, .kept s k e⟩

/-- The state a fold leaves. -/
theorem sessionForSibling_eq {o : Map.Walk EventKey} {self : EventKey} {kind cand : GoString}
    {candidates : List GoString} {best : DedupEntry}
    (h : c.sibling now o self.canonical kind candidates = some (cand, k, best)) :
    (c.sessionForSibling now o self kind candidates).1 =
      (c.update self.canonical (·.foldOnto (best.parent.getD k))).update (best.parent.getD k)
        (·.countFold) := by
  unfold sessionForSibling
  rw [h]

theorem sessionForSibling_markedBy (now : Int) (o : Map.Walk EventKey) (self : EventKey)
    (kind : GoString) (candidates : List GoString) (c : DedupCache) :
    MarkedBy c (.sessionForSibling now o self kind candidates)
      (c.sessionForSibling now o self kind candidates).1 := by
  cases hsib : c.sibling now o self.canonical kind candidates with
  | none =>
    rw [sessionForSibling, hsib]
    exact MarkedBy.refl c _
  | some found =>
    obtain ⟨cand, k, best⟩ := found
    rw [sessionForSibling_eq hsib]
    generalize hroot : best.parent.getD k = root
    have hat (k' : EventKey) := lookup_update root k' (·.countFold)
      (c.update self.canonical (·.foldOnto root))
    have hat' (k' : EventKey) := lookup_update self.canonical k' (·.foldOnto root) c
    refine ⟨?_, ?_, fun {k'} hnone => ?_, fun {k' e} he => ?_⟩
    · unfold update
      split <;> split <;> rfl
    · unfold update
      split <;> split <;> rfl
    · rw [hat, hat', hnone, Option.map_none, ite_self, Option.map_none, ite_self]
    · rw [hat, hat', he]
      by_cases hself : k' = self.canonical
      · subst hself
        by_cases hback : root = self.canonical
        · rw [if_pos rfl, if_pos hback.symm]
          refine ⟨_, rfl, ?_⟩
          subst hback
          exact .foldedBack now o self kind candidates e hsib hroot
        · rw [if_pos rfl, if_neg (Ne.symm hback)]
          refine ⟨_, rfl, ?_⟩
          subst hroot
          exact .folded now o self kind candidates e hsib hback
      · rw [if_neg hself]
        split
        · next hk =>
          refine ⟨_, rfl, ?_⟩
          subst hk
          subst hroot
          exact .counted now o self kind candidates e hsib hself
        · exact ⟨e, rfl, .kept _ k' e⟩

theorem step_markedBy (c : DedupCache) (hs : Marks s) : MarkedBy c s (c.step s) := by
  cases s with
  | observeSignal | bindings | sweep => exact hs.elim
  | markUndelivered key change => exact markedBy_update (.undelivered key change)
  | unbind now key => exact markedBy_update (.unbound now key)
  | markResolved key => exact markedBy_update (.resolved key)
  | bindSession key sessionID => exact markedBy_update (.session key sessionID)
  | bindIncident key sessionID ref => exact markedBy_update fun e => .incident key sessionID ref _ e
  | attachToStorm key sessionID fp ref => exact markedBy_update (.storm key sessionID fp ref)
  | noteIncidentKind key kind => exact markedBy_update (.kind key kind)
  | noteAncestors key keys =>
    change MarkedBy c _ (if keys = [] then c else _)
    split
    · exact MarkedBy.refl c _
    · exact markedBy_update (.ancestors key keys)
  | sessionForAncestors o self candidates family =>
    change MarkedBy c _ (c.sessionForAncestors o self candidates family).1
    fun_cases sessionForAncestors with
    | case4 => exact markedBy_update (.family o self candidates family _)
    | _ => exact MarkedBy.refl c _
  | sessionForSibling now o self kind candidates =>
    exact sessionForSibling_markedBy now o self kind candidates c
  | crossSourceJoin key kind =>
    change MarkedBy c _ (c.crossSourceJoin key kind).1
    fun_cases crossSourceJoin with
    | case3 => exact markedBy_update (.joined key kind)
    | _ => exact MarkedBy.refl c _

/-- What is there after a marking call was there before. -/
theorem MarkedBy.before (h : MarkedBy c s c') (he' : c'.entries.lookup k = some e') :
    ∃ e, c.entries.lookup k = some e ∧ Marked c s k e e' := by
  cases he : c.entries.lookup k with
  | none =>
    rw [h.absent he] at he'
    cases he'
  | some e =>
    obtain ⟨e₁, he₁, hmark⟩ := h.present he
    rw [he'] at he₁
    cases he₁
    exact ⟨e, rfl, hmark⟩

/-- What a call can leave under a key: a new incident, or what an observation or a mark
    made of the entry that was there. -/
inductive Stepped (c : DedupCache) : DedupStep → EventKey → DedupEntry → Prop where
  | opened {now isOpen o key obs}
      (hnew : (c.observeSignal now isOpen o key obs).2.kind = .newIncident) :
      Stepped c (.observeSignal now isOpen o key obs) key.canonical (newEntry now obs)
  | observed {now isOpen o key obs k e e'} (he : c.entries.lookup k = some e)
      (hbecame : Became now isOpen key.canonical obs (c.maybeSweep now isOpen o)
        (c.observeSignal now isOpen o key obs).2 k e e') :
      Stepped c (.observeSignal now isOpen o key obs) k e'
  | marked {s k e e'} (he : c.entries.lookup k = some e) (hmarked : Marked c s k e e') :
      Stepped c s k e'

theorem step_stepped (he' : (c.step s).entries.lookup k = some e') : Stepped c s k e' := by
  have hkept (h : Pruned c (c.step s)) : Stepped c s k e' := .marked (h.lookup he') (.kept s k e')
  have hmark (hmarks : Marks s) : Stepped c s k e' := by
    obtain ⟨e, he, hmarked⟩ := (step_markedBy c hmarks).before he'
    exact .marked he hmarked
  cases s with
  | observeSignal now isOpen o key obs =>
    rcases (observeSignal_observed now isOpen o key obs c).became he' with
      ⟨rfl, hnew, rfl⟩ | ⟨e, he, hbecame⟩
    · exact .opened hnew
    · exact .observed ((maybeSweep_swept now isOpen o c).lookup he) hbecame
  | bindings now o => exact hkept (bindings_swept now (fun _ => false) o c).toPruned
  | sweep now isOpen o => exact hkept (sweepExpired_swept now isOpen o c).toPruned
  | _ => exact hmark trivial

end DedupCache

end Lookout.Engine
