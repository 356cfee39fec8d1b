-- SUMMARY: The repeat schedule over runs: how far apart a group's repeats are, and what becomes of an inject that failed.
import Lookout.Engine.DedupRuns

/-!
# The repeat schedule over runs

A sibling group speaks into one session. While every member hands its occurrences over
to the root, the repeats of the session follow the root's schedule. An inject that did
not arrive is sent again by the next occurrence that is decided on the same entry.
-/

namespace Lookout.Engine

open DedupEntry

variable {s : DedupStep} {last lastTS limit now : Int} {n : Nat} {e e' : DedupEntry}
  {class_ : UInt64} {lapsed : Bool} {result : DedupResult} {c : DedupCache}
  {isOpen : EventKey → Bool} {o : Loops} {k key : EventKey} {obs : Observation}
  {steps : List DedupStep}

/-! ## Intervals -/

variable {d window : Int}

theorem wrap64_of_lt (hd : 0 ≤ d) (hlt : d < 2 ^ 63) : wrap64 d = d := by
  unfold wrap64
  omega

/-- Doubling below a limit that leaves room never overflows, so it never goes down. -/
theorem le_doubleUpTo (hlimit : limit ≤ 2 ^ 62) (n : Nat) (hd : 0 < d) :
    d ≤ doubleUpTo limit n d := by
  induction n generalizing d with
  | zero => exact le_rfl
  | succ n ih =>
    rw [doubleUpTo]
    split
    · rw [wrap64_of_lt (by omega) (by omega)]
      have hnext := ih (d := 2 * d) (by omega)
      omega
    · exact le_rfl

theorem doubleUpTo_le_succ (hlimit : limit ≤ 2 ^ 62) (n : Nat) (hd : 0 < d) :
    doubleUpTo limit n d ≤ doubleUpTo limit (n + 1) d := by
  induction n generalizing d with
  | zero => exact le_doubleUpTo hlimit 1 hd
  | succ n ih =>
    rw [doubleUpTo, doubleUpTo]
    split
    · rw [wrap64_of_lt (by omega) (by omega)]
      exact ih (by omega)
    · exact le_rfl

/-- A window that is not below the cap is its own interval. -/
theorem doubleUpTo_of_le (h : limit ≤ d) (n : Nat) : doubleUpTo limit n d = d := by
  cases n with
  | zero => rfl
  | succ n => rw [doubleUpTo, if_neg (not_lt.2 h)]

theorem repeatInterval_le_succ (hw : 0 < window) (n : Nat) :
    repeatInterval window n ≤ repeatInterval window (n + 1) := by
  unfold repeatInterval
  refine min_le_min_right _ ?_
  rcases le_total repeatIntervalCap window with hlong | hshort
  · rw [max_eq_right hlong, doubleUpTo_of_le le_rfl, doubleUpTo_of_le le_rfl]
  · rw [max_eq_left hshort]
    cases n with
    | zero => exact le_rfl
    | succ n => exact doubleUpTo_le_succ (by decide) n hw

theorem repeatInterval_mono (hw : 0 < window) {m : Nat} (h : n ≤ m) :
    repeatInterval window n ≤ repeatInterval window m := by
  induction m, h using Nat.le_induction with
  | base => exact le_rfl
  | succ m _ ih => exact ih.trans (repeatInterval_le_succ hw m)

/-- No interval is shorter than the window. -/
theorem window_le_repeatInterval (hw : 0 < window) (n : Nat) :
    window ≤ repeatInterval window n := by
  unfold repeatInterval
  refine le_min ?_ (le_max_right _ _)
  rcases le_total repeatIntervalCap window with hlong | hshort
  · rw [max_eq_right hlong, doubleUpTo_of_le le_rfl]
  · rw [max_eq_left hshort]
    exact le_doubleUpTo (by decide) _ hw

/-! ## One decision -/

/-- The step the schedule of an entry is at. -/
def DedupEntry.atStep (e : DedupEntry) : Nat := max e.step e.repeatCount

/-- What `repeat` does on an entry whose last inject arrived, other than a rate jump: it
    injects once the interval has passed and takes a step, or it injects nothing. -/
theorem repeat_schedule (h : (e', result) = e.repeat window now lastTS class_ lapsed)
    (hzero : e.lastInjectAt ≠ 0) (hdelivered : e.undelivered = false)
    (hjump : result.change ≠ .rate) :
    e'.undelivered = false ∧
      ((result.kind = .repeated ∧
          since now e.lastInjectAt > repeatInterval window (e.atStep + 1) ∧
          e'.lastInjectAt = now ∧ e'.step = e.atStep + 1) ∨
        (result.kind = .duplicate ∧ e'.lastInjectAt = e.lastInjectAt ∧ e'.step = e.atStep)) := by
  have hadopt : e.adoptOpen = e := by rw [adoptOpen, if_neg hzero]
  have hnoted := noteOccurrence_noted window now lastTS class_ e
  rw [hadopt] at hnoted
  unfold DedupEntry.repeat at h
  generalize e.noteOccurrence window now lastTS class_ = x at h hnoted
  have hstep : max x.step x.repeatCount = e.atStep := by
    rw [hnoted.step, hnoted.repeatCount, atStep]
  have hund : x.undelivered = false := hnoted.undelivered.trans hdelivered
  have hlast := hnoted.lastInjectAt
  have hnot : ¬x.undelivered = true := by
    rw [hund]
    exact Bool.false_ne_true
  dsimp only at h
  rw [if_neg hnot, hstep] at h
  have hheld {x' : DedupEntry} {absorbed : Bool} {injects : Prop}
      (hx : (e', result) = ({ x with step := e.atStep }, duplicateResult absorbed x')) :
      e'.undelivered = false ∧ (injects ∨
        result.kind = .duplicate ∧ e'.lastInjectAt = e.lastInjectAt ∧ e'.step = e.atStep) := by
    cases hx
    exact ⟨hund, Or.inr ⟨rfl, hlast, rfl⟩⟩
  split at h
  · cases h
    exact absurd rfl hjump
  · split at h
    · split at h
      · next hdue =>
        cases h
        rw [hlast] at hdue
        exact ⟨hund, Or.inl ⟨rfl, hdue, rfl, rfl⟩⟩
      · exact hheld h
    · split at h
      · exact hheld h
      · split at h
        · exact hheld h
        · next hdue =>
          cases h
          rw [hlast] at hdue
          exact ⟨hund, Or.inl ⟨rfl, not_le.1 hdue, rfl, rfl⟩⟩

/-- What `repeat` does on an entry whose last inject did not arrive: it sends the inject
    again, or the class change that is pending since if it was a reminder. -/
theorem repeat_undelivered (window now lastTS : Int) (class_ : UInt64) (lapsed : Bool)
    (h : e.undelivered = true) :
    (e.repeat window now lastTS class_ lapsed).2.kind = .repeated ∧
      (e.repeat window now lastTS class_ lapsed).2.change =
        if e.lastChange = .none ∧ (e.noteOccurrence window now lastTS class_).pendingChange = true
        then .newClass else e.lastChange := by
  have hnoted := noteOccurrence_noted window now lastTS class_ e
  have hadopt : e.adoptOpen.undelivered = e.undelivered ∧
      e.adoptOpen.lastChange = e.lastChange := by
    unfold adoptOpen
    split <;> exact ⟨rfl, rfl⟩
  have hund : (e.noteOccurrence window now lastTS class_).undelivered = true := by
    rw [hnoted.undelivered, hadopt.1, h]
  have hchange : (e.noteOccurrence window now lastTS class_).lastChange = e.lastChange := by
    rw [hnoted.lastChange, hadopt.2]
  unfold DedupEntry.repeat
  rw [if_pos hund, resend]
  rw [hchange]
  split
  · exact ⟨rfl, rfl⟩
  · exact ⟨rfl, rfl⟩

namespace DedupCache

/-! ## The schedule of a group -/

/-- The time at which a call answers with a repeat for the session. -/
def announced (session : GoString) (c : DedupCache) : DedupStep → Option Int
  | .observeSignal now isOpen o key obs =>
    let result := (c.observeSignal now isOpen o key obs).2
    if result.kind = .repeated ∧ result.sessionID = session then some now else none
  | _ => none

/-- The times of the repeats for the session, in the order of the run. -/
def repeats (session : GoString) : DedupCache → List DedupStep → List Int
  | _, [] => []
  | c, s :: steps => (c.announced session s).toList ++ repeats session (c.step s) steps

/-- The injects at the listed times keep the distances of the schedule: the one after
    `n` others is more than the window and more than its interval after the last. -/
def Paced (window : Int) : Nat → Int → List Int → Prop
  | _, _, [] => True
  | n, last, t :: ts =>
    t - last > window ∧ t - last > repeatInterval window (n + 1) ∧ Paced window (n + 1) t ts

/-- The call restarts no schedule of the root: nothing is marked undelivered or unbound,
    the root's incident is not opened anew, and no rate jumps. -/
def Calm (root : EventKey) (c : DedupCache) : DedupStep → Prop
  | .observeSignal now isOpen o key obs =>
    let result := (c.observeSignal now isOpen o key obs).2
    result.change ≠ .rate ∧ (key.canonical = root → result.kind ≠ .newIncident)
  | .markUndelivered key _ => key.canonical ≠ root
  | .unbind _ key => key.canonical ≠ root
  | _ => True

/-- The observed entry is the root itself, or one that the root takes over. -/
def UnderRoot (isOpen : EventKey → Bool) (session : GoString) (root key : EventKey)
    (e : DedupEntry) (c : DedupCache) : Prop :=
  (c.entries.lookup root).any (fun r => r.parent = none ∧ (key = root ∨
    (e.parent = some root ∧ r.storm = [] ∧ r.resolved = false ∧ r.sessionID = session ∧
      c.isGroupOpen isOpen root r = true))) = true

theorem UnderRoot.root {session : GoString} {root : EventKey}
    (h : c.UnderRoot isOpen session root key e) :
    ∃ r, c.entries.lookup root = some r ∧ r.parent = none ∧ (key = root ∨
      (e.parent = some root ∧ r.storm = [] ∧ r.resolved = false ∧ r.sessionID = session ∧
        c.isGroupOpen isOpen root r = true)) := by
  rw [UnderRoot, Option.any_eq_true] at h
  obtain ⟨r, hr, htest⟩ := h
  exact ⟨r, hr, of_decide_eq_true htest⟩

/-- The condition under which a session has one schedule. A repeatable observation of an
    entry that is bound to the session finds, after its sweep, the root in the cache and
    not folded; the entry is the root's or is folded onto it, and the root is unresolved,
    not claimed by a storm, bound to the same session, and its group open. -/
def OnSchedule (session : GoString) (root : EventKey) (c : DedupCache) : DedupStep → Prop
  | .observeSignal now isOpen o key obs =>
    let c := c.maybeSweep now isOpen o
    obs.repeatable = true → ∀ e ∈ c.entries.lookup key.canonical, e.sessionID = session →
      c.UnderRoot isOpen session root key.canonical e
  | _ => True

/-- The root's entry is at least at step `n`, and its last inject arrived and is not
    before `last`. -/
structure AtLeast (n : Nat) (last : Int) (e : DedupEntry) : Prop where
  last_le : last ≤ e.lastInjectAt
  pos : 0 < e.lastInjectAt
  step : n ≤ e.atStep
  delivered : e.undelivered = false

theorem AtLeast.of_same (h : AtLeast n last e) (hsame : SameSchedule e e') : AtLeast n last e' := by
  obtain ⟨hlast, hcount, hstep, hund, -⟩ := hsame
  refine ⟨hlast ▸ h.last_le, hlast ▸ h.pos, ?_, hund.trans h.delivered⟩
  rw [atStep, hstep, hcount]
  exact h.step

/-- A decision on the root keeps its place on the schedule; an inject takes it one step
    further and is far enough from the last one. -/
theorem AtLeast.repeat (h : AtLeast n last e)
    (hrepeat : (e', result) = e.repeat c.window now lastTS class_ lapsed)
    (hjump : result.change ≠ .rate) :
    AtLeast n last e' ∧ (result.kind = .repeated →
      now - last > c.window ∧ now - last > repeatInterval c.window (n + 1) ∧
        AtLeast (n + 1) now e') := by
  have hpos := h.pos
  obtain ⟨hund, ⟨-, hdue, hlast, hstep⟩ | ⟨hdup, hlast, hstep⟩⟩ :=
    repeat_schedule hrepeat hpos.ne' h.delivered hjump
  · have hwindow := window_le_repeatInterval c.window_pos (e.atStep + 1)
    have hmono := repeatInterval_mono c.window_pos (Nat.add_le_add_right h.step 1)
    have hmin : minDuration ≤ repeatInterval c.window (e.atStep + 1) := by
      have := c.window_pos
      unfold minDuration
      omega
    have hgap := sub_gt_of_since_gt hmin hdue
    have hle := h.last_le
    have hpos' := c.window_pos
    have hnext : n + 1 ≤ e'.atStep := by
      rw [atStep, hstep]
      exact (Nat.succ_le_succ h.step).trans (le_max_left _ _)
    refine ⟨⟨?_, ?_, (Nat.le_succ n).trans hnext, hund⟩, fun _ => ⟨?_, ?_, ?_, ?_, hnext, hund⟩⟩
    · rw [hlast]
      omega
    · rw [hlast]
      omega
    · omega
    · omega
    · exact hlast.ge
    · rw [hlast]
      omega
  · have hkept : n ≤ e'.atStep := by
      rw [atStep, hstep]
      exact h.step.trans (le_max_left _ _)
    refine ⟨⟨hlast ▸ h.last_le, hlast ▸ hpos, hkept, hund⟩, fun hrep => ?_⟩
    rw [hdup] at hrep
    cases hrep

theorem delegate_of_parentless (h : e.parent = none) : c.delegate isOpen e = none := by
  rw [delegate, resolveParent, h]
  rfl

/-- An entry that is folded onto a root in good standing is handed over to it. -/
theorem delegate_of_root {r : DedupEntry} {root : EventKey} (hparent : e.parent = some root)
    (hr : c.entries.lookup root = some r) (htop : r.parent = none) (hbound : e.sessionID ≠ [])
    (hgood : r.storm = [] ∧ r.resolved = false ∧ r.sessionID = e.sessionID ∧
      c.isGroupOpen isOpen root r = true) : c.delegate isOpen e = some (root, r) := by
  obtain ⟨hstorm, hres, hsession, hopen⟩ := hgood
  have hclimb : c.climb 8 root r = (root, r) := by rw [climb, htop]
  rw [delegate, resolveParent, hparent, Option.bind_some, hr, Option.map_some, hclimb]
  refine Option.filter_some_pos (decide_eq_true ?_)
  exact ⟨hstorm, hres, hsession ▸ hbound, hsession, hopen⟩

section Decisions

variable {root : EventKey} {c' : DedupCache} {session : GoString}

/-- A repeat for the session is a decision on the root's entry. -/
theorem Observed.repeated_on_root (h : Observed now isOpen o key obs c c' result)
    (hunder : obs.repeatable = true → ∀ e ∈ c.entries.lookup key, e.sessionID = session →
      c.UnderRoot isOpen session root key e)
    (hkind : result.kind = .repeated) (hsession : result.sessionID = session) :
    ∃ r r' lapsed, c.entries.lookup root = some r ∧ c'.entries.lookup root = some r' ∧
      (r', result) = r.repeat c.window now obs.lastTS obs.class lapsed := by
  cases h with
  | @repeated e lapsed he _ hown _ hkept hrep =>
    have hbound : e.sessionID = session :=
      (repeat_core c.window now obs.lastTS obs.class lapsed e).2.2.2.2.symm.trans hsession
    obtain ⟨r, hr, htop, hkey | ⟨hparent, hstorm, hres, hrs, hopen⟩⟩ := (hunder hrep e he hbound).root
    · subst hkey
      exact ⟨e, _, lapsed, he, Finmap.lookup_insert _, rfl⟩
    · have hne : e.sessionID ≠ [] := (of_decide_eq_true hkept).2.1
      have hdel := delegate_of_root hparent hr htop hne ⟨hstorm, hres, hrs.trans hbound.symm, hopen⟩
      rw [hown] at hdel
      cases hdel
  | @rootRepeated e rk r₁ root₀ lapsed he _ hdel hroot hrep =>
    obtain ⟨hr₁, -, -, hne, hsame, -⟩ := delegate_root hdel
    have hroot₀ : root₀.sessionID = e.sessionID := by
      rw [hroot]
      split
      · rfl
      · exact hsame
    have hbound : e.sessionID = session := by
      rw [← hroot₀, ← hsession]
      exact (repeat_core c.window now obs.lastTS obs.class lapsed root₀).2.2.2.2.symm
    obtain ⟨r, hr, htop, hkey | ⟨hparent, hstorm, hres, hrs, hopen⟩⟩ := (hunder hrep e he hbound).root
    · subst hkey
      rw [he] at hr
      cases hr
      rw [delegate_of_parentless htop] at hdel
      cases hdel
    · have hdel' := delegate_of_root hparent hr htop (hsame ▸ hne)
        ⟨hstorm, hres, hrs.trans hbound.symm, hopen⟩
      rw [hdel] at hdel'
      cases hdel'
      have hkey : root ≠ key := by
        rintro rfl
        rw [he] at hr
        cases hr
        rw [htop] at hparent
        cases hparent
      rw [if_neg hkey] at hroot
      subst hroot
      exact ⟨_, _, lapsed, hr₁, Finmap.lookup_insert _, rfl⟩
  | _ => cases hkind

theorem Became.atLeast (h : Became now isOpen key obs c result k e e') (hat : AtLeast n last e)
    (hjump : result.change ≠ .rate) : AtLeast n last e' := by
  cases h with
  | kept => exact hat
  | counted => exact hat.of_same ⟨rfl, rfl, rfl, rfl, rfl⟩
  | noted hnoted => exact hat.of_same hnoted.toSameSchedule
  | repeated he₀ _ _ hrepeat =>
    rcases he₀ with rfl | rfl
    · exact (hat.repeat hrepeat hjump).1
    · exact ((hat.of_same (touch_noted now obs.lastTS e).toSameSchedule).repeat hrepeat hjump).1

end Decisions

/-- A mark leaves the schedule alone, except where it restarts it. -/
theorem Marked.sameSchedule (h : Marked c s k e e') (hcalm : c.Calm k s) : SameSchedule e e' := by
  cases h with
  | undelivered | unbound => exact absurd rfl hcalm
  | _ => exact ⟨rfl, rfl, rfl, rfl, rfl⟩

/-- The root keeps its place on the schedule through a calm call. -/
theorem atLeast_step {root : EventKey}
    (hinv : ∀ e, c.entries.lookup root = some e → AtLeast n last e) (hcalm : c.Calm root s)
    (he' : (c.step s).entries.lookup root = some e') : AtLeast n last e' := by
  cases step_stepped he' with
  | opened hnew => exact absurd hnew (hcalm.2 rfl)
  | observed he hbecame => exact hbecame.atLeast (hinv _ he) hcalm.1
  | marked he hmarked => exact (hinv _ he).of_same (hmarked.sameSchedule hcalm)

theorem announced_eq_some {session : GoString} {t : Int} (h : c.announced session s = some t) :
    ∃ isOpen o key obs,
      s = .observeSignal t isOpen o key obs ∧
        (c.observeSignal t isOpen o key obs).2.kind = .repeated ∧
        (c.observeSignal t isOpen o key obs).2.sessionID = session := by
  cases s with
  | observeSignal now isOpen o key obs =>
    simp only [announced] at h
    split at h
    · next hrep =>
      cases h
      exact ⟨isOpen, o, key, obs, rfl, hrep⟩
    · cases h
  | _ => cases h

theorem window_step (c : DedupCache) (s : DedupStep) : (c.step s).window = c.window := by
  have hmark (hmarks : Marks s) : (c.step s).window = c.window := (step_markedBy c hmarks).window
  cases s with
  | observeSignal now isOpen o key obs =>
    exact (observeSignal_observed now isOpen o key obs c).window.trans
      (maybeSweep_swept now isOpen o c).window
  | bindings now o => exact (bindings_swept now (fun _ => false) o c).window
  | sweep now isOpen o => exact (sweepExpired_swept now isOpen o c).window
  | _ => exact hmark trivial

/-- From a root that has made `n` injects, the last one at `last`, the repeats for the
    session are paced. -/
theorem paced_run {session : GoString} {root : EventKey}
    (hinv : ∀ e, c.entries.lookup root = some e → AtLeast n last e)
    (hrun : Run.Steps step (fun c s => c.Calm root s ∧ c.OnSchedule session root s) c steps) :
    Paced c.window n last (repeats session c steps) := by
  induction steps generalizing c n last with
  | nil => trivial
  | cons s steps ih =>
    obtain ⟨⟨hcalm, hsched⟩, hrest⟩ := hrun
    rw [repeats]
    have hwindow := window_step c s
    cases hann : c.announced session s with
    | none =>
      rw [← hwindow]
      exact ih (fun e he => atLeast_step hinv hcalm he) hrest
    | some t =>
      obtain ⟨isOpen, o, key, obs, rfl, hkind, hsession⟩ := announced_eq_some hann
      have hswept := maybeSweep_swept t isOpen o c
      obtain ⟨r, r', lapsed, hr, hr', hrepeat⟩ :=
        (observeSignal_observed t isOpen o key obs c).repeated_on_root hsched hkind hsession
      obtain ⟨-, hgap⟩ := (hinv r (hswept.lookup hr)).repeat hrepeat hcalm.1
      obtain ⟨hfar, hdue, hnext⟩ := hgap hkind
      rw [hswept.window] at hfar hdue
      refine ⟨hfar, hdue, ?_⟩
      rw [← hwindow]
      refine ih (fun e he => ?_) hrest
      change (c.observeSignal t isOpen o key obs).1.entries.lookup root = some e at he
      rw [hr'] at he
      cases he
      exact hnext

/-- A sibling group repeats on one schedule. From the open of its root on, the repeats for
    the session come more than a window apart, and the i-th more than its interval after
    the inject before it, as long as the session's observations all come down to the
    root. -/
theorem group_paced {c : DedupCache} {key : EventKey} {obs : Observation} {now : Int}
    {isOpen : EventKey → Bool} {o : Loops} {steps : List DedupStep} {session : GoString}
    (hclock : 0 < now) (hopen : (c.observeSignal now isOpen o key obs).2.kind = .newIncident)
    (hrun : Run.Steps step (fun c s => c.Calm key.canonical s ∧ c.OnSchedule session key.canonical s)
      (c.observeSignal now isOpen o key obs).1 steps) :
    Paced c.window 0 now (repeats session (c.observeSignal now isOpen o key obs).1 steps) := by
  have hwindow := window_step c (.observeSignal now isOpen o key obs)
  change (c.observeSignal now isOpen o key obs).1.window = _ at hwindow
  rw [← hwindow]
  refine paced_run (fun e he => ?_) hrun
  rw [((observeSignal_observed now isOpen o key obs c).of_new hopen).1] at he
  cases he
  exact ⟨le_rfl, hclock, Nat.zero_le _, rfl⟩

instance (root : EventKey) (c : DedupCache) : (s : DedupStep) → Decidable (c.Calm root s)
  | .observeSignal .. => inferInstanceAs (Decidable (_ ∧ _))
  | .markUndelivered key _ => inferInstanceAs (Decidable (key.canonical ≠ root))
  | .unbind _ key => inferInstanceAs (Decidable (key.canonical ≠ root))
  | .sweep .. | .bindings .. | .markResolved .. | .bindSession .. | .bindIncident ..
  | .attachToStorm .. | .noteIncidentKind .. | .noteAncestors .. | .sessionForAncestors ..
  | .sessionForSibling .. | .crossSourceJoin .. => isTrue trivial

instance (isOpen : EventKey → Bool) (session : GoString) (root key : EventKey) (e : DedupEntry)
    (c : DedupCache) : Decidable (c.UnderRoot isOpen session root key e) :=
  inferInstanceAs (Decidable (_ = true))

instance (session : GoString) (root : EventKey) (c : DedupCache) :
    (s : DedupStep) → Decidable (c.OnSchedule session root s)
  | .observeSignal .. => inferInstanceAs (Decidable (_ → ∀ e ∈ _, _ → _))
  | .markUndelivered .. | .unbind .. | .sweep .. | .bindings .. | .markResolved .. | .bindSession ..
  | .bindIncident .. | .attachToStorm .. | .noteIncidentKind .. | .noteAncestors ..
  | .sessionForAncestors .. | .sessionForSibling .. | .crossSourceJoin .. => isTrue trivial

end DedupCache

namespace DedupSample

def youngest : EventKey := crashLoop (bytes "pod-youngest")

/-- Two more pods fold onto the first one's incident. -/
def group : List DedupStep :=
  (opening tracked (10 * minute) (10 * minute) old).tail ++
    folding tracked (11 * minute) (11 * minute) young ++
    folding tracked (12 * minute) (12 * minute) youngest

/-- A pod of the group crashes at `now`. -/
def crash (now : Int) (key : EventKey) : DedupStep :=
  .observeSignal now tracked loops key (occurrence now)

/-- The pods of the group keep crashing. -/
def steady : List DedupStep :=
  group ++ [crash (17 * minute) young, crash (18 * minute) youngest, crash (28 * minute) old]

/-- The first pod recovers, and the others keep crashing. -/
def rootResolved : List DedupStep :=
  group ++ [.markResolved old, crash (20 * minute) young, crash (20 * minute + second) youngest]

end DedupSample

namespace DedupCache

open DedupSample in
theorem steady_paced : repeats session processed steady = [17 * minute, 28 * minute] ∧
    Paced (5 * minute) 0 (10 * minute) (repeats session processed steady) := by
  -- One evaluation of the run decides all that the theorem asks of it.
  obtain ⟨htimes, hrun⟩ : repeats session processed steady = [17 * minute, 28 * minute] ∧
      Run.Steps step (fun c s => c.Calm old.canonical s ∧
        c.OnSchedule session old.canonical s) processed steady := by decide +kernel
  exact ⟨htimes, group_paced (by decide) (by decide +kernel) hrun⟩

open DedupSample in
/-- Once the root is resolved, each of the other members follows a schedule of its own,
    and two repeats reach the session within a second. -/
theorem members_repeat_apart : Run.Steps step (Calm old) processed rootResolved ∧
    repeats session processed rootResolved = [20 * minute, 20 * minute + second] ∧
    ¬Paced (5 * minute) 0 (10 * minute) (repeats session processed rootResolved) := by
  obtain ⟨hcalm, htimes⟩ : Run.Steps step (Calm old) processed rootResolved ∧
      repeats session processed rootResolved = [20 * minute, 20 * minute + second] := by
    decide +kernel
  refine ⟨hcalm, htimes, ?_⟩
  rw [htimes]
  rintro ⟨-, -, hnear, -⟩
  exact absurd hnear (by decide)

/-! ## Injects that did not arrive -/

/-- The entry of the key is there and bound to the session. -/
def BoundTo (k : EventKey) (session : GoString) (c : DedupCache) : Prop :=
  (c.entries.lookup k).any (fun e => e.sessionID = session) = true

/-- The call is not yet the next repeatable occurrence of the key, and marks no other
    inject of it. -/
def NotYet (k : EventKey) (c : DedupCache) : DedupStep → Prop
  | .observeSignal now isOpen o key obs => key.canonical = k → obs.repeatable = true →
      ∀ e ∈ (c.maybeSweep now isOpen o).entries.lookup k, obs.lastTS ≤ e.eventLastTS
  | .markUndelivered key _ => key.canonical ≠ k
  | _ => True

/-- No sibling hands an occurrence over to the key's entry. -/
def KeptApart (k : EventKey) (c : DedupCache) : DedupStep → Prop
  | .observeSignal now isOpen o key obs => key.canonical ≠ k →
      ¬DecidedOn isOpen key.canonical obs (c.maybeSweep now isOpen o) k
  | _ => True

/-- An observation of the key, past its sweep, is decided on the key's own entry. -/
def DecidesOwn (now : Int) (isOpen : EventKey → Bool) (o : Loops) (k : EventKey)
    (c : DedupCache) : Prop :=
  ((c.maybeSweep now isOpen o).entries.lookup k).all
    (fun e => ((c.maybeSweep now isOpen o).delegate isOpen e).isNone) = true

/-- The entry of an open incident whose last inject, with the change it carried, did not
    arrive. -/
structure Armed (change : RepeatChange) (e : DedupEntry) : Prop where
  undelivered : e.undelivered = true
  lastChange : e.lastChange = change
  sessionClass : e.sessionClass = true
  incident : e.incident ≠ none

variable {change : RepeatChange}

theorem Armed.of_core (h : Armed change e) (hcore : e'.core = e.core)
    (hund : e'.undelivered = e.undelivered) (hchange : e'.lastChange = e.lastChange) :
    Armed change e' := by
  refine ⟨hund.trans h.undelivered, hchange.trans h.lastChange,
    (sessionClass_of_core hcore).trans h.sessionClass, ?_⟩
  rw [incident_of_core hcore]
  exact h.incident

theorem BoundTo.session {session : GoString} (h : c.BoundTo k session)
    (he : c.entries.lookup k = some e) : e.sessionID = session := by
  rw [BoundTo, he] at h
  exact of_decide_eq_true h

theorem Marked.armed (h : Marked c s k e e') (harmed : Armed change e) (hnot : c.NotYet k s)
    (hbound : e'.sessionID ≠ []) : Armed change e' := by
  obtain ⟨hund, hchange, hclass, href⟩ := harmed
  cases h with
  | undelivered => exact absurd rfl hnot
  | unbound => exact absurd rfl hbound
  | incident | storm => exact ⟨hund, hchange, hclass, Option.some_ne_none _⟩
  | _ => exact ⟨hund, hchange, hclass, href⟩

/-- Until the next occurrence of the key, its entry stays armed. -/
theorem armed_step {session : GoString} (hsession : session ≠ [])
    (hinv : ∀ e, c.entries.lookup k = some e → Armed change e) (hnot : c.NotYet k s)
    (hapart : c.KeptApart k s) (hbound : (c.step s).BoundTo k session)
    (he' : (c.step s).entries.lookup k = some e') : Armed change e' := by
  have hne : e'.sessionID ≠ [] := (hbound.session he').symm ▸ hsession
  cases step_stepped he' with
  | opened => exact absurd rfl hne
  | marked he hmarked => exact hmarked.armed (hinv _ he) hnot hne
  | @observed _ _ _ key _ _ _ _ he hbecame =>
    have harmed := hinv _ he
    cases hbecame with
    | kept => exact harmed
    | counted => exact harmed.of_core rfl rfl rfl
    | noted hnoted => exact harmed.of_core hnoted.core hnoted.undelivered hnoted.lastChange
    | repeated _ hon hrep =>
      by_cases hk : key.canonical = k
      · obtain ⟨x, hx, hts, -⟩ := hon
        rw [hk] at hx
        exact absurd hts (not_lt.2 (hnot hk hrep x hx))
      · exact absurd hon (hapart hk)

theorem armed_run {session : GoString} (hsession : session ≠ [])
    (hinv : ∀ e, c.entries.lookup k = some e → Armed change e)
    (hbound : Run.Always step (BoundTo k session) c steps)
    (hrun : Run.Steps step (fun c s => c.NotYet k s ∧ c.KeptApart k s) c steps) :
    ∀ e, (c.run steps).entries.lookup k = some e → Armed change e := by
  induction steps generalizing c with
  | nil => exact hinv
  | cons s steps ih =>
    obtain ⟨⟨hnot, hapart⟩, hrest⟩ := hrun
    obtain ⟨-, hbound'⟩ := Run.always_cons.1 hbound
    have hnext : (c.step s).BoundTo k session := hbound' [] List.nil_prefix
    exact ih (fun e he => armed_step hsession hinv hnot hapart hnext he) hbound' hrest

/-- A repeat that was decided on the key's own entry finds it open there. -/
theorem armed_of_repeated (hkind : (c.observeSignal now isOpen o key obs).2.kind = .repeated)
    (hown : c.DecidesOwn now isOpen o key.canonical) :
    (c.observeSignal now isOpen o key obs).2.sessionID ≠ [] ∧
      ∀ change e, ((c.observeSignal now isOpen o key obs).1.markUndelivered key change).entries.lookup
        key.canonical = some e → Armed change e := by
  have hpath := observeSignal_observed now isOpen o key obs c
  generalize c.observeSignal now isOpen o key obs = out at hkind hpath ⊢
  obtain ⟨c', result⟩ := out
  cases hpath with
  | rootRepeated he _ hdel =>
    rw [DecidesOwn, he, Option.all_some, hdel] at hown
    cases hown
  | @repeated e lapsed he _ _ _ hkept =>
    obtain ⟨hclass, hbound, href, -⟩ := of_decide_eq_true hkept
    have hcore := repeat_core (c.maybeSweep now isOpen o).window now obs.lastTS obs.class lapsed e
    refine ⟨?_, fun change e' he' => ?_⟩
    · rw [hcore.2.2.2.2]
      exact hbound
    · change (update key.canonical (·.markUndelivered change) _).entries.lookup _ = _ at he'
      rw [lookup_update, if_pos rfl, Finmap.lookup_insert, Option.map_some] at he'
      cases he'
      refine ⟨rfl, rfl, (sessionClass_of_core hcore.1).trans hclass, ?_⟩
      change (e.repeat _ now obs.lastTS obs.class lapsed).1.incident ≠ none
      rw [incident_of_core hcore.1]
      exact href
  | _ => cases hkind

/-- The next occurrence of an open incident whose last inject did not arrive sends it
    again. -/
theorem observe_armed (he : c.entries.lookup key.canonical = some e) (harmed : Armed change e)
    (hbound : e.sessionID ≠ []) (hres : e.resolved = false) (hopen : isOpen key.canonical = true)
    (hts : e.eventLastTS < obs.lastTS) (hrep : obs.repeatable = true)
    (hown : c.DecidesOwn now isOpen o key.canonical) :
    let result := (c.observeSignal now isOpen o key obs).2
    result.kind = .repeated ∧ result.sessionID = e.sessionID ∧
      result.change = if change = .none ∧
        (e.noteOccurrence c.window now obs.lastTS obs.class).pendingChange = true
        then .newClass else change := by
  have hswept := maybeSweep_swept now isOpen o c
  -- The sweep keeps what is open.
  have he' : (c.maybeSweep now isOpen o).entries.lookup key.canonical = some e := by
    rcases hswept.entry key.canonical with hkept | hgone
    · exact hkept.trans he
    · rcases (hswept.removed he hgone).2 with hresolved | ⟨-, hclosed⟩
      · rw [hres] at hresolved
        cases hresolved
      · exact absurd ⟨harmed.sessionClass, hbound, harmed.incident, hopen⟩ hclosed
  have hkept (c : DedupCache) : c.keptOpen isOpen key.canonical e = true :=
    keptOpen_of_isOpen harmed.sessionClass hbound harmed.incident hopen c
  have hclosed (h : e.resolved = true ∨
      (c.maybeSweep now isOpen o).keptOpen isOpen key.canonical e = false) : False := by
    rw [hres, hkept] at h
    rcases h with h | h <;> cases h
  have hpath := observeSignal_observed now isOpen o key obs c
  generalize c.observeSignal now isOpen o key obs = out at hpath ⊢
  obtain ⟨c', result⟩ := out
  rw [DecidesOwn, he', Option.all_some] at hown
  have hsame {x : DedupEntry}
      (hx : (c.maybeSweep now isOpen o).entries.lookup key.canonical = some x) : x = e := by
    rw [he'] at hx
    cases hx
    rfl
  cases hpath with
  | buried hnone =>
    rw [he'] at hnone
    cases hnone
  | opened _ hlapsed => exact (hclosed ((hlapsed e he').2.2 hrep)).elim
  | replayed hx hold =>
    rw [hsame hx] at hold
    exact absurd hts (not_lt.2 hold)
  | noted hx _ hquiet =>
    rw [hsame hx] at hquiet
    exact (hclosed (hquiet hrep).2).elim
  | rootRepeated hx _ hdel | rootNoted hx _ hdel =>
    rw [hsame hx] at hdel
    rw [hdel] at hown
    cases hown
  | @repeated x lapsed hx =>
    rw [hsame hx]
    obtain ⟨hkind, hchange⟩ := repeat_undelivered (c.maybeSweep now isOpen o).window now obs.lastTS
      obs.class lapsed harmed.undelivered
    refine ⟨hkind, (repeat_core _ _ _ _ _ _).2.2.2.2, ?_⟩
    rw [hchange, harmed.lastChange, hswept.window]

/-- An undelivered inject is never lost. If an observation of the key was answered with a
    repeat, and the caller marks it undelivered, then the next repeatable occurrence of the
    still open and bound incident is answered with a repeat that carries the same change,
    or the class change that is pending since in place of a reminder. Both observations
    have to be decided on the key's own entry, and no sibling's in between on it. -/
theorem undelivered_resent {c : DedupCache} {key key' : EventKey} {obs obs' : Observation}
    {now now' : Int} {isOpen isOpen' : EventKey → Bool} {o o' : Loops} {between : List DedupStep}
    {answer : DedupResult} {marked : DedupCache} {e : DedupEntry}
    (hanswer : answer = (c.observeSignal now isOpen o key obs).2) (hkind : answer.kind = .repeated)
    (hmarked : marked = (c.observeSignal now isOpen o key obs).1.markUndelivered key answer.change)
    (hown : c.DecidesOwn now isOpen o key.canonical)
    (hbound : Run.Always step (BoundTo key.canonical answer.sessionID) marked between)
    (hrun : Run.Steps step (fun c s => c.NotYet key.canonical s ∧ c.KeptApart key.canonical s)
      marked between)
    (hkey : key'.canonical = key.canonical)
    (he : (marked.run between).entries.lookup key.canonical = some e) (hres : e.resolved = false)
    (hopen : isOpen' key.canonical = true) (hts : e.eventLastTS < obs'.lastTS)
    (hrep : obs'.repeatable = true)
    (hown' : (marked.run between).DecidesOwn now' isOpen' o' key.canonical) :
    let result := ((marked.run between).observeSignal now' isOpen' o' key' obs').2
    result.kind = .repeated ∧ result.sessionID = answer.sessionID ∧
      result.change = if answer.change = .none ∧
        (e.noteOccurrence (marked.run between).window now' obs'.lastTS obs'.class).pendingChange = true
        then .newClass else answer.change := by
  subst hanswer
  subst hmarked
  obtain ⟨hsession, harmed⟩ := armed_of_repeated hkind hown
  have hfinal := armed_run hsession (harmed _) hbound hrun e he
  have hsame : e.sessionID = (c.observeSignal now isOpen o key obs).2.sessionID :=
    (hbound between (List.prefix_refl _)).session he
  rw [← hkey] at he hopen hown'
  rw [← hsame]
  exact observe_armed he hfinal (hsame ▸ hsession) hres hopen hts hrep hown'

end DedupCache

namespace DedupSample

/-- The first pod's incident, open and bound to its session. -/
def lone : DedupCache := processed.run (opening tracked (10 * minute) (10 * minute) old).tail

/-- The answer to a crash of the pod at `now`, and the cache after that answer could not
    be delivered. -/
def answer (c : DedupCache) (now : Int) (key : EventKey) : DedupResult :=
  (c.observeSignal now tracked loops key (occurrence now)).2

def failed (c : DedupCache) (now : Int) (key : EventKey) : DedupCache :=
  (c.observeSignal now tracked loops key (occurrence now)).1.markUndelivered key
    (answer c now key).change

/-- The pod's old event is delivered again, and the other pod crashes. -/
def meanwhile : List DedupStep :=
  [again, .observeSignal (19 * minute) tracked loops young (occurrence (19 * minute))]

end DedupSample

namespace DedupCache

instance (k : EventKey) (session : GoString) (c : DedupCache) : Decidable (c.BoundTo k session) :=
  inferInstanceAs (Decidable (_ = true))

instance (now : Int) (isOpen : EventKey → Bool) (o : Loops) (k : EventKey) (c : DedupCache) :
    Decidable (c.DecidesOwn now isOpen o k) :=
  inferInstanceAs (Decidable (_ = true))

open DedupSample in
theorem lone_reminder_resent :
    let marked := failed lone (17 * minute) old
    (answer lone (17 * minute) old).kind = .repeated ∧
      (answer (marked.run meanwhile) (20 * minute) old).kind = .repeated ∧
      (answer (marked.run meanwhile) (20 * minute) old).sessionID =
        (answer lone (17 * minute) old).sessionID := by
  obtain ⟨hkind, hown, hentry, hown'⟩ :
      (answer lone (17 * minute) old).kind = .repeated ∧
      lone.DecidesOwn (17 * minute) tracked loops old.canonical ∧
      (((failed lone (17 * minute) old).run meanwhile).entries.lookup old.canonical).any (fun e =>
        e.resolved = false ∧ e.eventLastTS < 20 * minute) = true ∧
      ((failed lone (17 * minute) old).run meanwhile).DecidesOwn (20 * minute) tracked loops
        old.canonical := by
    decide +kernel
  have hbound : Run.Always step (BoundTo old.canonical (answer lone (17 * minute) old).sessionID)
      (failed lone (17 * minute) old) meanwhile := by
    rw [meanwhile, Run.always_cons, Run.always_cons, Run.always_nil]
    decide +kernel
  have hstale : ∀ e ∈ ((failed lone (17 * minute) old).maybeSweep (18 * minute) tracked
      loops).entries.lookup old.canonical, 10 * minute ≤ e.eventLastTS := by decide +kernel
  have hapart : ¬DecidedOn tracked young.canonical (occurrence (19 * minute))
      (((failed lone (17 * minute) old).step again).maybeSweep (19 * minute) tracked loops)
      old.canonical := by decide +kernel
  have hrun : Run.Steps step (fun c s => c.NotYet old.canonical s ∧ c.KeptApart old.canonical s)
      (failed lone (17 * minute) old) meanwhile :=
    ⟨⟨fun _ _ => hstale, fun hne => absurd rfl hne⟩,
      ⟨fun hkey => absurd hkey (by decide +kernel), fun _ => hapart⟩, trivial⟩
  rw [Option.any_eq_true] at hentry
  obtain ⟨e, he, htest⟩ := hentry
  obtain ⟨hres, hlast⟩ := of_decide_eq_true htest
  have hts : e.eventLastTS < (occurrence (20 * minute)).lastTS := hlast
  obtain ⟨hagain, hsession, -⟩ :=
    undelivered_resent rfl hkind rfl hown hbound hrun rfl he hres rfl hts rfl hown'
  exact ⟨hkind, hagain, hsession⟩

open DedupSample in
/-- A reminder that was decided on the root is marked on the member's own entry, and the
    member's next occurrence, decided on the root again, does not send it. -/
theorem member_reminder_lost :
    (answer (processed.run group) (17 * minute) young).kind = .repeated ∧
      (failed (processed.run group) (17 * minute) young).BoundTo young
        (answer (processed.run group) (17 * minute) young).sessionID ∧
      (answer (failed (processed.run group) (17 * minute) young) (18 * minute) young).kind =
        .duplicate := by
  decide +kernel

end DedupCache

end Lookout.Engine
