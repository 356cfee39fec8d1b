-- SUMMARY: Signals of the watch pipeline: clock arithmetic, incident keys, reason families, severities.
import Lookout.Graph.Types
import Mathlib.Data.List.Lex
import Mathlib.Data.Prod.Lex

/-!
# Signals

The watch pipeline carries signals. A signal names an object and a reason, and
the pair of the object's uid and the reason's family is the key under which every
stage files the incident.

Points in time are integers, in nanoseconds since Go's zero time, so that `0` is
the time `IsZero` recognises. Durations are integers of nanoseconds too.
-/

namespace Lookout.Engine

/-! ## Clock arithmetic -/

def maxDuration : Int := 2 ^ 63 - 1

def minDuration : Int := -2 ^ 63

/-- `t.Sub(u)`. Go saturates the difference at the ends of the duration type. -/
def since (t u : Int) : Int := max minDuration (min maxDuration (t - u))

/-- The wrapped result of 64-bit arithmetic on durations. -/
def wrap64 (d : Int) : Int := (d + 2 ^ 63) % 2 ^ 64 - 2 ^ 63

def second : Int := 1000000000

def minute : Int := 60 * second

theorem minute_pos : 0 < minute := by decide

theorem five_minutes_pos : 0 < 5 * minute := by decide

def hour : Int := 60 * minute

variable {d t u : Int}

theorem sub_ge_of_since_ge (hd : minDuration < d) (h : since t u ≥ d) : t - u ≥ d := by
  unfold since at h
  omega

theorem sub_gt_of_since_gt (hd : minDuration ≤ d) (h : since t u > d) : t - u > d := by
  unfold since at h
  omega

theorem since_nonneg (h : u ≤ t) : 0 ≤ since t u := by
  unfold since maxDuration
  omega

@[simp] theorem since_self (t : Int) : since t t = 0 := by
  unfold since minDuration maxDuration
  omega

/-! ## Incident keys -/

/-- The bytes of a string as numbers. Go orders strings by them. -/
def rank (s : GoString) : List Nat := s.map UInt8.toNat

theorem rank_injective {s s' : GoString} (h : rank s = rank s') : s = s' :=
  List.map_injective_iff.2 (fun _ _ => UInt8.toNat.inj) h

/-- `EventKey`: the object's uid and the reason of the incident. -/
structure EventKey where
  uid : GoString
  reason : GoString
  deriving DecidableEq, Repr

instance : LinearOrder EventKey :=
  LinearOrder.lift' (fun k => toLex (rank k.uid, rank k.reason)) fun k k' h => by
    obtain ⟨hu, hr⟩ := Prod.mk.inj (toLex.injective h)
    cases k
    cases k'
    rw [EventKey.mk.injEq]
    exact ⟨rank_injective hu, rank_injective hr⟩

/-- `reasonCanonical`: the secondary reasons and the reason family each belongs to. -/
def reasonCanonical : List (GoString × GoString) :=
  [(bytes "ErrImagePull", bytes "ImagePullBackOff"),
   (bytes "BackOff", bytes "CrashLoopBackOff"),
   (bytes "node_notready", bytes "NodeNotReady"),
   (bytes "restart_burst", bytes "CrashLoopBackOff"),
   (bytes "pending", bytes "FailedScheduling"),
   (bytes "pending-aged", bytes "FailedScheduling"),
   (bytes "quota_blocked", bytes "QuotaExhausted"),
   (bytes "quota_forecast", bytes "QuotaExhausted")]

/-- `CanonicalReason`: the family of a reason when no message is at hand. -/
def canonicalReason (reason : GoString) : GoString :=
  (reasonCanonical.lookup reason).getD reason

/-- `CanonicalReasonForEvent`: the family of a reason, told apart by the message
    where kubelet spells the reason generically. -/
def canonicalReasonForEvent (reason message : GoString) : GoString :=
  if reason = bytes "BackOff" then
    if bytes "pulling image" <:+: message then bytes "ImagePullBackOff"
    else bytes "CrashLoopBackOff"
  else if reason = bytes "Failed" then
    if bytes "Failed to pull image" <:+: message ∨ bytes "ErrImagePull" <:+: message ∨
        bytes "ImagePullBackOff" <:+: message then bytes "ImagePullBackOff"
    else reason
  else canonicalReason reason

theorem canonicalReason_of_mem {reason family : GoString}
    (h : (reason, family) ∈ reasonCanonical) : canonicalReason family = family := by
  have hall : ∀ p ∈ reasonCanonical, canonicalReason p.2 = p.2 := by decide +kernel
  exact hall _ h

@[simp] theorem canonicalReason_idem (reason : GoString) :
    canonicalReason (canonicalReason reason) = canonicalReason reason := by
  cases h : reasonCanonical.lookup reason with
  | none => simp only [canonicalReason, h, Option.getD_none]
  | some family =>
    have hfam : canonicalReason reason = family := by rw [canonicalReason, h, Option.getD_some]
    have hmem : ∃ l₁ l₂, reasonCanonical = l₁ ++ (reason, family) :: l₂ ∧ _ :=
      List.lookup_eq_some_iff.1 h
    obtain ⟨l₁, l₂, hsplit, -⟩ := hmem
    rw [hfam]
    exact canonicalReason_of_mem (hsplit ▸ List.mem_append_right l₁ List.mem_cons_self)

/-- The families are fixed by the messageless mapping, so a key that already
    carries its family survives every later canonicalisation. -/
@[simp] theorem canonicalReason_forEvent (reason message : GoString) :
    canonicalReason (canonicalReasonForEvent reason message) =
      canonicalReasonForEvent reason message := by
  have hpull : canonicalReason (bytes "ImagePullBackOff") = bytes "ImagePullBackOff" := by
    decide +kernel
  have hcrash : canonicalReason (bytes "CrashLoopBackOff") = bytes "CrashLoopBackOff" := by
    decide +kernel
  have hfailed : canonicalReason (bytes "Failed") = bytes "Failed" := by decide +kernel
  unfold canonicalReasonForEvent
  split
  · split
    · exact hpull
    · exact hcrash
  · split
    · next hr =>
      split
      · exact hpull
      · rw [hr]
        exact hfailed
    · exact canonicalReason_idem reason

/-- The key with its reason replaced by the messageless family. Every cache
    operation starts with this step. -/
def EventKey.canonical (k : EventKey) : EventKey := { k with reason := canonicalReason k.reason }

theorem EventKey.canonical_idem (k : EventKey) : k.canonical.canonical = k.canonical := by
  simp only [canonical, canonicalReason_idem]

/-! ## Signals -/

/-- `Severity`. The type is a string in the source, so an unknown class is possible. -/
inductive Severity where
  | critical
  | warning
  | info
  | other (text : GoString)
  deriving DecidableEq, Repr

/-- The text of a severity class. -/
def Severity.text : Severity → GoString
  | .critical => bytes "critical"
  | .warning => bytes "warning"
  | .info => bytes "info"
  | .other text => text

/-- `severityRank`: the order of the classes. -/
def severityRank : Severity → Nat
  | .critical => 2
  | .warning => 1
  | _ => 0

/-- `Route`: where a new incident of a severity class goes. -/
inductive Route where
  | perIncident
  | watchboard
  | store
  deriving DecidableEq, Repr

/-- `RouteFor`. An unknown class is paged. -/
def routeFor : Severity → Route
  | .warning => .watchboard
  | .info => .store
  | _ => .perIncident

def kindK8sEvent : GoString := bytes "k8s-event"

def kindK8sEventFollowup : GoString := bytes "k8s-event-followup"

/-- `ReasonClass`: the reason family a signal shows on the wire, empty when it adds
    nothing to the reason itself. -/
def reasonClass (kind reason message : GoString) : GoString :=
  if kind = kindK8sEvent ∨ kind = kindK8sEventFollowup ∨ kind = [] then
    canonicalReasonForEvent reason message
  else if canonicalReason reason ≠ reason then canonicalReason reason
  else []

/-- `PullClass`: whether an image pull can be expected to succeed on its own. -/
inductive PullClass where
  | na
  | terminal
  | retryable
  | unknown
  deriving DecidableEq, Repr

/-- `IncidentRef`: the identity of a bound incident beyond its key. -/
structure IncidentRef where
  ns : GoString := []
  kindOfObject : GoString := []
  name : GoString := []
  container : GoString := []
  controllerRef : GoString := []
  fingerprint : GoString := []
  cluster : GoString := []
  deriving DecidableEq, Repr

/-- `Signal`, with the fields of its embedded `TriageEvent` that the pipeline reads. -/
structure Signal where
  kind : GoString
  severity : Severity
  fingerprint : GoString := []
  cluster : GoString := []
  zone : GoString := []
  key : EventKey
  ns : GoString := []
  kindOfObject : GoString := []
  name : GoString := []
  container : GoString := []
  message : GoString := []
  firstSeen : Int := 0
  lastSeen : Int := 0
  controllerRef : GoString := []
  node : GoString := []
  pullClass : PullClass := .na
  deriving DecidableEq, Repr

namespace Signal

/-- `CanonicalKey`: the key of the pipeline, with the message-aware reason family. -/
def canonicalKey (s : Signal) : EventKey :=
  { s.key with reason := canonicalReasonForEvent s.key.reason s.message }

/-- `Signal.IncidentRef`. -/
def incidentRef (s : Signal) : IncidentRef :=
  { ns := s.ns, kindOfObject := s.kindOfObject, name := s.name, container := s.container,
    controllerRef := s.controllerRef, fingerprint := s.fingerprint, cluster := s.cluster }

@[simp] theorem canonical_canonicalKey (s : Signal) : s.canonicalKey.canonical = s.canonicalKey := by
  simp [canonicalKey, EventKey.canonical]

end Signal

end Lookout.Engine
