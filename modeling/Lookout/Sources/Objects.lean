-- SUMMARY: The parts of Kubernetes objects that the signal sources read, and the text functions and the trend fit they share.
import Lookout.Engine.Recovery
import Mathlib.Algebra.BigOperators.Group.List.Basic
import Mathlib.Algebra.Order.Floor.Ring
import Mathlib.Data.Rat.Floor

/-!
# Objects of the signal sources

Each source is told of objects by its informers and keeps a few of their fields. The
objects here have just the fields the handlers read. Counters of replicas are `int32` in
the API, so that sums of them wrap around. A series of timed values is fitted by a line in
the exact rationals, whose slope projects when a limit will be reached.
-/

namespace Lookout.Sources

open Engine

/-- `types.UID` -/
abbrev UID : Type := GoString

/-- The name of an object in the cache of its informer. -/
structure ObjectName where
  ns : GoString
  name : GoString
  deriving DecidableEq, Repr

instance : LinearOrder ObjectName :=
  LinearOrder.lift' (fun k => toLex (rank k.ns, rank k.name)) fun k k' h => by
    obtain ⟨hns, hname⟩ := Prod.mk.inj (toLex.injective h)
    cases k
    cases k'
    rw [ObjectName.mk.injEq]
    exact ⟨rank_injective hns, rank_injective hname⟩

/-! ## Texts and numbers -/

/-- `strings.EqualFold` with a text of ASCII letters. Two characters outside ASCII fold
    to letters: the long s and the Kelvin sign. -/
def equalFold (s : GoString) : GoString → Bool
  | [] => s = []
  | c :: t => match s with
    | [] => false
    | b :: rest =>
      if lowerByte b = lowerByte c then equalFold rest t
      else match s with
        | 0xc5 :: 0xbf :: rest => lowerByte c = 0x73 && equalFold rest t
        | 0xe2 :: 0x84 :: 0xaa :: rest => lowerByte c = 0x6b && equalFold rest t
        | _ => false

@[simp] theorem equalFold_self (s : GoString) : equalFold s s = true := by
  induction s with
  | nil => rfl
  | cons b s ih => simp [equalFold, ih]

/-- `strconv.ParseInt(s, 10, 64)` -/
def parseInt64 (s : GoString) : Option Int :=
  let (negative, digits) := match s with
    | 0x2d :: digits => (true, digits)
    | 0x2b :: digits => (false, digits)
    | digits => (false, digits)
  if digits = [] ∨ ¬digits.all (fun b => 0x30 ≤ b && b ≤ 0x39) then none
  else
    let n : Int := digits.foldl (fun n b => 10 * n + (b.toNat - 0x30 : Nat)) 0
    let v := if negative then -n else n
    if minDuration ≤ v ∧ v ≤ maxDuration then some v else none

/-- The wrapped result of 32-bit arithmetic on counters. -/
def wrap32 (n : Int) : Int := (n + 2 ^ 31) % 2 ^ 32 - 2 ^ 31

/-- A number of replicas with the default of the API. -/
def int32OrOne (n : Option Int) : Int := n.getD 1

/-! ## Metadata and pods -/

/-- `metav1.OwnerReference` -/
structure OwnerReference where
  apiVersion : GoString := []
  kind : GoString
  name : GoString
  uid : UID
  controller : Option Bool
  deriving DecidableEq, Repr

/-- `controllerUID`: the owner that controls the object. -/
def controllerUID (refs : List OwnerReference) : Option UID :=
  (refs.find? fun ref => ref.controller = some true).map (·.uid)

/-- `corev1.PodCondition` -/
structure PodCondition where
  type : GoString
  status : GoString
  lastTransitionTime : Int
  deriving DecidableEq, Repr

/-- `corev1.ContainerStatus`: the reason it waits for, none if it does not wait, and the
    start of a running container. -/
structure ContainerStatus where
  waiting : Option GoString := none
  restartCount : Int
  runningStartedAt : Option Int
  deriving DecidableEq, Repr

/-- `corev1.Pod` -/
structure Pod where
  uid : UID
  ns : GoString
  name : GoString
  node : GoString := []
  revisionHash : GoString := []
  owners : List OwnerReference := []
  conditions : List PodCondition := []
  initContainerStatuses : List ContainerStatus := []
  containerStatuses : List ContainerStatus := []
  deriving DecidableEq, Repr

namespace Pod

def key (p : Pod) : ObjectName := ⟨p.ns, p.name⟩

/-- The state of the first condition `Ready`. -/
def readyCondition (p : Pod) : Option Bool :=
  (p.conditions.find? fun c => c.type = bytes "Ready").map fun c => c.status = bytes "True"

end Pod

/-- The verdict of an observer whose incident is still on. -/
def held : Clearance := ⟨false, 0, .recovered⟩

/-- The verdict on an incident whose object is gone. -/
def objectGone : Clearance := ⟨true, 0, .objectDeleted⟩

/-! ## Trends -/

/-- A duration in seconds. -/
def seconds (d : Int) : ℚ := d / second

/-- `LeastSquaresSlope`: units per second, with the time counted from the first point. -/
def leastSquaresSlope (points : List (Int × ℚ)) : ℚ :=
  match points with
  | [] => 0
  | [_] => 0
  | (t0, _) :: _ =>
    let n : ℚ := points.length
    let ts := points.map fun p => seconds (since p.1 t0)
    let sumT := ts.sum
    let sumV := (points.map (·.2)).sum
    let sumTT := (ts.map fun t => t * t).sum
    let sumTV := (List.zipWith (· * ·) ts (points.map (·.2))).sum
    let den := n * sumTT - sumT * sumT
    if den = 0 then 0 else (n * sumTV - sumT * sumV) / den

def maxETASeconds : ℚ := seconds (maxDuration / 2)

/-- `ETAFromSeconds`: the projection as a duration, if it is representable. -/
def etaFromSeconds (s : ℚ) : Option Int :=
  if 0 ≤ s ∧ s ≤ maxETASeconds then some ⌊s * second⌋ else none

/-- The order of the hysteresis latch: none, warning, critical. -/
def severityRank : Option Severity → Nat
  | some .critical => 2
  | some .warning => 1
  | _ => 0

end Lookout.Sources
