-- SUMMARY: The subject keys of findings, and which objects share one.
import Lookout.Graph.Types

/-!
# Subject keys

A finding is carried from one run to the next under the key of its subject. The key strips
the suffixes that Kubernetes generates off the name, so that a pod is known by its
Deployment.
-/

namespace Lookout.Findings

def dash : UInt8 := 0x2d

def generatedAlphabet : GoString := bytes "bcdfghjklmnpqrstvwxz2456789"

def minGeneratedLen : Nat := 5

def maxGeneratedLen : Nat := 10

def maxGeneratedSuffixes : Nat := 2

/-- The segment has the length and the letters of a generated suffix. -/
def isGeneratedSegment (seg : GoString) : Bool :=
  minGeneratedLen ≤ seg.length && seg.length ≤ maxGeneratedLen && seg.all (· ∈ generatedAlphabet)

/-- The loop of `NormalizeName`. -/
def stripSegments : Nat → List GoString → List GoString
  | 0, segs => segs
  | n + 1, segs =>
    if 1 < segs.length ∧ isGeneratedSegment (segs.getLastD []) = true then
      stripSegments n segs.dropLast
    else segs

def normalizeName (name : GoString) : GoString :=
  if name = [] then []
  else [dash].intercalate (stripSegments maxGeneratedSuffixes (name.splitOn dash))

def subjectKey (cluster ns kindOfObject name canonicalReason : GoString) : GoString :=
  [slash].intercalate [cluster, ns, kindOfObject, normalizeName name, canonicalReason]

/-- The name of a pod of the Deployment. -/
def PodOf (deployment name : GoString) : Prop :=
  ∃ hash suffix, isGeneratedSegment hash = true ∧ isGeneratedSegment suffix = true ∧
    name = deployment ++ dash :: hash ++ dash :: suffix

/-- The name does not end in a generated segment. -/
def Plain (name : GoString) : Prop :=
  ∀ base seg, name = base ++ dash :: seg → isGeneratedSegment seg = false

variable {base seg name : GoString}

theorem dash_not_mem (h : isGeneratedSegment seg = true) : dash ∉ seg := by
  intro hdash
  rw [isGeneratedSegment, Bool.and_eq_true, List.all_eq_true] at h
  exact absurd (h.2 dash hdash) (by decide +kernel)

theorem splitOn_generated (base : GoString) (h : isGeneratedSegment seg = true) :
    (base ++ dash :: seg).splitOn dash = base.splitOn dash ++ [seg] := by
  have hone : ([dash].intercalate [seg]).splitOn dash = [seg] :=
    List.splitOn_intercalate dash (by simp [dash_not_mem h]) (by simp)
  rw [List.intercalate_singleton] at hone
  rw [List.splitOn_append_cons_self, hone]

theorem stripSegments_generated {segs : List GoString} (hsegs : segs ≠ [])
    (h : isGeneratedSegment seg = true) (n : Nat) :
    stripSegments (n + 1) (segs ++ [seg]) = stripSegments n segs := by
  have hmore := List.length_pos_of_ne_nil hsegs
  rw [stripSegments, if_pos ⟨by simpa using hmore, by simpa using h⟩, List.dropLast_concat]

/-- What is left of a name does not depend on its generated suffix. -/
theorem normalizeName_generated (base : GoString) (h : isGeneratedSegment seg = true) :
    normalizeName (base ++ dash :: seg) =
      [dash].intercalate (stripSegments 1 (base.splitOn dash)) := by
  rw [normalizeName, if_neg (by simp), splitOn_generated base h, maxGeneratedSuffixes,
    stripSegments_generated (List.splitOn_ne_nil dash base) h]

theorem PodOf.normalizeName_eq {D : GoString} (h : PodOf D name) : normalizeName name = D := by
  obtain ⟨hash, suffix, hhash, hsuffix, rfl⟩ := h
  rw [normalizeName_generated _ hsuffix, splitOn_generated _ hhash,
    stripSegments_generated (List.splitOn_ne_nil dash D) hhash, stripSegments,
    List.intercalate_splitOn]

theorem intercalate_concat {segs : List GoString} (hsegs : segs ≠ []) (seg : GoString) :
    [dash].intercalate (segs ++ [seg]) = [dash].intercalate segs ++ dash :: seg := by
  induction segs with
  | nil => exact absurd rfl hsegs
  | cons x segs ih =>
    cases segs with
    | nil => simp
    | cons y segs =>
      simp only [List.cons_append, List.intercalate_cons_cons] at ih ⊢
      rw [ih (by simp)]
      simp

theorem Plain.normalizeName_eq (h : Plain name) : normalizeName name = name := by
  rw [normalizeName]
  split
  · next hnil => exact hnil.symm
  · rw [maxGeneratedSuffixes, stripSegments, if_neg, List.intercalate_splitOn]
    rintro ⟨hmore, hgen⟩
    have hname : [dash].intercalate (name.splitOn dash) = name := List.intercalate_splitOn dash
    rcases List.eq_nil_or_concat (name.splitOn dash) with hnil | ⟨segs, seg, hsegs⟩
    · simp [hnil] at hmore
    · rw [hsegs, List.concat_eq_append] at hname hmore hgen
      have hne : segs ≠ [] := by
        rintro rfl
        simp at hmore
      rw [intercalate_concat hne] at hname
      rw [List.getLastD_concat, h _ _ hname.symm] at hgen
      cases hgen

instance (name : GoString) : Decidable (Plain name) :=
  decidable_of_iff
    (∀ i < name.length, name[i]? = some dash → isGeneratedSegment (name.drop (i + 1)) = false) <| by
  constructor
  · rintro h base seg rfl
    simpa using h base.length (by simp) (by simp)
  · intro h i hi hdash
    refine h (name.take i) _ ?_
    have hget : name[i] = dash := List.getElem_eq_iff hi |>.2 hdash
    rw [← hget, ← List.drop_eq_getElem_cons hi, List.take_append_drop]

theorem exists_other_generated (h : isGeneratedSegment seg = true) :
    ∃ other, other ≠ seg ∧ isGeneratedSegment other = true := by
  cases seg with
  | nil => cases h
  | cons c rest =>
    obtain ⟨d, hd, hne⟩ : ∃ d ∈ generatedAlphabet, d ≠ c := by
      by_cases hc : c = 98
      · exact ⟨99, by decide +kernel, by rw [hc]; decide⟩
      · exact ⟨98, by decide +kernel, Ne.symm hc⟩
    refine ⟨d :: rest, by simp [hne], ?_⟩
    simp only [isGeneratedSegment, List.all_cons, Bool.and_eq_true, decide_eq_true_eq] at h ⊢
    exact ⟨h.1, hd, h.2.2⟩

theorem subjectKey_eq (cluster ns kind name reason : GoString) :
    subjectKey cluster ns kind name reason = cluster ++ slash :: (ns ++ slash ::
      (kind ++ slash :: (normalizeName name ++ slash :: reason))) := by
  simp [subjectKey]

theorem subjectKey_eq_iff {cluster ns kind reason a b : GoString} :
    subjectKey cluster ns kind a reason = subjectKey cluster ns kind b reason ↔
      normalizeName a = normalizeName b := by
  simp [subjectKey_eq]

def pod : GoString := bytes "Pod"

/-- Pods share a subject just if they are of one Deployment and have the same reason. Other
    objects are kept apart if no name ends in a generated segment, and a name that does
    shares its key with another one. -/
theorem subjects_apart_iff (cluster : GoString) :
    (∀ ns ns' D D' name name' reason reason' : GoString, slash ∉ ns → slash ∉ ns' →
      slash ∉ D → slash ∉ D' → PodOf D name → PodOf D' name' →
      (subjectKey cluster ns pod name reason = subjectKey cluster ns' pod name' reason' ↔
        ns = ns' ∧ D = D' ∧ reason = reason') ∧ normalizeName name = D) ∧
    ∀ ns kind reason a : GoString,
      (Plain a → ∀ b, Plain b → b ≠ a →
        subjectKey cluster ns kind b reason ≠ subjectKey cluster ns kind a reason) ∧
      (¬ Plain a → ∃ b, b ≠ a ∧
        subjectKey cluster ns kind b reason = subjectKey cluster ns kind a reason) := by
  constructor
  · intro ns ns' D D' name name' reason reason' hns hns' hD hD' hname hname'
    refine ⟨?_, hname.normalizeName_eq⟩
    rw [subjectKey_eq, subjectKey_eq, hname.normalizeName_eq, hname'.normalizeName_eq]
    constructor
    · intro heq
      have hcut := congrArg cut (List.cons.inj (List.append_cancel_left heq)).2
      rw [cut_append hns, cut_append hns', Option.some.injEq, Prod.mk.injEq] at hcut
      have hrest := congrArg cut (List.cons.inj (List.append_cancel_left hcut.2)).2
      rw [cut_append hD, cut_append hD', Option.some.injEq, Prod.mk.injEq] at hrest
      exact ⟨hcut.1, hrest⟩
    · rintro ⟨rfl, rfl, rfl⟩
      rfl
  · intro ns kind reason a
    simp only [Ne, subjectKey_eq_iff]
    refine ⟨fun ha b hb hne heq => hne ?_, fun ha => ?_⟩
    · rwa [ha.normalizeName_eq, hb.normalizeName_eq] at heq
    · simp only [Plain, not_forall, Bool.not_eq_false] at ha
      obtain ⟨base, seg, rfl, hgen⟩ := ha
      obtain ⟨other, hother, hgen'⟩ := exists_other_generated hgen
      refine ⟨base ++ dash :: other, by simp [hother], ?_⟩
      rw [normalizeName_generated base hgen, normalizeName_generated base hgen']

/-- A crash-looping pod and the one that replaced it share a subject, two Deployments do
    not. -/
theorem backend_joined_web_apart :
    subjectKey [] (bytes "shop") pod (bytes "backend-7d9f8-x9k2l") (bytes "OOM") =
        subjectKey [] (bytes "shop") pod (bytes "backend-7d9f8-q4m7p") (bytes "OOM") ∧
      subjectKey [] (bytes "shop") (bytes "Deployment") (bytes "web-api") (bytes "Stalled") ≠
        subjectKey [] (bytes "shop") (bytes "Deployment") (bytes "web-worker") (bytes "Stalled") := by
  have hold : PodOf (bytes "backend") (bytes "backend-7d9f8-x9k2l") :=
    ⟨bytes "7d9f8", bytes "x9k2l", by decide +kernel⟩
  have hnew : PodOf (bytes "backend") (bytes "backend-7d9f8-q4m7p") :=
    ⟨bytes "7d9f8", bytes "q4m7p", by decide +kernel⟩
  have hns : slash ∉ bytes "shop" := by decide +kernel
  have hD : slash ∉ bytes "backend" := by decide +kernel
  obtain ⟨hpods, hothers⟩ := subjects_apart_iff []
  refine ⟨(hpods _ _ _ _ _ _ _ _ hns hns hD hD hold hnew).1.2 ⟨rfl, rfl, rfl⟩, ?_⟩
  exact (hothers _ _ _ _).1 (by decide +kernel) _ (by decide +kernel) (by decide +kernel)

/-- Two Deployments whose names end like generated ones have one subject. -/
theorem releases_merged :
    bytes "web-7f8bd" ≠ bytes "web-9k2lx" ∧
      subjectKey [] (bytes "shop") (bytes "Deployment") (bytes "web-7f8bd") (bytes "Stalled") =
        subjectKey [] (bytes "shop") (bytes "Deployment") (bytes "web-9k2lx") (bytes "Stalled") := by
  decide +kernel

end Lookout.Findings
