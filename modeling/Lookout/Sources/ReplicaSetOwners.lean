-- SUMMARY: The walk from a ReplicaSet to its Deployment over the informer caches, and which ReplicaSet of a Deployment is the current one.
import Lookout.Sources.PodClearance

/-!
# ReplicaSets and their Deployment

The pod clearance asks which Deployment controls a ReplicaSet and which ReplicaSet of a
Deployment is the current one. Both answers come from the caches of the informers. With the
cache of Deployments a ReplicaSet belongs to the live Deployment of its owner's name only if
that one has the owner's uid.
-/

namespace Lookout.Sources.ObjectState

/-! ## The caches -/

/-- `appsv1.ReplicaSet`, with the text of its revision annotation. -/
structure ReplicaSet where
  ns : GoString
  name : GoString
  owners : List OwnerReference := []
  revision : GoString := []
  creationTimestamp : Int := 0

/-- `schema.ParseGroupVersion` gives the group `apps`. -/
def isApps (apiVersion : GoString) : Bool :=
  apiVersion.count 0x2f = 1 && apiVersion.takeWhile (· ≠ 0x2f) = bytes "apps"

/-- `deploymentRefOf` -/
def deploymentRefOf (rs : ReplicaSet) : Option (GoString × UID) :=
  match rs.owners.find? fun ref => ref.controller = some true with
  | none => none
  | some ref =>
    if ref.kind ≠ bytes "Deployment" ∨ ref.name = [] then none
    else if isApps ref.apiVersion = false then none
    else some (ref.name, ref.uid)

/-- The caches behind `listerRSOwners`: the ReplicaSets under their names, and the uids of
    the live Deployments, none without the grant to list them. -/
structure Caches where
  replicaSets : Map ObjectName ReplicaSet
  deployments : Option (Map ObjectName UID)
  keyed : ∀ key rs, replicaSets.lookup key = some rs → (⟨rs.ns, rs.name⟩ : ObjectName) = key
  named : ∀ key rs, replicaSets.lookup key = some rs → rs.name ≠ []

namespace Caches

variable (walk : Map.Walk ObjectName) (c : Caches)

/-- `controller`: the Deployment that controls the ReplicaSet. -/
def controller (rs : ReplicaSet) : Option GoString :=
  match deploymentRefOf rs with
  | none => none
  | some (name, uid) => match c.deployments with
    | none => some name
    | some deployments => if deployments.lookup ⟨rs.ns, name⟩ = some uid then some name else none

/-- `DeploymentOf` -/
def deploymentOf (ns name : GoString) : Option GoString :=
  (c.replicaSets.lookup ⟨ns, name⟩).bind c.controller

/-! ## The current ReplicaSet -/

/-- The revision that `byRevision` can use. -/
def revisionOf (rs : ReplicaSet) : Option Int :=
  match parseInt64 rs.revision with
  | none => none
  | some rev => if rev < 0 then none else some rev

/-- One round of `byRevision`: the best name, its revision and whether it ties. -/
def revisionRound (acc : GoString × Int × Bool) (rs : ReplicaSet) :
    Option (GoString × Int × Bool) :=
  match revisionOf rs with
  | none => none
  | some rev =>
    if acc.2.1 < rev then some (rs.name, rev, false)
    else if rev = acc.2.1 then some (acc.1, acc.2.1, true)
    else some acc

def byRevision (rss : List ReplicaSet) : Option GoString :=
  match rss.foldlM revisionRound ([], -1, false) with
  | none => none
  | some (best, _, tie) => if best ≠ [] ∧ tie = false then some best else none

def byCreation (rss : List ReplicaSet) : Option GoString :=
  (Select.top (·.creationTimestamp) rss).map (·.name)

/-- The ReplicaSets of a namespace, in the order in which the lister gives them. -/
def list (ns : GoString) : List ReplicaSet :=
  (Map.walk walk c.replicaSets).filterMap fun key =>
    if key.ns = ns then c.replicaSets.lookup key else none

/-- `CurrentReplicaSet` -/
def currentReplicaSet (ns deployment : GoString) : Option GoString :=
  let owned := (c.list walk ns).filter fun rs => c.controller rs = some deployment
  match byRevision owned with
  | some name => some name
  | none => byCreation owned

/-- `listerRSOwners` with synced caches. -/
def owners : ReplicaSetOwners where
  hasSynced := true
  deploymentOf := c.deploymentOf
  currentReplicaSet := c.currentReplicaSet walk

/-! ## What the current ReplicaSet is -/

/-- The ReplicaSet is cached and controlled by the Deployment. -/
def Owned (ns deployment : GoString) (rs : ReplicaSet) : Prop :=
  rs.ns = ns ∧ c.replicaSets.lookup ⟨ns, rs.name⟩ = some rs ∧ c.controller rs = some deployment

/-- Every one has a rank, and all the others rank below this one. -/
def Tops (mine : ReplicaSet → Prop) (rank : ReplicaSet → Option Int) (rs : ReplicaSet) : Prop :=
  mine rs ∧ ∃ r, rank rs = some r ∧ ∀ x, mine x → x ≠ rs → ∃ r', rank x = some r' ∧ r' < r

/-- The ReplicaSet has the highest revision alone. If none has, it is the only newest. -/
def Current (ns deployment : GoString) (rs : ReplicaSet) : Prop :=
  Tops (c.Owned ns deployment) revisionOf rs ∨
    (¬∃ y, Tops (c.Owned ns deployment) revisionOf y) ∧
      Tops (c.Owned ns deployment) (fun x => some x.creationTimestamp) rs

variable {rs : ReplicaSet} {rss : List ReplicaSet}

theorem mem_list {walk : Map.Walk ObjectName} {c : Caches} {ns : GoString} :
    rs ∈ c.list walk ns ↔ rs.ns = ns ∧ c.replicaSets.lookup ⟨ns, rs.name⟩ = some rs := by
  rw [list, List.mem_filterMap]
  constructor
  · rintro ⟨key, -, hkey⟩
    split at hkey
    next hns =>
      have hself := c.keyed key rs hkey
      subst hself
      exact ⟨hns, hns ▸ hkey⟩
    next => cases hkey
  · rintro ⟨hns, hrs⟩
    have hmem := Map.mem_iff_ne_none.2 (hrs ▸ Option.some_ne_none rs)
    exact ⟨⟨ns, rs.name⟩, Map.mem_walk.2 hmem, (if_pos rfl).trans hrs⟩

theorem nodup_list (ns : GoString) :
    (c.list walk ns).Nodup := by
  refine List.Nodup.filterMap ?_ (Map.nodup_walk walk c.replicaSets)
  intro key key' rs hrs hrs'
  split at hrs <;> split at hrs' <;> try contradiction
  exact (c.keyed key rs hrs).symm.trans (c.keyed key' rs hrs')

theorem tops_congr {mine mine' : ReplicaSet → Prop} (h : ∀ x, mine x ↔ mine' x)
    (rank : ReplicaSet → Option Int) (rs : ReplicaSet) : Tops mine rank rs ↔ Tops mine' rank rs := by
  rw [funext fun x => propext (h x)]

/-- Where every one has a rank, the search for the only highest one finds it. -/
theorem top_eq_some_iff_tops (hnodup : rss.Nodup) {rank : ReplicaSet → Option Int}
    {r : ReplicaSet → Int} (hrank : ∀ x ∈ rss, rank x = some (r x)) :
    Select.top r rss = some rs ↔ Tops (· ∈ rss) rank rs := by
  rw [Select.top_eq_some_iff hnodup]
  constructor
  · rintro ⟨hrs, hrest⟩
    exact ⟨hrs, r rs, hrank rs hrs, fun x hx hne => ⟨r x, hrank x hx, hrest x hx hne⟩⟩
  · rintro ⟨hrs, top, htop, hrest⟩
    rw [hrank rs hrs] at htop
    refine ⟨hrs, fun x hx hne => ?_⟩
    obtain ⟨r', hr', hlt⟩ := hrest x hx hne
    rw [hrank x hx] at hr'
    cases htop
    cases hr'
    exact hlt

/-- The state of `byRevision` for what the search for the highest revision knows. -/
def encode (best : Option (ReplicaSet × Bool)) : GoString × Int × Bool :=
  match best with
  | none => ([], -1, false)
  | some (b, tie) => (b.name, (revisionOf b).getD 0, tie)

variable {rev : Int}

theorem revisionOf_nonneg (h : revisionOf rs = some rev) : 0 ≤ rev := by
  unfold revisionOf at h
  split at h
  next => cases h
  next =>
    split at h
    next => cases h
    next hrev =>
      cases h
      exact not_lt.1 hrev

theorem revisionRound_encode (best : Option (ReplicaSet × Bool)) (h : revisionOf rs = some rev) :
    revisionRound (encode best) rs =
      some (encode (Select.crown (fun rs => (revisionOf rs).getD 0) best rs)) := by
  cases best with
  | none =>
    have hrev : (-1 : Int) < rev := lt_of_lt_of_le (by decide) (revisionOf_nonneg h)
    simp [revisionRound, Select.crown, encode, h, hrev]
  | some p =>
    obtain ⟨b, tie⟩ := p
    by_cases hlt : (revisionOf b).getD 0 < rev
    · simp [revisionRound, Select.crown, encode, h, hlt]
    · by_cases heq : rev = (revisionOf b).getD 0
      · simp [revisionRound, Select.crown, encode, h, heq]
      · simp [revisionRound, Select.crown, encode, h, hlt, heq]

theorem foldlM_revisionRound (h : ∀ rs ∈ rss, revisionOf rs ≠ none)
    (best : Option (ReplicaSet × Bool)) :
    rss.foldlM revisionRound (encode best) =
      some (encode (rss.foldl (Select.crown fun rs => (revisionOf rs).getD 0) best)) := by
  induction rss generalizing best with
  | nil => rfl
  | cons rs rss ih =>
    obtain ⟨rev, hrev⟩ := Option.ne_none_iff_exists'.1 (h rs List.mem_cons_self)
    rw [List.foldlM_cons, revisionRound_encode best hrev, List.foldl_cons]
    exact ih (fun x hx => h x (List.mem_cons_of_mem rs hx)) _

theorem foldlM_revisionRound_none (h : ∃ rs ∈ rss, revisionOf rs = none)
    (acc : GoString × Int × Bool) : rss.foldlM revisionRound acc = none := by
  induction rss generalizing acc with
  | nil => simp at h
  | cons rs rss ih =>
    rw [List.foldlM_cons]
    cases hround : revisionRound acc rs with
    | none => rfl
    | some acc' =>
      refine ih ?_ acc'
      obtain ⟨x, hx, hnone⟩ := h
      rcases List.mem_cons.1 hx with rfl | hx
      · rw [revisionRound, hnone] at hround
        cases hround
      · exact ⟨x, hx, hnone⟩

theorem byRevision_eq_some_iff (hnodup : rss.Nodup) (hnamed : ∀ rs ∈ rss, rs.name ≠ [])
    (name : GoString) :
    byRevision rss = some name ↔ ∃ rs, Tops (· ∈ rss) revisionOf rs ∧ rs.name = name := by
  by_cases husable : ∀ rs ∈ rss, revisionOf rs ≠ none
  · have hrank : ∀ x ∈ rss, revisionOf x = some ((revisionOf x).getD 0) := by
      intro x hx
      obtain ⟨rev, hrev⟩ := Option.ne_none_iff_exists'.1 (husable x hx)
      rw [hrev, Option.getD_some]
    have htop : byRevision rss =
        (Select.top (fun rs => (revisionOf rs).getD 0) rss).map (·.name) := by
      have hbest := Select.foldl_crown (fun rs => (revisionOf rs).getD 0) hnodup
      unfold byRevision Select.top
      rw [show (([], -1, false) : GoString × Int × Bool) = encode none from rfl,
        foldlM_revisionRound husable none]
      revert hbest
      cases rss.foldl (Select.crown fun rs => (revisionOf rs).getD 0) none with
      | none => exact fun _ => if_neg fun h => h.1 rfl
      | some p =>
        obtain ⟨b, tie⟩ := p
        intro hbest
        cases tie with
        | false => exact if_pos ⟨hnamed b hbest.mem, rfl⟩
        | true => exact if_neg fun h => Bool.false_ne_true h.2.symm
    rw [htop, Option.map_eq_some_iff]
    exact exists_congr fun rs => and_congr_left' (top_eq_some_iff_tops hnodup hrank)
  · have hunusable : ∃ rs ∈ rss, revisionOf rs = none := by
      by_contra hall
      exact husable fun rs hrs hnone => hall ⟨rs, hrs, hnone⟩
    refine iff_of_false ?_ ?_
    · rw [byRevision, foldlM_revisionRound_none hunusable]
      exact (Option.some_ne_none name).symm
    · rintro ⟨rs, ⟨-, r, hr, hrest⟩, -⟩
      obtain ⟨x, hx, hnone⟩ := hunusable
      by_cases hxrs : x = rs
      · exact absurd (hnone.symm.trans (hxrs ▸ hr)) (Option.some_ne_none r).symm
      · obtain ⟨r', hr', -⟩ := hrest x hx hxrs
        exact absurd (hnone.symm.trans hr') (Option.some_ne_none r').symm

theorem byCreation_eq_some_iff (hnodup : rss.Nodup) (name : GoString) :
    byCreation rss = some name ↔
      ∃ rs, Tops (· ∈ rss) (fun x => some x.creationTimestamp) rs ∧ rs.name = name := by
  rw [byCreation, Option.map_eq_some_iff]
  exact exists_congr fun rs => and_congr_left' (top_eq_some_iff_tops hnodup fun _ _ => rfl)

/-- In whatever order the lister gives the ReplicaSets, the answer is the current one. -/
theorem currentReplicaSet_eq_some_iff
    (ns deployment name : GoString) :
    c.currentReplicaSet walk ns deployment = some name ↔
      ∃ rs, c.Current ns deployment rs ∧ rs.name = name := by
  have hmem : ∀ x, x ∈ (c.list walk ns).filter (fun rs => c.controller rs = some deployment) ↔
      c.Owned ns deployment x := by
    intro x
    rw [List.mem_filter, mem_list, decide_eq_true_eq, and_assoc, Owned]
  have hnodup := (nodup_list walk c ns).filter fun rs => decide (c.controller rs = some deployment)
  have hnamed : ∀ rs ∈ (c.list walk ns).filter (fun rs => c.controller rs = some deployment),
      rs.name ≠ [] := fun rs hrs => c.named _ rs ((hmem rs).1 hrs).2.1
  have hrevision := byRevision_eq_some_iff hnodup hnamed
  have hcreation := byCreation_eq_some_iff hnodup name
  simp only [tops_congr hmem] at hrevision hcreation
  unfold currentReplicaSet Current
  dsimp only
  split
  next best hbest =>
    obtain ⟨rs, htop, rfl⟩ := (hrevision best).1 hbest
    constructor
    · intro h
      exact ⟨rs, Or.inl htop, Option.some.inj h⟩
    · rintro ⟨rs', htop' | ⟨hnone, -⟩, rfl⟩
      · exact hbest.symm.trans ((hrevision rs'.name).2 ⟨rs', htop', rfl⟩)
      · exact absurd ⟨rs, htop⟩ hnone
  next hbest =>
    have hnone : ¬∃ y, Tops (c.Owned ns deployment) revisionOf y := by
      rintro ⟨y, hy⟩
      exact absurd (hbest.symm.trans ((hrevision y.name).2 ⟨y, hy, rfl⟩)) (Option.some_ne_none _).symm
    rw [hcreation]
    refine exists_congr fun rs => and_congr_left' ?_
    exact ⟨fun h => Or.inr ⟨hnone, h⟩, fun h => (h.resolve_left fun htop => hnone ⟨rs, htop⟩).2⟩

end Caches

end Lookout.Sources.ObjectState
