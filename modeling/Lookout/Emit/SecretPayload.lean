-- SUMMARY: What the rendered form of an object can depend on: the payload of Secrets.
import Lookout.Emit.Sanitize

/-!
# Secret payloads

Two objects that differ only in the values of Secrets, of equal lengths, should be rendered
alike. They are, except in two places. The walk does not enter a list that is an element
of a list, and a value that reads like a redaction is taken for one and kept.
-/

namespace Lookout.Emit

open Json

variable {m m' : Fields} {key parentKey : GoString} {secret secret' : Bool} {p p' : GoString × Json}
  {items items' : List Json} {v v' : Json}

/-! ## Objects that differ in Secret values -/

/-- A map whose kind is Secret. -/
def secretKind (m : Fields) : Bool := textAt m (bytes "kind") = some (bytes "Secret")

/-- Whether a key of a map holds a payload, and if its values are encoded. -/
def payloadOf (secret : Bool) (key : GoString) : Option Bool :=
  if secret && key = bytes "data" then some true
  else if secret && key = bytes "stringData" then some false
  else none

/-- Two strings of equal content length, or no strings at all. -/
def SameLength (isBase64 : Bool) : Json → Json → Prop
  | .str s, .str s' => decodedLen isBase64 s = decodedLen isBase64 s'
  | .str _, _ | _, .str _ => False
  | _, _ => True

def SamePayload (isBase64 : Bool) : Fields → Fields → Prop :=
  List.Forall₂ fun p p' => p.1 = p'.1 ∧ SameLength isBase64 p.2 p'.2

mutual

/-- Equal except for the values of Secrets, at any depth. -/
def Json.Alike : Json → Json → Prop
  | .list items, .list items' => AlikeItems items items'
  | .map m, .map m' => AlikeFields (secretKind m) m m'
  | v, v' => v = v'

def AlikeItems : List Json → List Json → Prop
  | [], [] => True
  | v :: items, v' :: items' => v.Alike v' ∧ AlikeItems items items'
  | _, _ => False

def AlikeFields (secret : Bool) : List (GoString × Json) → List (GoString × Json) → Prop
  | [], [] => True
  | (k, v) :: m, (k', v') :: m' =>
    k = k' ∧
      (match payloadOf secret k, v, v' with
        | some isBase64, .map payload, .map payload' => SamePayload isBase64 payload payload'
        | _, _, _ => v.Alike v') ∧
      AlikeFields secret m m'
  | _, _ => False

end

/-! ## Objects that are rendered alike -/

/-- A Secret value of which only the length is rendered. -/
def Shielded (isBase64 : Bool) (s : GoString) : Prop :=
  looksRedacted s = false ∨ s = redactedLen (decodedLen isBase64 s)

def ShieldedPair (isBase64 : Bool) : Json → Json → Prop
  | .str s, .str s' => s = s' ∨ Shielded isBase64 s ∧ Shielded isBase64 s'
  | _, _ => True

def ShieldedPayload (isBase64 : Bool) : Fields → Fields → Prop :=
  List.Forall₂ fun p p' => p.1 = p'.1 ∧ ShieldedPair isBase64 p.2 p'.2

variable (toLower : GoString → GoString)

mutual

/-- The values that differ and are rendered are shielded, and none is in a list that is an
    element of a list. -/
def Json.Guarded (key : GoString) : Json → Json → Prop
  | .list items, .list items' => GuardedItems key items items'
  | .map m, .map m' => GuardedFields key (isSecretMap m) m m'
  | v, v' => v = v'

def GuardedItems (key : GoString) : List Json → List Json → Prop
  | [], [] => True
  | v :: items, v' :: items' =>
    (match v, v' with
      | .list inner, .list inner' => inner = inner'
      | _, _ => v.Guarded key v') ∧
      GuardedItems key items items'
  | _, _ => False

def GuardedFields (parentKey : GoString) (secret : Bool) :
    List (GoString × Json) → List (GoString × Json) → Prop
  | [], [] => True
  | (k, v) :: m, (k', v') :: m' =>
    k = k' ∧
      (stripped toLower parentKey k = true ∨
        match payloadOf secret k, v, v' with
        | some isBase64, .map payload, .map payload' => ShieldedPayload isBase64 payload payload'
        | _, _, _ => v.Guarded k v') ∧
      GuardedFields parentKey secret m m'
  | _, _ => False

end

/-! ## The relations, element by element -/

/-- Two fields that may stand at the same place of two alike maps. -/
def FieldAlike (secret : Bool) (p p' : GoString × Json) : Prop :=
  p.1 = p'.1 ∧
    match payloadOf secret p.1, p.2, p'.2 with
    | some isBase64, .map payload, .map payload' => SamePayload isBase64 payload payload'
    | _, _, _ => p.2.Alike p'.2

def ItemGuarded (key : GoString) (v v' : Json) : Prop :=
  match v, v' with
  | .list inner, .list inner' => inner = inner'
  | _, _ => v.Guarded toLower key v'

def FieldGuarded (parentKey : GoString) (secret : Bool) (p p' : GoString × Json) : Prop :=
  p.1 = p'.1 ∧
    (stripped toLower parentKey p.1 = true ∨
      match payloadOf secret p.1, p.2, p'.2 with
      | some isBase64, .map payload, .map payload' => ShieldedPayload isBase64 payload payload'
      | _, _, _ => p.2.Guarded toLower p.1 p'.2)

variable {k : GoString} {guarded : Prop}

theorem alikeItems_iff : AlikeItems items items' ↔ List.Forall₂ Alike items items' := by
  induction items generalizing items' with
  | nil => cases items' <;> simp [AlikeItems]
  | cons v items ih => cases items' <;> simp [AlikeItems, ih]

theorem alikeFields_iff : AlikeFields secret m m' ↔ List.Forall₂ (FieldAlike secret) m m' := by
  induction m generalizing m' with
  | nil => cases m' <;> simp [AlikeFields]
  | cons p m ih =>
    obtain ⟨k, v⟩ := p
    cases m' with
    | nil => simp [AlikeFields]
    | cons p' m' =>
      obtain ⟨k', v'⟩ := p'
      rw [AlikeFields.eq_def]
      simp only [ih, List.forall₂_cons, FieldAlike, and_assoc]

theorem guardedItems_iff :
    GuardedItems toLower key items items' ↔
      List.Forall₂ (ItemGuarded toLower key) items items' := by
  induction items generalizing items' with
  | nil => cases items' <;> simp [GuardedItems]
  | cons v items ih =>
    cases items' with
    | nil => simp [GuardedItems]
    | cons v' items' =>
      rw [GuardedItems.eq_def]
      simp only [ih, List.forall₂_cons, ItemGuarded]

theorem guardedFields_iff :
    GuardedFields toLower parentKey secret m m' ↔
      List.Forall₂ (FieldGuarded toLower parentKey secret) m m' := by
  induction m generalizing m' with
  | nil => cases m' <;> simp [GuardedFields]
  | cons p m ih =>
    obtain ⟨k, v⟩ := p
    cases m' with
    | nil => simp [GuardedFields]
    | cons p' m' =>
      obtain ⟨k', v'⟩ := p'
      rw [GuardedFields.eq_def]
      simp only [ih, List.forall₂_cons, FieldGuarded, and_assoc]

/-- Two alike values are equal, or two lists, or two maps. -/
inductive AlikeView : Json → Json → Prop where
  | same {v : Json} (hlist : ∀ items, v ≠ .list items) (hmap : ∀ m, v ≠ .map m) : AlikeView v v
  | list {items items' : List Json} (h : List.Forall₂ Alike items items') :
      AlikeView (.list items) (.list items')
  | map {m m' : Fields} (h : List.Forall₂ (FieldAlike (secretKind m)) m m') :
      AlikeView (.map m) (.map m')

theorem Json.Alike.view (h : v.Alike v') : AlikeView v v' := by
  cases v
  case list items =>
    cases v' with
    | list items' => exact .list (alikeItems_iff.mp (by rwa [Alike] at h))
    | _ => simp [Alike] at h
  case map m =>
    cases v' with
    | map m' => exact .map (alikeFields_iff.mp (by rwa [Alike] at h))
    | _ => simp [Alike] at h
  all_goals
    subst h
    exact .same (by simp) (by simp)

section

variable (h : List.Forall₂ (FieldAlike secret) m m')

include h

/-- What stands at a key of two alike maps. -/
theorem lookup_alike (key : GoString) :
    (m.lookup key = none ∧ m'.lookup key = none) ∨
      ∃ v v', m.lookup key = some v ∧ m'.lookup key = some v' ∧
        FieldAlike secret (key, v) (key, v') := by
  induction h with
  | nil => exact Or.inl ⟨rfl, rfl⟩
  | @cons p p' m m' hp _ ih =>
    obtain ⟨k, v⟩ := p
    obtain ⟨k', v'⟩ := p'
    obtain rfl : k = k' := hp.1
    by_cases hk : key = k
    · subst hk
      exact Or.inr ⟨v, v', by simp, by simp, hp⟩
    · have hne : (key == k) = false := by simpa using hk
      simpa [List.lookup_cons, hne] using ih

theorem textAt_alike (hkey : payloadOf secret key = none) : textAt m key = textAt m' key := by
  unfold textAt
  rcases lookup_alike h key with ⟨hm, hm'⟩ | ⟨v, v', hm, hm', -, hv⟩
  · rw [hm, hm']
  · rw [hm, hm']
    simp only [hkey] at hv
    cases hv.view <;> rfl

theorem mapAt_alike (key : GoString) : mapAt m key = mapAt m' key := by
  unfold mapAt
  rcases lookup_alike h key with ⟨hm, hm'⟩ | ⟨v, v', hm, hm', -, hv⟩
  · rw [hm, hm']
  · rw [hm, hm']
    simp only at hv
    split at hv
    next => rfl
    next => cases hv.view <;> rfl

end

theorem payloadOf_other (secret : Bool) {key : String} (h : key ≠ "data" ∧ key ≠ "stringData") :
    payloadOf secret (bytes key) = none := by
  simp [payloadOf, bytes_inj, h.1, h.2]

theorem payloadOf_stringData : payloadOf true (bytes "stringData") = some false := by
  simp [payloadOf, bytes_inj]

theorem payloadOf_kind (secret : Bool) : payloadOf secret (bytes "kind") = none :=
  payloadOf_other secret (by decide)

theorem isSecretMap_alike (h : List.Forall₂ (FieldAlike secret) m m') :
    isSecretMap m = isSecretMap m' := by
  have htype : payloadOf secret (bytes "type") = none := payloadOf_other secret (by decide)
  simp only [isSecretMap, textAt_alike h (payloadOf_kind secret), textAt_alike h htype,
    mapAt_alike h]

theorem isSecretMap_of_kind (h : secretKind m = true) : isSecretMap m = true := by
  have hkind : textAt m (bytes "kind") = some (bytes "Secret") := by simpa [secretKind] using h
  simp [isSecretMap, hkind]

/-! ## The walk, field by field -/

/-- A value as the walk finds it: the payload of a Secret is masked already. -/
def shield (secret : Bool) (key : GoString) (v : Json) : Json :=
  match payloadOf secret key with
  | some isBase64 => maskPayload isBase64 v
  | none => v

theorem shield_of_plain (h : payloadOf secret k = none ∨ ∀ m, v ≠ .map m) :
    shield secret k v = v := by
  unfold shield
  cases hpay : payloadOf secret k <;> cases v <;> simp_all [maskPayload]

variable (r : Rules)

/-- What is left of one field of a map. -/
def sanitizeField (parentKey : GoString) (secret : Bool) (p : GoString × Json) :
    Option (GoString × Json) :=
  if stripped r.toLower parentKey p.1 then none
  else
    let v := sanitizeValue r parentKey p.1 (shield secret p.1 p.2)
    if elidable v && p.1 ≠ bytes "emptyDir" then none else some (p.1, v)

theorem shield_map (m : Fields) :
    (if isSecretMap m then
      maskSecretPayload (maskSecretPayload m (bytes "data") true) (bytes "stringData") false
      else m) = m.map fun p => (p.1, shield (isSecretMap m) p.1 p.2) := by
  have hkeys : bytes "stringData" ≠ bytes "data" := bytes_inj.not.2 (by decide)
  cases hsecret : isSecretMap m with
  | false => simp [shield, payloadOf]
  | true =>
    simp only [maskSecretPayload, List.map_map]
    apply List.map_congr_left
    rintro ⟨k, v⟩ -
    by_cases hdata : k = bytes "data"
    · simp [shield, payloadOf, hdata, hkeys.symm]
    · by_cases hstring : k = bytes "stringData"
      · simp [shield, payloadOf, hstring, hkeys]
      · simp [shield, payloadOf, hdata, hstring]

/-- The walk of a map treats its fields one by one. -/
theorem sanitizeMap_filterMap (m : Fields) (parentKey : GoString) :
    sanitizeMap r m parentKey = m.filterMap (sanitizeField r parentKey (isSecretMap m)) := by
  rw [sanitizeMap_eq, prepareMap, shield_map]
  generalize isSecretMap m = secret
  induction m with
  | nil => rfl
  | cons p m ih =>
    rw [List.filterMap_cons, ← ih, sanitizeField]
    cases hstrip : stripped r.toLower parentKey p.1 with
    | true => simp [hstrip]
    | false =>
      by_cases helide : elidable (sanitizeValue r parentKey p.1 (shield secret p.1 p.2)) = true ∧
          p.1 ≠ bytes "emptyDir"
      · simp [hstrip, helide]
      · simp only [not_and_or, not_not] at helide
        rcases helide with h | h
        · simp [hstrip, h]
        · have hdir : stripped r.toLower parentKey (bytes "emptyDir") = false := h ▸ hstrip
          simp [hdir, h]

theorem redacted_isPrefix : (bytes "[REDACTED").isPrefixOf redacted = true ∧
    bytes "[REDACTED" <+: bytes "[REDACTED:" := by
  decide +kernel

theorem redactedLen_isPrefix (n : Nat) : (bytes "[REDACTED").isPrefixOf (redactedLen n) = true := by
  rw [List.isPrefixOf_iff_prefix]
  exact redacted_isPrefix.2.trans ((List.prefix_append _ _).trans (List.prefix_append _ _))

theorem payloadText_isPrefix (isBase64 : Bool) (v : Json) :
    (bytes "[REDACTED").isPrefixOf (payloadText isBase64 v) = true := by
  cases v with
  | str s =>
    simp only [payloadText]
    split
    next hlooks =>
      rw [looksRedacted, Bool.and_eq_true, List.isPrefixOf_iff_prefix] at hlooks
      rw [List.isPrefixOf_iff_prefix]
      exact redacted_isPrefix.2.trans hlooks.1
    next => exact redactedLen_isPrefix _
  | _ => exact redacted_isPrefix.1

/-- Nothing but the mask runs over a value that is redacted. -/
theorem maskKeyedValue_redacted {value : GoString}
    (h : (bytes "[REDACTED").isPrefixOf value = true) :
    maskKeyedValue r key value = r.maskString value := by
  simp [maskKeyedValue, h]

variable {isBase64 : Bool} {l l' : List Json} {w : Json} {β : Type}

theorem payloadOf_eq_some (h : payloadOf secret key = some isBase64) :
    secret = true ∧ (key = bytes "data" ∨ key = bytes "stringData") := by
  unfold payloadOf at h
  split at h
  next hdata => simp_all
  next =>
    split at h
    next hstring => simp_all
    next => cases h

theorem stripped_of_other {toLower : GoString → GoString}
    (h : parentKey ∉ [bytes "metadata", bytes "annotations", bytes "status", bytes "conditions",
      bytes "ownerReferences"] ++ containerStatusKeys) (key : GoString) :
    stripped toLower parentKey key = false := by
  simp only [List.cons_append, List.nil_append, List.mem_cons, not_or] at h
  obtain ⟨hmetadata, hannotations, hstatus, hconditions, howners, hcontainers⟩ := h
  simp [stripped, hmetadata, hannotations, hstatus, hconditions, howners, hcontainers]

/-- The walk of a masked payload keeps its keys and masks the redactions once more. -/
theorem sanitize_payload (payload : Fields) (hkey : key = bytes "data" ∨ key = bytes "stringData") :
    sanitizeValue r parentKey key (maskPayload isBase64 (.map payload)) =
      .map (payload.map fun p => (p.1, .str (r.maskString (payloadText isBase64 p.2)))) := by
  have hstrip : ∀ k, stripped r.toLower key k = false := by
    intro k
    rcases hkey with rfl | rfl
    · exact stripped_of_other (by simp [containerStatusKeys, bytes_inj]) k
    · exact stripped_of_other (by simp [containerStatusKeys, bytes_inj]) k
  have hparent : ¬key = bytes "annotations" := by
    rcases hkey with rfl | rfl <;> simp [bytes_inj]
  rw [maskPayload, sanitizeValue, sanitizeMap_filterMap, List.filterMap_map]
  generalize isSecretMap _ = secret
  rw [← List.filterMap_eq_map']
  congr 1
  apply List.filterMap_congr
  rintro ⟨k, v⟩ -
  have hshield : ∀ t, shield secret k (.str t) = .str t := fun t => shield_of_plain (by simp)
  simp [sanitizeField, hstrip, hshield, sanitizeValue, hparent, elidable,
    maskKeyedValue_redacted r (payloadText_isPrefix isBase64 v)]

/-! ## Payloads -/

/-- What is left of two Secret values of equal length tells them apart just if one of them
    is not shielded. -/
theorem payloadText_eq_iff (h : SameLength isBase64 v v') :
    payloadText isBase64 v = payloadText isBase64 v' ↔ ShieldedPair isBase64 v v' := by
  cases v
  case str s =>
    cases v'
    case str s' =>
      have hlen : decodedLen isBase64 s = decodedLen isBase64 s' := by simpa [SameLength] using h
      simp only [payloadText, ShieldedPair, Shielded]
      split <;> split <;> grind
    all_goals exact absurd h (by simp [SameLength])
  all_goals
    cases v'
    case str s' => exact absurd h (by simp [SameLength])
    all_goals simp [payloadText, ShieldedPair]

theorem sameLength_refl (isBase64 : Bool) (v : Json) : SameLength isBase64 v v := by
  cases v <;> simp [SameLength]

/-- The values of alike maps have equal lengths where they are strings. -/
theorem samePayload_of_alike (h : List.Forall₂ (FieldAlike secret) m m') :
    SamePayload isBase64 m m' := by
  refine h.imp ?_
  rintro ⟨k, v⟩ ⟨k', v'⟩ ⟨hkey, hv⟩
  refine ⟨hkey, ?_⟩
  simp only at hv
  split at hv
  next => trivial
  next =>
    cases hv.view with
    | same _ _ => exact sameLength_refl isBase64 _
    | list _ => trivial
    | map _ => trivial

/-! ## The rules for lists -/

variable {s k' text : GoString} {α : Type}

theorem Json.Alike.of_str (h : (str s).Alike v') : v' = .str s := by
  cases h.view with
  | same _ _ => rfl

theorem Json.Alike.of_str' (h : v.Alike (.str s)) : v = .str s := by
  cases h.view with
  | same _ _ => rfl

/-- A field that is not a map is compared by its value. -/
theorem fieldAlike_iff (h : (∀ m, v ≠ .map m) ∨ ∀ m, v' ≠ .map m) :
    FieldAlike secret (k, v) (k', v') ↔ k = k' ∧ v.Alike v' := by
  unfold FieldAlike
  cases payloadOf secret k <;> cases v <;> cases v' <;> simp_all

theorem fieldGuarded_iff (h : (∀ m, v ≠ .map m) ∨ ∀ m, v' ≠ .map m) :
    FieldGuarded toLower parentKey secret (k, v) (k', v') ↔
      k = k' ∧ (stripped toLower parentKey k = true ∨ v.Guarded toLower k v') := by
  unfold FieldGuarded
  cases payloadOf secret k <;> cases v <;> cases v' <;> simp_all

theorem guarded_str (key s : GoString) : (str s).Guarded toLower key (.str s) := by
  simp [Guarded]

theorem alike_str (s : GoString) : (str s).Alike (.str s) := by
  simp [Alike]

theorem setTextField_of_not_str (h : ∀ s, v ≠ .str s) : setTextField key text (k, v) = (k, v) := by
  cases v <;> simp_all [setTextField]

/-- A field with a string is alike, and guarded, only by being the same. -/
theorem setText_field (h : FieldAlike secret p p') (key text parentKey : GoString) (secret' : Bool) :
    FieldAlike secret (setTextField key text p) (setTextField key text p') ∧
      (FieldGuarded toLower parentKey secret' (setTextField key text p) (setTextField key text p') ↔
        FieldGuarded toLower parentKey secret' p p') := by
  obtain ⟨k, v⟩ := p
  obtain ⟨k', v'⟩ := p'
  by_cases hstr : ∃ s, v = .str s
  · obtain ⟨s, rfl⟩ := hstr
    have hmap : ∀ t m, str t ≠ .map m := by simp
    obtain ⟨rfl, hv⟩ := (fieldAlike_iff (Or.inl (hmap s))).mp h
    rw [hv.of_str]
    simp only [setTextField]
    refine ⟨(fieldAlike_iff (Or.inl (hmap _))).mpr ⟨rfl, alike_str _⟩, ?_⟩
    rw [fieldGuarded_iff toLower (Or.inl (hmap _)), fieldGuarded_iff toLower (Or.inl (hmap _))]
    exact iff_of_true ⟨rfl, Or.inr (guarded_str toLower k _)⟩ ⟨rfl, Or.inr (guarded_str toLower k s)⟩
  · have hnot : ∀ s, v ≠ .str s := fun s hs => hstr ⟨s, hs⟩
    have hnot' : ∀ s, v' ≠ .str s := by
      rintro s rfl
      have hv := ((fieldAlike_iff (Or.inr (by simp))).mp h).2
      exact hstr ⟨s, hv.of_str'⟩
    rw [setTextField_of_not_str hnot, setTextField_of_not_str hnot']
    exact ⟨h, Iff.rfl⟩

theorem lookup_setText (m : Fields) (key text k : GoString) :
    (setText m key text).lookup k = (m.lookup k).map fun v => match v with
      | .str s => .str (if k = key then text else s)
      | v => v := by
  induction m with
  | nil => rfl
  | cons p m ih =>
    obtain ⟨k₀, v⟩ := p
    unfold setText at ih ⊢
    by_cases hk : k = k₀
    · subst hk
      cases v <;> simp [setTextField]
    · have hne : (k == k₀) = false := by simpa using hk
      cases v <;> simp [setTextField, List.lookup_cons, hne, ih]

theorem textAt_setText (hk : k ≠ key) : textAt (setText m key text) k = textAt m k := by
  rw [textAt, textAt, lookup_setText]
  cases m.lookup k with
  | none => rfl
  | some v => cases v <;> simp [hk]

theorem mapAt_setText : mapAt (setText m key text) k = mapAt m k := by
  rw [mapAt, mapAt, lookup_setText]
  cases m.lookup k with
  | none => rfl
  | some v => cases v <;> simp

theorem isSecretMap_setValue (m : Fields) (text : GoString) :
    isSecretMap (setText m (bytes "value") text) = isSecretMap m := by
  have hkind : bytes "kind" ≠ bytes "value" := bytes_inj.not.2 (by decide)
  have htype : bytes "type" ≠ bytes "value" := bytes_inj.not.2 (by decide)
  simp only [isSecretMap, textAt_setText hkind, textAt_setText htype, mapAt_setText]

theorem secretKind_setValue (m : Fields) (text : GoString) :
    secretKind (setText m (bytes "value") text) = secretKind m := by
  have hkind : bytes "kind" ≠ bytes "value" := bytes_inj.not.2 (by decide)
  rw [secretKind, secretKind, textAt_setText hkind]

/-- The rule for environment variables treats alike entries alike. -/
theorem maskEnvEntry_cases (h : List.Forall₂ (FieldAlike secret) m m') :
    (maskEnvEntry r m = m ∧ maskEnvEntry r m' = m') ∨
      (maskEnvEntry r m = setText m (bytes "value") redacted ∧
        maskEnvEntry r m' = setText m' (bytes "value") redacted) := by
  have hvalue : payloadOf secret (bytes "value") = none := payloadOf_other secret (by decide)
  have hname : payloadOf secret (bytes "name") = none := payloadOf_other secret (by decide)
  unfold maskEnvEntry
  rw [← textAt_alike h hvalue, ← textAt_alike h hname]
  split
  · exact Or.inl ⟨rfl, rfl⟩
  split
  · exact Or.inl ⟨rfl, rfl⟩
  split
  · exact Or.inr ⟨rfl, rfl⟩
  · exact Or.inl ⟨rfl, rfl⟩

theorem forall₂_map_iff {R S : α → α → Prop} {f : α → α} {l l' : List α}
    (h : List.Forall₂ (fun a a' => S (f a) (f a') ↔ R a a') l l') :
    List.Forall₂ S (l.map f) (l'.map f) ↔ List.Forall₂ R l l' := by
  induction h with
  | nil => simp
  | cons hhead _ ih => simp only [List.map_cons, List.forall₂_cons, hhead, ih]

/-- An element of a list before and after a rule, with its partner. -/
structure KeptItem (key : GoString) (f : Json → Json) (v v' : Json) : Prop where
  alike : (f v).Alike (f v')
  guarded : ItemGuarded toLower key (f v) (f v') ↔ ItemGuarded toLower key v v'

/-- A list `l` that came from `items`, with its partner. -/
structure KeptItems (key : GoString) (items items' l l' : List Json) : Prop where
  alike : List.Forall₂ Alike l l'
  guarded : List.Forall₂ (ItemGuarded toLower key) l l' ↔
    List.Forall₂ (ItemGuarded toLower key) items items'

/-- What the rule for environment variables does to an element. -/
def maskEnvItem (e : Json) : Json :=
  match e with
  | .map entry => .map (maskEnvEntry r entry)
  | e => e

theorem keptItem_env (key : GoString) (h : v.Alike v') :
    KeptItem toLower key (maskEnvItem r) v v' := by
  cases h.view with
  | @same v _ hmap =>
    have hkeep : maskEnvItem r v = v := by cases v <;> simp_all [maskEnvItem]
    exact ⟨by rwa [hkeep], by rw [hkeep]⟩
  | list _ => exact ⟨h, Iff.rfl⟩
  | @map m m' hm =>
    rcases maskEnvEntry_cases r hm with ⟨hr, hr'⟩ | ⟨hr, hr'⟩
    · exact ⟨by simpa [maskEnvItem, hr, hr'] using h, by simp only [maskEnvItem, hr, hr']⟩
    · have hfields : List.Forall₂ (FieldAlike (secretKind m))
          (setText m (bytes "value") redacted) (setText m' (bytes "value") redacted) := by
        rw [setText, setText, List.forall₂_map_left_iff, List.forall₂_map_right_iff]
        exact hm.imp fun _ _ hp => (setText_field toLower hp _ _ [] true).1
      constructor
      · simp only [maskEnvItem, hr, hr', Alike, secretKind_setValue]
        exact alikeFields_iff.mpr hfields
      · simp only [maskEnvItem, hr, hr', ItemGuarded, Guarded, isSecretMap_setValue]
        rw [guardedFields_iff, guardedFields_iff, setText, setText]
        exact forall₂_map_iff (hm.imp fun _ _ hp => (setText_field toLower hp _ _ key _).2)

theorem maskEnvEntries_kept (key : GoString) (h : List.Forall₂ Alike items items') :
    KeptItems toLower key items items' (maskEnvEntries r items) (maskEnvEntries r items') := by
  have hmap : ∀ l, maskEnvEntries r l = l.map (maskEnvItem r) := fun l => rfl
  rw [hmap, hmap]
  constructor
  · rw [List.forall₂_map_left_iff, List.forall₂_map_right_iff]
    exact h.imp fun _ _ hv => (keptItem_env toLower r key hv).alike
  · exact forall₂_map_iff (h.imp fun _ _ hv => (keptItem_env toLower r key hv).guarded)

theorem KeptItems.cons {w' : Json} (h : KeptItems toLower key items items' l l') (hw : w.Alike w')
    (hguarded : ItemGuarded toLower key w w' ↔ ItemGuarded toLower key v v') :
    KeptItems toLower key (v :: items) (v' :: items') (w :: l) (w' :: l') :=
  ⟨.cons hw h.alike, by rw [List.forall₂_cons, List.forall₂_cons, hguarded, h.guarded]⟩

theorem KeptItems.str (h : KeptItems toLower key items items' l l') (s t : GoString) :
    KeptItems toLower key (.str s :: items) (.str s :: items') (.str t :: l) (.str t :: l') :=
  h.cons toLower (alike_str t) (iff_of_true (guarded_str toLower key t) (guarded_str toLower key s))

theorem maskFlagValuePairs_kept (key : GoString) (h : List.Forall₂ Alike items items') :
    KeptItems toLower key items items' (maskFlagValuePairs r items)
      (maskFlagValuePairs r items') := by
  induction items using maskFlagValuePairs.induct r generalizing items' with
  | case1 s value rest hflag ih =>
    cases h with
    | cons hs h =>
      cases h with
      | cons hvalue hrest =>
        rw [hs.of_str, hvalue.of_str]
        simp only [maskFlagValuePairs, hflag]
        exact ((ih hrest).str toLower value redacted).str toLower s s
  | case2 s value rest hflag ih =>
    cases h with
    | cons hs h =>
      have hrest := h
      cases h with
      | cons hvalue _ =>
        rw [hs.of_str, hvalue.of_str] at *
        simp only [maskFlagValuePairs, hflag]
        exact (ih hrest).str toLower s s
  | case3 v rest hother ih =>
    cases h with
    | @cons _ v' _ rest' hv hrest =>
      have hother' : ∀ s value tail, v' = .str s → rest' = .str value :: tail → False := by
        rintro s value tail rfl rfl
        cases hrest with
        | @cons w _ tail' _ hw _ =>
          exact hother s value tail' hv.of_str' (by rw [hw.of_str'])
      rw [maskFlagValuePairs.eq_2 r v rest hother, maskFlagValuePairs.eq_2 r v' rest' hother']
      exact (ih hrest).cons toLower hv Iff.rfl
  | case4 =>
    cases h
    exact ⟨.nil, Iff.rfl⟩

/-- The rules for a list as a whole treat alike lists alike. -/
theorem maskList_kept (listKey key : GoString) (h : List.Forall₂ Alike items items') :
    KeptItems toLower key items items' (maskList r listKey items) (maskList r listKey items') := by
  have henv : KeptItems toLower key items items'
      (if listKey = bytes "env" then maskEnvEntries r items else items)
      (if listKey = bytes "env" then maskEnvEntries r items' else items') := by
    split
    · exact maskEnvEntries_kept toLower r key h
    · exact ⟨h, Iff.rfl⟩
  unfold maskList
  simp only
  split
  · obtain ⟨halike, hguarded⟩ := maskFlagValuePairs_kept toLower r key henv.alike
    exact ⟨halike, hguarded.trans henv.guarded⟩
  · exact henv

/-! ## Alike objects are rendered alike just if they are guarded -/

/-- What the walk makes of two values, where one is wanted for the other. -/
structure Rendered (w w' : Json) (guarded : Prop) : Prop where
  elided : elidable w = elidable w'
  blank : elidable w = true → w = w'
  hidden : guarded → w = w'
  shown : r.maskString = id → w = w' → guarded

theorem rendered_same (h : guarded) : Rendered r w w guarded :=
  ⟨rfl, fun _ => rfl, fun _ => rfl, fun _ _ => h⟩

theorem elidable_list (items : List Json) : elidable (.list items) = true ↔ items = [] := by
  cases items <;> simp [elidable]

theorem elidable_map (m : Fields) : elidable (.map m) = true ↔ m = [] := by
  cases m <;> simp [elidable]

/-- Two loops that keep the same elements give the same list just if they agree on each. -/
theorem filterMap_eq_iff {f g : α → Option β} {l l' : List α}
    (h : List.Forall₂ (fun a a' => (f a).isSome = (g a').isSome) l l') :
    (l.filterMap f = l'.filterMap g ↔ List.Forall₂ (fun a a' => f a = g a') l l') ∧
      (l.filterMap f = [] ↔ l'.filterMap g = []) := by
  induction h with
  | nil => simp
  | @cons a a' l l' hhead _ ih =>
    rw [List.filterMap_cons, List.filterMap_cons, List.forall₂_cons]
    cases ha : f a with
    | none =>
      have ha' : g a' = none := by simpa [ha] using hhead
      simp [ha', ih.1, ih.2]
    | some b =>
      obtain ⟨b', ha'⟩ : ∃ b', g a' = some b' := Option.isSome_iff_exists.mp (by simpa [ha] using hhead.symm)
      simp [ha', ih.1]

/-- A list or a map is elided just if it is empty, so what is left of its elements decides. -/
theorem rendered_filterMap {G : α → α → Prop} {f : α → Option β} {wrap : List β → Json}
    {l l' : List α} (hwrap : Function.Injective wrap)
    (helide : ∀ l, elidable (wrap l) = true ↔ l = [])
    (h : List.Forall₂ (fun a a' => (f a).isSome = (f a').isSome ∧ (G a a' → f a = f a') ∧
      (r.maskString = id → f a = f a' → G a a')) l l') :
    Rendered r (wrap (l.filterMap f)) (wrap (l'.filterMap f)) (List.Forall₂ G l l') := by
  obtain ⟨heq, hnil⟩ := filterMap_eq_iff (h.imp fun _ _ ha => ha.1)
  refine ⟨?_, fun hblank => ?_, fun hg => ?_, fun hid hsame => ?_⟩
  · rw [Bool.eq_iff_iff, helide, helide, hnil]
  · rw [(helide _).mp hblank, hnil.mp ((helide _).mp hblank)]
  · rw [heq.mpr (List.Forall₂.mp (fun _ _ ha => ha.2.1) h hg)]
  · exact List.Forall₂.mp (fun _ _ ha => ha.2.2 hid) h (heq.mp (hwrap hsame))

/-- What the walk leaves of two fields. -/
structure RenderedField (o o' : Option (GoString × Json)) (guarded : Prop) : Prop where
  kept : o.isSome = o'.isSome
  hidden : guarded → o = o'
  shown : r.maskString = id → o = o' → guarded

/-- A field that is not stripped is rendered as its value is. -/
theorem renderedField_of_value (hstrip : stripped r.toLower parentKey k = false)
    (h : Rendered r (sanitizeValue r parentKey k (shield secret k v))
      (sanitizeValue r parentKey k (shield secret k v')) guarded) :
    RenderedField r (sanitizeField r parentKey secret (k, v))
      (sanitizeField r parentKey secret (k, v')) guarded := by
  simp only [sanitizeField, hstrip]
  rw [← h.elided]
  generalize sanitizeValue r parentKey k (shield secret k v) = w at h ⊢
  generalize sanitizeValue r parentKey k (shield secret k v') = w' at h ⊢
  by_cases hdrop : (elidable w && decide (k ≠ bytes "emptyDir")) = true
  · rw [if_pos hdrop, if_pos hdrop]
    have hblank : elidable w = true := (Bool.and_eq_true_iff.mp hdrop).1
    exact ⟨rfl, fun _ => rfl, fun hid _ => h.shown hid (h.blank hblank)⟩
  · rw [if_neg hdrop, if_neg hdrop]
    refine ⟨rfl, fun hg => by rw [h.hidden hg], fun hid heq => h.shown hid ?_⟩
    exact (Prod.mk.inj (Option.some.inj heq)).2

theorem renderedField_payload {payload payload' : Fields}
    (hpay : payloadOf secret k = some isBase64) (hstrip : stripped r.toLower parentKey k = false)
    (h : SamePayload isBase64 payload payload') :
    RenderedField r (sanitizeField r parentKey secret (k, .map payload))
      (sanitizeField r parentKey secret (k, .map payload'))
      (FieldGuarded r.toLower parentKey secret (k, .map payload) (k, .map payload')) := by
  have hguard : FieldGuarded r.toLower parentKey secret (k, .map payload) (k, .map payload') ↔
      ShieldedPayload isBase64 payload payload' := by
    simp [FieldGuarded, hpay, hstrip]
  have hshield : ∀ m, sanitizeValue r parentKey k (shield secret k (.map m)) =
      .map (m.map fun p => (p.1, .str (r.maskString (payloadText isBase64 p.2)))) := by
    intro m
    rw [shield, hpay]
    exact sanitize_payload r m (payloadOf_eq_some hpay).2
  rw [hguard]
  refine renderedField_of_value r hstrip ?_
  rw [hshield, hshield, ← List.filterMap_eq_map']
  refine rendered_filterMap r (fun _ _ => map.inj) elidable_map (h.imp ?_)
  rintro p p' ⟨hkey, hlen⟩
  refine ⟨rfl, fun hp => ?_, fun hid heq => ⟨hkey, (payloadText_eq_iff hlen).mp ?_⟩⟩
  · rw [hkey, (payloadText_eq_iff hlen).mpr hp.2]
  · simpa [hid, hkey] using heq

/-- The values of two alike fields are alike, or two payloads. -/
theorem FieldAlike.value (h : FieldAlike secret (k, v) (k', v')) :
    v.Alike v' ∨ ∃ isBase64 payload payload', payloadOf secret k = some isBase64 ∧
      v = .map payload ∧ v' = .map payload' ∧ SamePayload isBase64 payload payload' := by
  obtain ⟨-, hv⟩ := h
  simp only at hv
  split at hv
  next isBase64 payload payload' hpay => exact Or.inr ⟨isBase64, payload, payload', hpay, rfl, rfl, hv⟩
  next => exact Or.inl hv

/-- A map of kind Secret is masked as one. -/
theorem payloadOf_mono (hsecret : secret = true → secret' = true)
    (h : payloadOf secret k = some isBase64) : payloadOf secret' k = some isBase64 := by
  have htrue := (payloadOf_eq_some h).1
  rw [hsecret htrue, ← htrue]
  exact h

section Walk

-- The walk of the values of at most `n` nodes.
variable {n : Nat} (ih : ∀ v v' : Json, ∀ parentKey key, v.nodes ≤ n → v.Alike v' →
  Rendered r (sanitizeValue r parentKey key v) (sanitizeValue r parentKey key v')
    (v.Guarded r.toLower key v'))

include ih

theorem renderedField_alike (hsecret : secret = true → secret' = true) (hsize : p.2.nodes ≤ n)
    (h : FieldAlike secret p p') :
    RenderedField r (sanitizeField r parentKey secret' p) (sanitizeField r parentKey secret' p')
      (FieldGuarded r.toLower parentKey secret' p p') := by
  obtain ⟨k, v⟩ := p
  obtain ⟨k', v'⟩ := p'
  obtain rfl : k = k' := h.1
  cases hstrip : stripped r.toLower parentKey k with
  | true =>
    simp only [sanitizeField, hstrip]
    exact ⟨rfl, fun _ => rfl, fun _ _ => ⟨rfl, Or.inl hstrip⟩⟩
  | false =>
    -- A value that is not a payload is walked as it is.
    have hplain (hv : v.Alike v')
        (hnot : payloadOf secret' k = none ∨ ∀ m, v ≠ .map m ∧ v' ≠ .map m) :
        RenderedField r (sanitizeField r parentKey secret' (k, v))
          (sanitizeField r parentKey secret' (k, v'))
          (FieldGuarded r.toLower parentKey secret' (k, v) (k, v')) := by
      have hguard : FieldGuarded r.toLower parentKey secret' (k, v) (k, v') ↔
          v.Guarded r.toLower k v' := by
        rcases hnot with hpay | hmap
        · simp [FieldGuarded, hpay, hstrip]
        · simp [fieldGuarded_iff r.toLower (Or.inl fun m => (hmap m).1), hstrip]
      rw [hguard]
      refine renderedField_of_value r hstrip ?_
      rw [shield_of_plain (hnot.imp_right fun hmap m => (hmap m).1),
        shield_of_plain (hnot.imp_right fun hmap m => (hmap m).2)]
      exact ih v v' parentKey k hsize hv
    cases hpay : payloadOf secret' k with
    | none =>
      have hv : v.Alike v' := by
        rcases h.value with hv | ⟨isBase64, _, _, hsome, -⟩
        · exact hv
        · rw [payloadOf_mono hsecret hsome] at hpay
          cases hpay
      exact hplain hv (Or.inl hpay)
    | some isBase64 =>
      rcases h.value with hv | ⟨isBase64', payload, payload', hsome, rfl, rfl, hsame⟩
      · cases hv.view with
        | same _ hmap => exact hplain hv (Or.inr fun m => ⟨hmap m, hmap m⟩)
        | list _ => exact hplain hv (Or.inr (by simp))
        | map hm => exact renderedField_payload r hpay hstrip (samePayload_of_alike hm)
      · obtain rfl : isBase64' = isBase64 := by
          rw [payloadOf_mono hsecret hsome] at hpay
          exact Option.some.inj hpay
        exact renderedField_payload r hpay hstrip hsame

theorem rendered_alikeMap (hsize : nodesFields m ≤ n)
    (hsecret : secret = true → isSecretMap m = true) (h : List.Forall₂ (FieldAlike secret) m m') :
    Rendered r (.map (sanitizeMap r m key)) (.map (sanitizeMap r m' key))
      (GuardedFields r.toLower key (isSecretMap m) m m') := by
  rw [sanitizeMap_filterMap, sanitizeMap_filterMap, ← isSecretMap_alike h, guardedFields_iff]
  have hsmall : ∀ p ∈ m, p.2.nodes ≤ n := by
    intro p hp
    have := nodes_lt_of_mem hp
    omega
  refine rendered_filterMap r (fun _ _ => map.inj) elidable_map
    (((List.forall₂_and_left _ _).mpr ⟨hsmall, h⟩).imp ?_)
  rintro p p' ⟨hp, halike⟩
  have hfield : RenderedField r (sanitizeField r key _ p) _ _ :=
    renderedField_alike r ih hsecret hp halike
  exact ⟨hfield.kept, hfield.hidden, hfield.shown⟩

/-- What the walk makes of two elements of a list. -/
structure RenderedItem (key : GoString) (v v' : Json) : Prop where
  hidden : ItemGuarded r.toLower key v v' → sanitizeItem r key v = sanitizeItem r key v'
  shown : r.maskString = id → sanitizeItem r key v = sanitizeItem r key v' →
    ItemGuarded r.toLower key v v'

/-- An element of a list is walked only if it is a map or a string. -/
theorem renderedItem_alike (hsize : v.nodes ≤ n) (h : v.Alike v') : RenderedItem r key v v' := by
  cases h.view with
  | @same v hlist hmap =>
    refine ⟨fun _ => rfl, fun _ _ => ?_⟩
    cases v <;> simp_all [ItemGuarded, Guarded]
  | list _ => constructor <;> simp [ItemGuarded, sanitizeItem]
  | @map m m' hm =>
    have hrendered := ih _ _ [] key hsize h
    rw [sanitizeValue, sanitizeValue] at hrendered
    exact ⟨hrendered.hidden, hrendered.shown⟩

theorem rendered_alikeList (hsize : nodesItems items ≤ n) (h : List.Forall₂ Alike items items') :
    Rendered r (sanitizeValue r parentKey key (.list items))
      (sanitizeValue r parentKey key (.list items'))
      (GuardedItems r.toLower key items items') := by
  obtain ⟨halike, hguarded⟩ := maskList_kept r.toLower r key key h
  rw [sanitizeValue_list, sanitizeValue_list, guardedItems_iff, ← hguarded]
  have hmasked := nodes_maskList_le r key items
  generalize maskList r key items = l at halike hmasked
  generalize maskList r key items' = l' at halike
  have hitems : List.Forall₂ (RenderedItem r key) l l' := by
    have hsmall : ∀ v ∈ l, v.nodes ≤ n := by
      intro v hv
      have := nodes_le_of_mem hv
      omega
    refine ((List.forall₂_and_left _ _).mpr ⟨hsmall, halike⟩).imp ?_
    rintro v v' ⟨hv, hvv⟩
    exact renderedItem_alike r ih hv hvv
  rw [← List.filterMap_eq_map']
  refine rendered_filterMap r (fun _ _ => list.inj) elidable_list (hitems.imp fun v v' hv => ?_)
  exact ⟨rfl, fun hg => congrArg some (hv.hidden hg), fun hid heq => hv.shown hid (Option.some.inj heq)⟩

end Walk

theorem rendered_alike (n : Nat) : ∀ v v' : Json, ∀ parentKey key, v.nodes ≤ n → v.Alike v' →
    Rendered r (sanitizeValue r parentKey key v) (sanitizeValue r parentKey key v')
      (v.Guarded r.toLower key v') := by
  induction n with
  | zero =>
    intro v _ _ _ hsize
    have := nodes_pos v
    omega
  | succ n ih =>
    intro v v' parentKey key hsize h
    cases h.view with
    | @same v hlist hmap =>
      refine rendered_same r ?_
      cases v <;> simp_all [Guarded]
    | @list items items' hitems =>
      refine rendered_alikeList r ih ?_ hitems
      rw [nodes] at hsize
      omega
    | @map m m' hm =>
      rw [Guarded, sanitizeValue, sanitizeValue]
      refine rendered_alikeMap r ih ?_ isSecretMap_of_kind hm
      rw [nodes] at hsize
      omega

/-! ## Whole objects -/

/-- The rules with another general mask. -/
def Rules.withMask (mask : GoString → GoString) : Rules := { r with maskString := mask }

/-- A Secret with one value. -/
def secretOf (value : String) : Fields :=
  [(bytes "kind", .str (bytes "Secret")),
    (bytes "stringData", .map [(bytes "token", .str (bytes value))])]

theorem alike_secretOf {value value' : String}
    (h : (bytes value).length = (bytes value').length) :
    AlikeFields (secretKind (secretOf value)) (secretOf value) (secretOf value') := by
  have hkind : secretKind (secretOf value) = true := by
    simp [secretKind, secretOf, textAt]
  rw [hkind, alikeFields_iff]
  refine .cons ⟨rfl, ?_⟩ (.cons ⟨rfl, ?_⟩ .nil)
  · simp only [payloadOf_kind]
    exact alike_str _
  · simp only [payloadOf_stringData]
    exact .cons ⟨rfl, by simpa [SameLength, decodedLen] using h⟩ .nil

/-- The rules without any heuristic. -/
def plainRules : Rules where
  toLower := id
  secretShaped _ := false
  credentialFlagName _ := false
  maskString := id

/-- Two objects that differ only in the values of Secrets, of equal lengths, are rendered
    alike whatever the general mask just if the values that differ are guarded. -/
theorem secret_values_hidden_iff {x y : Fields} (h : AlikeFields (secretKind x) x y) :
    (∀ mask, sanitizeUnstructured (r.withMask mask) x =
        sanitizeUnstructured (r.withMask mask) y) ↔
      GuardedFields r.toLower [] (isSecretMap x) x y := by
  have hrendered : ∀ mask, Rendered (r.withMask mask)
      (.map (sanitizeUnstructured (r.withMask mask) x))
      (.map (sanitizeUnstructured (r.withMask mask) y))
      (GuardedFields r.toLower [] (isSecretMap x) x y) := by
    intro mask
    exact rendered_alikeMap (r.withMask mask) (rendered_alike (r.withMask mask) _) le_rfl
      isSecretMap_of_kind (alikeFields_iff.mp h)
  constructor
  · intro hsame
    exact (hrendered id).shown rfl (by rw [hsame])
  · intro hguarded mask
    exact map.inj ((hrendered mask).hidden hguarded)

theorem short_tokens_hidden :
    AlikeFields (secretKind (secretOf "s3cret")) (secretOf "s3cret") (secretOf "hunter") ∧
      ∀ mask, sanitizeUnstructured (plainRules.withMask mask) (secretOf "s3cret") =
        sanitizeUnstructured (plainRules.withMask mask) (secretOf "hunter") := by
  have halike : AlikeFields (secretKind (secretOf "s3cret")) (secretOf "s3cret")
      (secretOf "hunter") := alike_secretOf (by decide +kernel)
  refine ⟨halike, (secret_values_hidden_iff plainRules halike).mpr ?_⟩
  have hsecret : isSecretMap (secretOf "s3cret") = true := by decide +kernel
  rw [hsecret, guardedFields_iff]
  refine .cons ⟨rfl, Or.inr ?_⟩ (.cons ⟨rfl, Or.inr ?_⟩ .nil)
  · simp only [payloadOf_kind]
    exact guarded_str _ _ _
  · simp only [payloadOf_stringData]
    have hlooks : looksRedacted (bytes "s3cret") = false := by decide +kernel
    have hlooks' : looksRedacted (bytes "hunter") = false := by decide +kernel
    exact .cons ⟨rfl, Or.inr ⟨Or.inl hlooks, Or.inl hlooks'⟩⟩ .nil

mutual

/-- The strings of a value. -/
def Json.texts : Json → List GoString
  | .str s => [s]
  | .list items => textsItems items
  | .map m => textsFields m
  | _ => []

def textsItems : List Json → List GoString
  | [] => []
  | v :: items => v.texts ++ textsItems items

def textsFields : List (GoString × Json) → List GoString
  | [] => []
  | (_, v) :: m => v.texts ++ textsFields m

end

/-- A Secret in a list that is an element of a list is rendered as it is. -/
theorem secret_in_inner_list_shown :
    ∃ x y : Fields, AlikeFields (secretKind x) x y ∧
      bytes "s3cret" ∈ textsFields (sanitizeUnstructured plainRules x) ∧
      sanitizeUnstructured plainRules x ≠ sanitizeUnstructured plainRules y := by
  refine ⟨[(bytes "rows", .list [.list [.map (secretOf "s3cret")]])],
    [(bytes "rows", .list [.list [.map (secretOf "hunter")]])], ?_, by decide +kernel, ?_⟩
  · have hrows : ∀ secret, payloadOf secret (bytes "rows") = none :=
      fun secret => payloadOf_other secret (by decide)
    rw [alikeFields_iff]
    refine .cons ⟨rfl, ?_⟩ .nil
    simp only [hrows, Alike, AlikeItems, and_true]
    exact alike_secretOf (by decide +kernel)
  · intro heq
    have htexts := congrArg textsFields heq
    exact absurd htexts (by decide +kernel)

end Lookout.Emit
