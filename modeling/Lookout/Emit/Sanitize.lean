-- SUMMARY: The spec sanitizer: what of a JSON-shaped object may be rendered.
import Lookout.Graph.Types

/-!
# The spec sanitizer

Every object that is rendered passes the sanitizer first. It walks the whole object, masks
the payload of Secrets, masks credentials by the name of their key or the shape of their
value, and drops system metadata and empty values.

The rules that look at the shape of a value rest on regular expressions and an entropy
estimate. They are parameters here, and so is the mask that runs over every other string.
-/

namespace Lookout.Emit

/-! ## JSON-shaped objects -/

/-- A JSON value. The keys of a map are distinct. Numbers are kept as their text. -/
inductive Json where
  | null
  | bool (b : Bool)
  | num (text : GoString)
  | str (s : GoString)
  | list (items : List Json)
  | map (fields : List (GoString × Json))

abbrev Fields := List (GoString × Json)

mutual

/-- The size of a value, in which every string counts the same. -/
def Json.nodes : Json → Nat
  | .list items => nodesItems items + 1
  | .map fields => nodesFields fields + 1
  | _ => 1

def nodesItems : List Json → Nat
  | [] => 0
  | v :: items => v.nodes + nodesItems items

def nodesFields : List (GoString × Json) → Nat
  | [] => 0
  | (_, v) :: fields => v.nodes + 1 + nodesFields fields

end

theorem nodes_pos (v : Json) : 0 < v.nodes := by
  cases v <;> simp [Json.nodes]

theorem nodes_le_of_mem {v : Json} {items : List Json} (h : v ∈ items) :
    v.nodes ≤ nodesItems items := by
  induction items with
  | nil => cases h
  | cons w items ih =>
    rw [nodesItems]
    rcases List.mem_cons.mp h with rfl | hmem
    · omega
    · have := ih hmem
      omega

theorem nodes_lt_of_mem {p : GoString × Json} {fields : Fields} (h : p ∈ fields) :
    p.2.nodes < nodesFields fields := by
  induction fields with
  | nil => cases h
  | cons q fields ih =>
    rw [nodesFields]
    rcases List.mem_cons.mp h with rfl | hmem
    · omega
    · have := ih hmem
      omega

theorem nodesFields_filter_le (keep : GoString × Json → Bool) (fields : Fields) :
    nodesFields (fields.filter keep) ≤ nodesFields fields := by
  induction fields with
  | nil => rfl
  | cons p fields ih =>
    rw [List.filter_cons]
    split <;> simp only [nodesFields] <;> omega

/-- `m[key].(string)`. -/
def textAt (m : Fields) (key : GoString) : Option GoString :=
  match m.lookup key with
  | some (.str s) => some s
  | _ => none

/-- `m[key].(map[string]any)` succeeds. -/
def mapAt (m : Fields) (key : GoString) : Bool :=
  match m.lookup key with
  | some (.map _) => true
  | _ => false

/-! ## Redactions -/

def redacted : GoString := bytes "[REDACTED]"

def decimal (n : Nat) : GoString := (Nat.toDigits 10 n).map fun c => c.toNat.toUInt8

/-- A redaction that reports only a length. -/
def redactedLen (n : Nat) : GoString := bytes "[REDACTED:" ++ decimal n ++ bytes "B]"

/-- A value that reads like a redaction that reports a length. -/
def looksRedacted (s : GoString) : Bool :=
  (bytes "[REDACTED:").isPrefixOf s && (bytes "B]").isSuffixOf s

def base64Digit (b : UInt8) : Bool :=
  (65 ≤ b && b ≤ 90) || (97 ≤ b && b ≤ 122) || (48 ≤ b && b ≤ 57) || b == 43 || b == 47

/-- The length `base64.StdEncoding.DecodeString` decodes to. Line ends are skipped, the text
    is in groups of four, and one or two padding signs may end it. -/
def base64Len (s : GoString) : Option Nat :=
  let text := s.filter fun b => b ≠ 10 && b ≠ 13
  let pads := if (bytes "==").isSuffixOf text then 2 else if (bytes "=").isSuffixOf text then 1 else 0
  if text.length % 4 = 0 && (text.take (text.length - pads)).all base64Digit then
    some (text.length / 4 * 3 - pads)
  else none

/-- The length of the content of a Secret value. -/
def decodedLen (isBase64 : Bool) (s : GoString) : Nat :=
  if isBase64 then (base64Len s).getD s.length else s.length

/-! ## Key names -/

def isUpper (b : UInt8) : Bool := 65 ≤ b && b ≤ 90

def isLower (b : UInt8) : Bool := 97 ≤ b && b ≤ 122

def isAlnum (b : UInt8) : Bool := isLower b || isUpper b || (48 ≤ b && b ≤ 57)

/-- The words of a key, in lower case, split at signs and at a capital after a small letter.
    `word` is the word under way and `prev` the byte before. -/
def keyWordsFrom (word : GoString) (prev : UInt8) : GoString → List GoString
  | [] => if word = [] then [] else [word]
  | b :: rest =>
    if !isAlnum b then (if word = [] then [] else [word]) ++ keyWordsFrom [] b rest
    else if isUpper b && isLower prev then
      (if word = [] then [] else [word]) ++ keyWordsFrom [lowerByte b] b rest
    else keyWordsFrom (word ++ [lowerByte b]) b rest

def keyWords (key : GoString) : List GoString := keyWordsFrom [] 0 key

def strongCredentialWords : List GoString :=
  [bytes "password", bytes "passwd", bytes "pwd", bytes "passphrase", bytes "apikey"]

def strongCredentialPairs : List (GoString × GoString) :=
  [(bytes "api", bytes "key"), (bytes "client", bytes "secret"), (bytes "private", bytes "key"),
    (bytes "access", bytes "token"), (bytes "refresh", bytes "token"),
    (bytes "auth", bytes "token")]

def strongCredentialKey (key : GoString) : Bool :=
  let words := keyWords key
  words.any strongCredentialWords.contains ||
    (words.zip words.tail).any strongCredentialPairs.contains

def credentialWords : List GoString :=
  [bytes "password", bytes "passwd", bytes "pwd", bytes "pass", bytes "passphrase",
    bytes "secret", bytes "secrets", bytes "token", bytes "tokens", bytes "credential",
    bytes "credentials", bytes "creds", bytes "apikey", bytes "key", bytes "keys", bytes "auth",
    bytes "authorization", bytes "bearer"]

def credentialKey (key : GoString) : Bool := (keyWords key).any credentialWords.contains

def structuralKeys : List GoString := [bytes "subject_key", bytes "resource_key"]

def credentialFlagRefSuffixes : List GoString :=
  [bytes "-name", bytes "-ref", bytes "-file", bytes "-path", bytes "-dir", bytes "-id"]

/-! ## The rules -/

/-- What the sanitizer leaves to the standard library and its pattern tables. -/
structure Rules where
  /-- `strings.ToLower`. -/
  toLower : GoString → GoString
  /-- The value looks like key material. -/
  secretShaped : GoString → Bool
  /-- `reCredentialFlagName.MatchString`. -/
  credentialFlagName : GoString → Bool
  /-- `MaskString`. -/
  maskString : GoString → GoString

def hasPart (part s : GoString) : Bool := s.tails.any part.isPrefixOf

variable (r : Rules)

def credentialFlagIsRef (name : GoString) : Bool :=
  credentialFlagRefSuffixes.any fun suffix => suffix.isSuffixOf (r.toLower name)

def maskKeyedValue (key value : GoString) : GoString :=
  if value ≠ [] && !(bytes "[REDACTED").isPrefixOf value && !structuralKeys.contains key &&
      (strongCredentialKey key || (credentialKey key && r.secretShaped value)) then redacted
  else r.maskString value

def secretTypePrefixes : List GoString :=
  [bytes "kubernetes.io/", bytes "bootstrap.kubernetes.io/", bytes "helm.sh/"]

def isSecretMap (m : Fields) : Bool :=
  let kind := (textAt m (bytes "kind")).getD []
  if kind = bytes "Secret" then true
  else if kind ≠ [] then false
  else
    let t := (textAt m (bytes "type")).getD []
    (t = bytes "Opaque" || secretTypePrefixes.any (·.isPrefixOf t)) &&
      (mapAt m (bytes "data") || mapAt m (bytes "stringData"))

/-- What is left of one Secret value. -/
def payloadText (isBase64 : Bool) : Json → GoString
  | .str s => if looksRedacted s then s else redactedLen (decodedLen isBase64 s)
  | _ => redacted

def maskPayload (isBase64 : Bool) : Json → Json
  | .map payload => .map (payload.map fun p => (p.1, .str (payloadText isBase64 p.2)))
  | v => v

def maskSecretPayload (m : Fields) (field : GoString) (isBase64 : Bool) : Fields :=
  m.map fun p => if p.1 = field then (p.1, maskPayload isBase64 p.2) else p

def systemMetadataFields : List GoString :=
  [bytes "managedFields", bytes "resourceVersion", bytes "uid", bytes "generation",
    bytes "creationTimestamp", bytes "selfLink"]

def isAppliedConfigAnnotation (toLower : GoString → GoString) (key : GoString) : Bool :=
  let lk := toLower key
  key = bytes "kubectl.kubernetes.io/last-applied-configuration" ||
    lk = bytes "kapp.k14s.io/original" ||
    hasPart (bytes "last-applied") lk || hasPart (bytes "applied-config") lk ||
    hasPart (bytes "original-configuration") lk ||
    (((bytes "cattle.io/").isPrefixOf lk || hasPart (bytes ".cattle.io/") lk) &&
      (hasPart (bytes "applied") lk || hasPart (bytes "config") lk || hasPart (bytes "state") lk))

def containerStatusKeys : List GoString :=
  [bytes "containerStatuses", bytes "initContainerStatuses", bytes "ephemeralContainerStatuses"]

/-- The keys a map loses for the key it was found under. -/
def stripped (toLower : GoString → GoString) (parentKey key : GoString) : Bool :=
  if parentKey = bytes "metadata" then systemMetadataFields.contains key
  else if parentKey = bytes "annotations" then isAppliedConfigAnnotation toLower key
  else if parentKey = bytes "status" then key = bytes "observedGeneration"
  else if parentKey = bytes "conditions" then
    key = bytes "lastProbeTime" || key = bytes "lastHeartbeatTime"
  else if parentKey = bytes "ownerReferences" then key = bytes "uid"
  else if containerStatusKeys.contains parentKey then
    key = bytes "imageID" || key = bytes "containerID"
  else false

def setTextField (key text : GoString) : GoString × Json → GoString × Json
  | (k, .str s) => (k, .str (if k = key then text else s))
  | p => p

/-- `m[key] = text` where the map holds a string at the key. -/
def setText (m : Fields) (key text : GoString) : Fields := m.map (setTextField key text)

/-- An environment variable whose name or value is that of a credential loses its value. -/
def maskEnvEntry (entry : Fields) : Fields :=
  match textAt entry (bytes "value") with
  | none => entry
  | some value =>
    if value = [] then entry
    else if credentialKey ((textAt entry (bytes "name")).getD []) || r.secretShaped value then
      setText entry (bytes "value") redacted
    else entry

def maskEnvEntries (env : List Json) : List Json :=
  env.map fun e => match e with
    | .map entry => .map (maskEnvEntry r entry)
    | e => e

/-- A bare credential flag hides the string after it. -/
def maskFlagValuePairs : List Json → List Json
  | .str s :: .str value :: rest =>
    if r.credentialFlagName s && !credentialFlagIsRef r s then
      .str s :: .str redacted :: maskFlagValuePairs rest
    else .str s :: maskFlagValuePairs (.str value :: rest)
  | v :: rest => v :: maskFlagValuePairs rest
  | [] => []

/-- The rules for a list as a whole, by the key it stands under. -/
def maskList (key : GoString) (items : List Json) : List Json :=
  let items := if key = bytes "env" then maskEnvEntries r items else items
  if key = bytes "args" ∨ key = bytes "command" then maskFlagValuePairs r items else items

def elidable : Json → Bool
  | .null | .map [] | .list [] => true
  | _ => false

/-- The payload of a Secret masked, and the keys its position loses dropped. -/
def prepareMap (m : Fields) (parentKey : GoString) : Fields :=
  let m := if isSecretMap m then
    maskSecretPayload (maskSecretPayload m (bytes "data") true) (bytes "stringData") false else m
  m.filter fun p => !stripped r.toLower parentKey p.1

/-! ## The rules do not make an object larger -/

theorem nodesFields_map_le {f : GoString × Json → GoString × Json} {m : Fields}
    (h : ∀ p ∈ m, (f p).2.nodes ≤ p.2.nodes) : nodesFields (m.map f) ≤ nodesFields m := by
  induction m with
  | nil => rfl
  | cons p m ih =>
    have hp := h p List.mem_cons_self
    have hm := ih fun q hq => h q (List.mem_cons_of_mem p hq)
    simp only [List.map_cons, nodesFields]
    omega

theorem nodes_maskPayload_le (isBase64 : Bool) (v : Json) :
    (maskPayload isBase64 v).nodes ≤ v.nodes := by
  cases v with
  | map payload =>
    simp only [maskPayload, Json.nodes]
    have hle : nodesFields (payload.map fun p => (p.1, .str (payloadText isBase64 p.2))) ≤
        nodesFields payload := nodesFields_map_le fun p _ => nodes_pos p.2
    omega
  | _ => exact le_refl _

theorem nodes_maskSecretPayload_le (m : Fields) (field : GoString) (isBase64 : Bool) :
    nodesFields (maskSecretPayload m field isBase64) ≤ nodesFields m := by
  refine nodesFields_map_le fun p _ => ?_
  split
  · exact nodes_maskPayload_le isBase64 p.2
  · exact le_refl _

theorem nodes_prepareMap_le (m : Fields) (parentKey : GoString) :
    nodesFields (prepareMap r m parentKey) ≤ nodesFields m := by
  refine (nodesFields_filter_le _ _).trans ?_
  split
  · exact (nodes_maskSecretPayload_le _ _ _).trans (nodes_maskSecretPayload_le _ _ _)
  · exact le_refl _

theorem nodes_maskEnvEntry_le (entry : Fields) :
    nodesFields (maskEnvEntry r entry) ≤ nodesFields entry := by
  fun_cases maskEnvEntry with
  | case3 =>
    refine nodesFields_map_le fun p _ => ?_
    unfold setTextField
    split <;> exact le_refl _
  | _ => exact le_refl _

theorem nodes_maskEnvEntries_le (env : List Json) :
    nodesItems (maskEnvEntries r env) ≤ nodesItems env := by
  induction env with
  | nil => rfl
  | cons e env ih =>
    have he : (match e with
        | .map entry => Json.map (maskEnvEntry r entry)
        | e => e).nodes ≤ e.nodes := by
      cases e with
      | map entry =>
        have := nodes_maskEnvEntry_le r entry
        simp only [Json.nodes]
        omega
      | _ => exact le_refl _
    exact Nat.add_le_add he ih

theorem nodes_maskFlagValuePairs_le (items : List Json) :
    nodesItems (maskFlagValuePairs r items) ≤ nodesItems items := by
  induction items using maskFlagValuePairs.induct r with
  | case1 s value rest hflag ih => simpa [maskFlagValuePairs, hflag, nodesItems, Json.nodes] using ih
  | case2 s value rest hflag ih =>
    simpa [maskFlagValuePairs, hflag, nodesItems] using ih
  | case3 v rest hother ih =>
    rw [maskFlagValuePairs.eq_2 r v rest hother]
    simpa [nodesItems] using ih
  | case4 => exact le_refl _

theorem nodes_maskList_le (key : GoString) (items : List Json) :
    nodesItems (maskList r key items) ≤ nodesItems items := by
  unfold maskList
  simp only
  split
  · refine (nodes_maskFlagValuePairs_le r _).trans ?_
    split
    · exact nodes_maskEnvEntries_le r items
    · exact le_refl _
  · split
    · exact nodes_maskEnvEntries_le r items
    · exact le_refl _

/-! ## The walk -/

mutual

/-- One map level. `parentKey` is the key the map was found under. -/
def sanitizeMap (m : Fields) (parentKey : GoString) : Fields :=
  let walked := (prepareMap r m parentKey).attach.map fun ⟨p, _⟩ =>
    (p.1, sanitizeValue parentKey p.1 p.2)
  -- An empty `emptyDir` is a complete volume source.
  walked.filter fun p => !(elidable p.2 && p.1 ≠ bytes "emptyDir")
termination_by nodesFields m
decreasing_by
  have hmem := nodes_lt_of_mem ‹p ∈ prepareMap r m parentKey›
  have hle := nodes_prepareMap_le r m parentKey
  omega

def sanitizeValue (parentKey key : GoString) : Json → Json
  | .str s =>
    if parentKey = bytes "annotations" && s ≠ [] && credentialKey key then .str redacted
    else .str (maskKeyedValue r key s)
  | .map m => .map (sanitizeMap m key)
  | .list items =>
    -- An element that is itself a list is left as it is.
    .list ((maskList r key items).attach.map fun ⟨e, _⟩ => match e with
      | .map m => .map (sanitizeMap m key)
      | .str s => .str (r.maskString s)
      | e => e)
  | v => v
termination_by v => v.nodes
decreasing_by
  · simp [Json.nodes]
  · have hmem := nodes_le_of_mem ‹Json.map m ∈ maskList r key items›
    have hle := nodes_maskList_le r key items
    simp only [Json.nodes] at *
    omega

end

theorem sanitizeMap_eq (m : Fields) (parentKey : GoString) : sanitizeMap r m parentKey =
    ((prepareMap r m parentKey).map fun p => (p.1, sanitizeValue r parentKey p.1 p.2)).filter
      fun p => !(elidable p.2 && p.1 ≠ bytes "emptyDir") := by
  rw [sanitizeMap, ← List.attach_map_val
    (f := fun p : GoString × Json => (p.1, sanitizeValue r parentKey p.1 p.2))]

/-- An element of a list under `key`. -/
def sanitizeItem (key : GoString) : Json → Json
  | .map m => .map (sanitizeMap r m key)
  | .str s => .str (r.maskString s)
  | e => e

theorem sanitizeValue_list (parentKey key : GoString) (items : List Json) :
    sanitizeValue r parentKey key (.list items) =
      .list ((maskList r key items).map (sanitizeItem r key)) := by
  rw [sanitizeValue, ← List.attach_map_val (f := sanitizeItem r key)]
  congr 1
  apply List.map_congr_left
  rintro ⟨e, he⟩ -
  cases e <;> rfl

/-- `SanitizeUnstructured`. -/
def sanitizeUnstructured (u : Fields) : Fields := sanitizeMap r u []

end Lookout.Emit
