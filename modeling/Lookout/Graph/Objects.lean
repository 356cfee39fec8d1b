-- SUMMARY: The typed Kubernetes objects the graph ingests, the deltas that carry them, and the tracking of their changes.
import Lookout.Graph.Types

/-!
# Kubernetes objects

The objects `validateObject` accepts, with exactly the fields that edge
derivation and change tracking read. The API server rejects a namespace with a
`/` in it, and it gives no namespace to a Node or a Namespace. The metadata types
carry these two facts. All names are free text.

Label selectors belong to the Kubernetes client library, and so does what they
match. They are a parameter of the whole development, and so is the digest that
change tracking takes of ConfigMap and Secret contents.

The writer keeps a fingerprint of every object it has seen: names, hashes and counts, never
values. The changed-field summary of an update is the diff of two fingerprints.
-/

namespace Lookout

/-- The namespace of an API object: it has no `/`. -/
structure PathSegment where
  text : GoString
  noSlash : slash ∉ text
  deriving DecidableEq

/-- The namespace of a cluster-scoped object. -/
def PathSegment.empty : PathSegment := ⟨[], List.not_mem_nil⟩

/-- A Go `map[string]string` of labels. A nil map and an empty one read the same. -/
abbrev Labels : Type := Map GoString GoString

/-- What the writer takes from outside the repository: the label selectors of
    `k8s.io/apimachinery` and a digest. -/
class Platform where
  /-- `labels.Selector` -/
  Selector : Type
  /-- `metav1.LabelSelector` -/
  LabelSelector : Type
  /-- `labels.SelectorFromSet` -/
  selectorFromSet : Labels → Selector
  /-- `metav1.LabelSelectorAsSelector`, without a result on an unparseable selector. -/
  labelSelectorAsSelector : LabelSelector → Option Selector
  /-- `Selector.Matches` -/
  matchesLabels : Selector → Labels → Bool
  /-- `sha256.Sum256` -/
  sha256 : GoString → GoString

/-! ## Metadata -/

structure OwnerReference where
  kind : GoString
  name : GoString
  deriving DecidableEq

/-- `metav1.ObjectMeta`. For cluster-scoped kinds `ns` is empty. -/
structure ObjectMeta where
  ns : PathSegment
  name : GoString
  uid : GoString
  labels : Labels
  ownerReferences : List OwnerReference

/-- The metadata of a cluster-scoped object. -/
structure ClusterMeta extends ObjectMeta where
  clusterScoped : ns = PathSegment.empty

/-! ## Specs -/

/-- `EnvVarSource`: the names of the ConfigMap and the Secret it refers to. -/
structure EnvVarSource where
  configMapKeyRef : Option GoString
  secretKeyRef : Option GoString

structure EnvFromSource where
  configMapRef : Option GoString
  secretRef : Option GoString

structure Container where
  name : GoString
  image : GoString
  /-- `Env[i].ValueFrom` for each variable. -/
  env : List (Option EnvVarSource)
  envFrom : List EnvFromSource

structure VolumeProjection where
  configMap : Option GoString
  secret : Option GoString

structure Volume where
  configMap : Option GoString
  secret : Option GoString
  persistentVolumeClaim : Option GoString
  projected : Option (List VolumeProjection)

structure Pod where
  metadata : ObjectMeta
  nodeName : GoString
  initContainers : List Container
  containers : List Container
  volumes : List Volume

structure Service where
  metadata : ObjectMeta
  selector : Labels

structure Node where
  metadata : ClusterMeta
  unschedulable : Bool

structure ConfigMap where
  metadata : ObjectMeta
  data : Map GoString GoString
  binaryData : Map GoString GoString

structure Secret where
  metadata : ObjectMeta
  data : Map GoString GoString
  stringData : Map GoString GoString

/-- A Deployment, ReplicaSet or StatefulSet. -/
structure Workload where
  metadata : ObjectMeta
  replicas : Option Int

structure ObjectReference where
  kind : GoString
  name : GoString

structure EndpointSlice where
  metadata : ObjectMeta
  /-- `Endpoints[i].TargetRef` for each endpoint. -/
  endpoints : List (Option ObjectReference)

/-- The name of the backend's service, when it has one. -/
structure IngressBackend where
  service : Option GoString

structure Ingress where
  metadata : ObjectMeta
  defaultBackend : Option IngressBackend
  /-- `Rules[i].HTTP.Paths[j].Backend`, for the rules that have `HTTP`. -/
  rules : List (Option (List IngressBackend))

structure NetworkPolicy [Platform] where
  metadata : ObjectMeta
  podSelector : Platform.LabelSelector

/-! ## Objects and deltas -/

variable [Platform]

/-- An object of a supported type. -/
inductive Object where
  | pod (o : Pod)
  | service (o : Service)
  | node (o : Node)
  | namespace_ (o : ClusterMeta)
  | configMap (o : ConfigMap)
  | secret (o : Secret)
  | persistentVolumeClaim (o : ObjectMeta)
  | deployment (o : Workload)
  | replicaSet (o : Workload)
  | statefulSet (o : Workload)
  | daemonSet (o : ObjectMeta)
  | job (o : ObjectMeta)
  | cronJob (o : ObjectMeta)
  | endpointSlice (o : EndpointSlice)
  | ingress (o : Ingress)
  | networkPolicy (o : NetworkPolicy)

namespace Object

def metadata : Object → ObjectMeta
  | pod o => o.metadata
  | service o => o.metadata
  | node o => o.metadata.toObjectMeta
  | namespace_ o => o.toObjectMeta
  | configMap o => o.metadata
  | secret o => o.metadata
  | persistentVolumeClaim o => o
  | deployment o => o.metadata
  | replicaSet o => o.metadata
  | statefulSet o => o.metadata
  | daemonSet o => o
  | job o => o
  | cronJob o => o
  | endpointSlice o => o.metadata
  | ingress o => o.metadata
  | networkPolicy o => o.metadata

def kind : Object → NodeKind
  | pod _ => .pod
  | service _ => .service
  | node _ => .node
  | namespace_ _ => .namespace_
  | configMap _ => .configMap
  | secret _ => .secret
  | persistentVolumeClaim _ => .persistentVolumeClaim
  | deployment _ => .deployment
  | replicaSet _ => .replicaSet
  | statefulSet _ => .statefulSet
  | daemonSet _ => .daemonSet
  | job _ => .job
  | cronJob _ => .cronJob
  | endpointSlice _ => .endpointSlice
  | ingress _ => .ingress
  | networkPolicy _ => .networkPolicy

/-- The object's identity key. -/
def key (o : Object) : GoString := nodeKey o.kind o.metadata.ns.text o.metadata.name

end Object

/-- A delta operation. `OpAdd` and `OpUpdate` are handled alike. -/
inductive Op where
  | add
  | update
  | delete
  deriving DecidableEq, Repr

/-- The operation with a wire code, when the code is valid. -/
def Op.ofCode? (code : UInt8) : Option Op :=
  if code = 1 then some .add else if code = 2 then some .update
  else if code = 3 then some .delete else none

/-- What a caller passes as an object. -/
inductive AnyObject where
  | typed (o : Object)
  | nil
  | unsupported (typeName : GoString)

structure Delta where
  op : Op
  object : Object

/-- A delta as a caller passes it, before validation. -/
structure RawDelta where
  op : UInt8
  object : AnyObject

/-- Why an object is refused. -/
inductive ObjectError where
  /-- `nil object` -/
  | nilObject
  /-- `unsupported object type %T` -/
  | unsupportedType (typeName : GoString)
  deriving DecidableEq, Repr

/-- Why the writer refuses a call. -/
inductive IngestError where
  /-- `graph: delta %d: invalid op %d` -/
  | invalidOp (index : Nat) (op : UInt8)
  /-- `graph: delta %d: ` and what is wrong with the object -/
  | badDelta (index : Nat) (err : ObjectError)
  /-- An object of an initial sync is refused. -/
  | badObject (err : ObjectError)
  /-- `graph: writer closed` -/
  | closed
  deriving DecidableEq, Repr

def validateObject : AnyObject → Except ObjectError Object
  | .typed o => .ok o
  | .nil => .error .nilObject
  | .unsupported typeName => .error (.unsupportedType typeName)

/-- Check a batch of deltas. The first bad one refuses the batch. -/
def validateDeltas : Nat → List RawDelta → Except IngestError (List Delta)
  | _, [] => .ok []
  | index, d :: rest =>
    match Op.ofCode? d.op with
    | none => .error (.invalidOp index d.op)
    | some op => do
      let object ← (validateObject d.object).mapError (IngestError.badDelta index)
      let deltas ← validateDeltas (index + 1) rest
      return ⟨op, object⟩ :: deltas

/-! ## Change tracking -/

/-- One changed field. `from_` and `to_` are names, hashes or counts. -/
structure FieldChange where
  path : GoString
  from_ : GoString
  to_ : GoString
  deriving DecidableEq, Repr

/-- One entry of the delta log. Times are in nanoseconds. -/
structure ChangeRecord where
  at_ : Int
  generation : Nat
  op : Op
  kind : NodeKind
  ns : GoString
  name : GoString
  uid : GoString
  fieldChanges : List FieldChange
  effect : GoString
  deriving DecidableEq, Repr

/-- The fingerprint of an object. `replicas` and `unschedulable` are present
    exactly for the kinds that have the field. -/
structure TrackedState where
  labels : Map GoString GoString
  images : Map GoString GoString
  mounts : Finset GoString
  replicas : Option Int
  unschedulable : Option Bool
  contentHash : GoString

/-! ## Hashes -/

def hexDigit (n : Nat) : UInt8 := (if n < 10 then 0x30 + n else 0x57 + n).toUInt8

/-- `hex.EncodeToString` -/
def hexEncode (bs : GoString) : GoString :=
  bs.flatMap fun b => [hexDigit (b.toNat / 16), hexDigit (b.toNat % 16)]

/-- 32-bit FNV-1a. -/
def fnv32a (bs : GoString) : UInt32 :=
  bs.foldl (fun h b => (h ^^^ b.toUInt32) * 16777619) 2166136261

def bigEndian (h : UInt32) : GoString :=
  [(h >>> 24).toUInt8, (h >>> 16).toUInt8, (h >>> 8).toUInt8, h.toUInt8]

/-- The short hash of a label value: enough to see that it changed. -/
def shortHash (v : GoString) : GoString := hexEncode (bigEndian (fnv32a v))

def hashLabels (labels : Labels) : Map GoString GoString := Map.mapVals shortHash labels

/-- The tag of `Data` keys. -/
def dataTag : GoString := bytes "d:"

section

/-- The content hash over two maps whose keys are told apart by a tag: all tagged
    keys in ascending order, each followed by its value. -/
def hashContent (tag : GoString) (data other : Map GoString GoString) : GoString :=
  let keys := Map.sort (data.keys.image (dataTag ++ ·) ∪ other.keys.image (tag ++ ·))
  let body := keys.flatMap fun k =>
    let value :=
      if k.head? = dataTag.head? then Map.getD data (k.drop 2) [] else Map.getD other (k.drop 2) []
    k ++ 0 :: (value ++ [0])
  (hexEncode (Platform.sha256 body)).take 16

def hashConfigMap (cm : ConfigMap) : GoString := hashContent (bytes "b:") cm.data cm.binaryData

def hashSecret (sec : Secret) : GoString := hashContent (bytes "s:") sec.data sec.stringData

end

/-! ## Fingerprints -/

/-- The ConfigMap and Secret names a container's environment refers to, in the
    order the code visits them. -/
def Container.mountRefs (c : Container) : List (NodeKind × GoString) :=
  let env := c.env.flatMap fun valueFrom =>
    match valueFrom with
    | none => []
    | some vf => (vf.configMapKeyRef.map (NodeKind.configMap, ·)).toList ++
        (vf.secretKeyRef.map (NodeKind.secret, ·)).toList
  let envFrom := c.envFrom.flatMap fun src =>
    (src.configMapRef.map (NodeKind.configMap, ·)).toList ++
      (src.secretRef.map (NodeKind.secret, ·)).toList
  env ++ envFrom

/-- The names a volume refers to. The first source that is set counts. -/
def Volume.mountRefs (v : Volume) : List (NodeKind × GoString) :=
  match v.configMap, v.secret, v.persistentVolumeClaim, v.projected with
  | some name, _, _, _ => [(.configMap, name)]
  | none, some name, _, _ => [(.secret, name)]
  | none, none, some name, _ => [(.persistentVolumeClaim, name)]
  | none, none, none, some sources => sources.flatMap fun s =>
      (s.configMap.map (NodeKind.configMap, ·)).toList ++ (s.secret.map (NodeKind.secret, ·)).toList
  | none, none, none, none => []

/-- All containers of a pod, init containers first. -/
def Pod.allContainers (pod : Pod) : List Container := pod.initContainers ++ pod.containers

/-- The pod's named references as `Kind/name`. -/
def podMountRefs (pod : Pod) : Finset GoString :=
  let refs := pod.allContainers.flatMap Container.mountRefs ++ pod.volumes.flatMap Volume.mountRefs
  ((refs.filter fun r => r.2 ≠ []).map fun r => r.1.name ++ slash :: r.2).toFinset

/-- The API default of `spec.replicas` is one. -/
def replicasOrDefault (r : Option Int) : Int := r.getD 1

def newTrackedState (o : Object) : TrackedState :=
  let st : TrackedState :=
    { labels := hashLabels o.metadata.labels, images := ∅, mounts := ∅, replicas := none,
      unschedulable := none, contentHash := [] }
  match o with
  | .pod p =>
    { st with
      images := p.allContainers.foldl (fun m c => m.insert c.name c.image) ∅
      mounts := podMountRefs p }
  | .deployment w | .replicaSet w | .statefulSet w =>
    { st with replicas := some (replicasOrDefault w.replicas) }
  | .node n => { st with unschedulable := some n.unschedulable }
  | .configMap cm => { st with contentHash := hashConfigMap cm }
  | .secret sec => { st with contentHash := hashSecret sec }
  | _ => st

omit [Platform] in
/-- The differences of two string maps, by ascending key. A missing key reads as empty. -/
def diffMaps (path : GoString → GoString) (old cur : Map GoString GoString) : List FieldChange :=
  (Map.sort (old.keys ∪ cur.keys)).filterMap fun k =>
    let a := Map.getD old k []
    let b := Map.getD cur k []
    if a ≠ b then some ⟨path k, a, b⟩ else none

/-- The changed fields between two fingerprints, in a fixed order. -/
def diffTracked (old cur : TrackedState) : List FieldChange :=
  let labels := diffMaps (bytes "label/" ++ ·) old.labels cur.labels
  let images := diffMaps (fun name => bytes "container/" ++ name ++ bytes "/image")
    old.images cur.images
  let mounts := (Map.sort (old.mounts ∪ cur.mounts)).filterMap fun ref =>
    if ref ∈ old.mounts ∧ ref ∉ cur.mounts then
      some ⟨bytes "mount/" ++ ref, bytes "mounted", []⟩
    else if ref ∉ old.mounts ∧ ref ∈ cur.mounts then
      some ⟨bytes "mount/" ++ ref, [], bytes "mounted"⟩
    else none
  let replicas := match old.replicas, cur.replicas with
    | some a, some b =>
      if a ≠ b then [⟨bytes "replicas", bytes (toString a), bytes (toString b)⟩] else []
    | _, _ => []
  let unschedulable := match old.unschedulable, cur.unschedulable with
    | some a, some b =>
      if a ≠ b then [⟨bytes "unschedulable", bytes (toString a), bytes (toString b)⟩] else []
    | _, _ => []
  let data :=
    if old.contentHash ≠ cur.contentHash then
      [⟨bytes "data", old.contentHash, cur.contentHash⟩]
    else []
  labels ++ images ++ mounts ++ replicas ++ unschedulable ++ data

end Lookout
