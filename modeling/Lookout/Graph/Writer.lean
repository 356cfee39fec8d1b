-- SUMMARY: The writer: incremental maintenance, the edges an object asks for, queueing, flushing, initial sync and compaction.
import Lookout.Graph.Effect
import Lookout.Graph.Objects
import Lookout.Graph.Snapshot

/-!
# The writer

The batch under construction and the writer's private bookkeeping are mutated
together while deltas are applied. `Build` is that combined state. The effect log
is armed while a recorded delta is applied.

Every edge is declared by exactly one object, the one whose spec or metadata implies it.
What an object asks for is a list of `Link`s. Applying the object creates the nodes of its
links in order and reconciles the edges it declared before with the ones it declares now.
Services and NetworkPolicies also select pods by label.

`Apply` and `ApplyInitial` queue validated deltas. `Flush` folds the queue into a
batch and publishes it, `FromObjects` builds and publishes a batch of its own,
and `Compact` renumbers the live nodes densely. With a change hook, a flush also
derives one record for each live delta. Without one, a flush compacts whenever
the interner has more keys than the batch has nodes.

What the code takes from its surroundings is an argument of the operation: the clock
readings and the orders in which loops over maps run. The interner of the source panics
when it runs out of 32-bit numbers. Numbers are naturals here, and an operation has no
result where the batch it would publish has too many.
-/

namespace Lookout

variable [Platform]

/-- A registered label selector and the kind of edge it derives. -/
structure SelEntry where
  sel : Platform.Selector
  kind : EdgeKind

/-- The writer-private state that survives from batch to batch. -/
structure Private where
  intern : Interner GoString
  epoch : Nat
  declared : Map NodeID (List HalfEdge)
  refcnt : Map NodeID Int
  podLabels : Map GoString (Map NodeID Labels)
  selectors : Map GoString (Map NodeID SelEntry)
  tracked : Map NodeID TrackedState

def Private.empty : Private where
  intern := Interner.empty
  epoch := 0
  declared := ∅
  refcnt := ∅
  podLabels := ∅
  selectors := ∅
  tracked := ∅

/-- The batch under construction with the private state. -/
structure Build extends Adjacency, Private where
  nodes : Map NodeID NodeInfo
  /-- The effects recorded so far, when the log is armed. -/
  log : Option (List Effect)

namespace Build

variable (s : Build)

/-- Record an effect, if the log is armed. -/
def record (e : Effect) : Build := { s with log := s.log.map (· ++ [e]) }

/-- Give `key` its number. -/
def internKey (key : GoString) : Build × NodeID :=
  let p := s.intern.intern key
  ({ s with intern := p.1 }, p.2)

/-- Intern an identity and make sure its node exists. A Namespace node is observed
    from the start, because an identity inside a namespace proves that it exists. -/
def ensure (kind : NodeKind) (key : GoString) (ns : NodeID) : Build × NodeID :=
  let p := s.internKey key
  if p.2 ∈ p.1.nodes then p
  else
    let info : NodeInfo := ⟨kind, decide (kind = .namespace_), ns⟩
    ({ p.1 with nodes := p.1.nodes.insert p.2 info }.record (.nodeNew p.2 kind key), p.2)

/-- The node of an identity. A namespaced identity brings its Namespace node along. -/
def node (s : Build) (kind : NodeKind) (ns name : GoString) : Build × NodeID :=
  if ns = [] then s.ensure kind (nodeKey kind ns name) noNode
  else
    let p := s.ensure .namespace_ (nodeKey .namespace_ [] ns) noNode
    p.1.ensure kind (nodeKey kind ns name) p.2

/-- Mark a node as backed by an object that was seen. A missing node reads as the
    zero value first, as a Go map does. -/
def observe (id : NodeID) (kind : NodeKind) : Build :=
  let info := Map.getD s.nodes id ⟨.unknown, false, noNode⟩
  { s with nodes := s.nodes.insert id { info with kind := kind, observed := true } }.record
    (.observe id kind)

/-- Remove a node that no edge touches and no object backs. Namespace nodes stay.
    Container and Zone nodes are derived, so being observed does not keep them. -/
def maybeGC (id : NodeID) : Build :=
  if 0 < Map.getD s.refcnt id 0 then s
  else
    match s.nodes.lookup id with
    | none => s
    | some info =>
      if info.kind = .namespace_ then s
      else if info.observed ∧ info.kind ≠ .container ∧ info.kind ≠ .zone then s
      else { s with nodes := s.nodes.erase id, refcnt := s.refcnt.erase id }.record (.gc id)

/-- Flip a node back to unobserved, and collect it if nothing refers to it. -/
def markDeleted (id : NodeID) : Build :=
  match s.nodes.lookup id with
  | none => s
  | some info =>
    ({ s with nodes := s.nodes.insert id { info with observed := false } }.record
      (.unobserve id)).maybeGC id

/-- Add `d` to the reference count of `id`. -/
def bump (id : NodeID) (d : Int) : Build :=
  { s with refcnt := s.refcnt.insert id (Map.getD s.refcnt id 0 + d) }

/-- Insert an edge into the batch. Nothing happens when it is there already. -/
def addEdge (e : HalfEdge) : Build :=
  let p := s.toAdjacency.add e
  if p.2 then
    (({ s with toAdjacency := p.1 }.bump e.src 1).bump e.dst 1).record (.edgeAdd e)
  else s

/-- Delete an edge from the batch and collect its endpoints if they are unreferenced. -/
def removeEdge (e : HalfEdge) : Build :=
  let p := s.toAdjacency.remove e
  if p.2 then
    (((({ s with toAdjacency := p.1 }.bump e.src (-1)).bump e.dst (-1)).record
      (.edgeRemove e)).maybeGC e.src).maybeGC e.dst
  else s

/-- The first occurrences of the elements of a list. -/
def uniq (want : List HalfEdge) : List HalfEdge :=
  want.foldl (fun acc e => if e ∈ acc then acc else acc ++ [e]) []

/-- Store the edges `src` declares, without an entry for none. -/
def storeDeclared (src : NodeID) (es : List HalfEdge) : Build :=
  if es = [] then { s with declared := s.declared.erase src }
  else { s with declared := s.declared.insert src es }

/-- Reconcile the edges declared by `src`: remove those no longer wanted, then add
    the new ones. -/
def setDeclared (src : NodeID) (want : List HalfEdge) : Build :=
  let old := Map.getD s.declared src []
  if old = [] ∧ want = [] then s
  else
    let uniq := uniq want
    let s := (old.filter fun e => e ∉ want).foldl removeEdge s
    let s := (uniq.filter fun e => e ∉ old).foldl addEdge s
    s.storeDeclared src uniq

/-- Overwrite position `i` with the last element and drop the last position. -/
def swapDelete (cur : List HalfEdge) (i : Nat) : List HalfEdge :=
  match cur.getLast? with
  | none => cur
  | some last => (cur.set i last).dropLast

/-- Add or remove one selector-derived edge, and keep the source's declared edges in step. -/
def setSelectorEdge (src pod : NodeID) (kind : EdgeKind) (want : Bool) : Build :=
  let e : HalfEdge := ⟨src, pod, kind⟩
  let cur := Map.getD s.declared src []
  match cur.idxOf? e with
  | none =>
    if want then
      let s := s.addEdge e
      { s with declared := s.declared.insert src (cur ++ [e]) }
    else s
  | some i =>
    if want then s
    else
      (s.removeEdge e).storeDeclared src (swapDelete cur i)

end Build

/-! ## Links -/

/-- One edge an object asks for, with the identity at its other end. -/
structure Link where
  kind : NodeKind
  ns : PathSegment
  name : GoString
  edge : EdgeKind
  /-- Whether the edge points from the other end to the object. -/
  inbound : Bool
  /-- Whether the other end is a derived node, which is observed while referenced. -/
  derived : Bool

/-- The owner kinds that are nodes of the graph. -/
def ownerNodeKinds : List (GoString × NodeKind) :=
  [(bytes "Deployment", .deployment), (bytes "ReplicaSet", .replicaSet),
    (bytes "StatefulSet", .statefulSet), (bytes "DaemonSet", .daemonSet), (bytes "Job", .job),
    (bytes "CronJob", .cronJob), (bytes "Service", .service), (bytes "Node", .node),
    (bytes "Pod", .pod)]

/-- The link to an owner. Owners live in the object's namespace, except Nodes,
    which have none. -/
def ownerLink (ns : PathSegment) (ref : OwnerReference) : Option Link :=
  (ownerNodeKinds.lookup ref.kind).map fun kind =>
    { kind := kind, ns := if kind = .node then PathSegment.empty else ns, name := ref.name,
      edge := .owns, inbound := true, derived := false }

def ownerLinks (m : ObjectMeta) : List Link := m.ownerReferences.filterMap (ownerLink m.ns)

/-- The link from a pod to a ConfigMap, Secret or PersistentVolumeClaim it mounts. -/
def mountLink (ns : PathSegment) (ref : NodeKind × GoString) : Link :=
  { kind := ref.1, ns := ns, name := ref.2, edge := .mounts, inbound := false, derived := false }

def containerLinks (m : ObjectMeta) (c : Container) : List Link :=
  { kind := .container, ns := m.ns, name := m.name ++ slash :: c.name, edge := .contains,
    inbound := false, derived := true } :: c.mountRefs.map (mountLink m.ns)

def Pod.links (pod : Pod) : List Link :=
  let runsOn : List Link :=
    if pod.nodeName = [] then []
    else [{ kind := .node, ns := PathSegment.empty, name := pod.nodeName, edge := .runsOn,
            inbound := false, derived := false }]
  ownerLinks pod.metadata ++ runsOn ++ pod.allContainers.flatMap (containerLinks pod.metadata) ++
    (pod.volumes.flatMap Volume.mountRefs).map (mountLink pod.metadata.ns)

/-- `kubernetes.io/service-name` -/
def labelServiceName : GoString := bytes "kubernetes.io/service-name"

def EndpointSlice.links (eps : EndpointSlice) : List Link :=
  let svcName := Map.getD eps.metadata.labels labelServiceName []
  let service : List Link :=
    if svcName = [] then []
    else [{ kind := .service, ns := eps.metadata.ns, name := svcName, edge := .routesTo,
            inbound := true, derived := false }]
  let pods : List Link := eps.endpoints.filterMap fun ref =>
    match ref with
    | none => none
    | some ref =>
      if ref.kind ≠ bytes "Pod" ∨ ref.name = [] then none
      else some { kind := .pod, ns := eps.metadata.ns, name := ref.name, edge := .routesTo,
                  inbound := false, derived := false }
  ownerLinks eps.metadata ++ service ++ pods

/-- The link from an Ingress to a backend's service. -/
def backendLink (ns : PathSegment) (backend : IngressBackend) : Option Link :=
  match backend.service with
  | none => none
  | some name =>
    if name = [] then none
    else some { kind := .service, ns := ns, name := name, edge := .routesTo, inbound := false,
                derived := false }

def Ingress.links (ing : Ingress) : List Link :=
  ownerLinks ing.metadata ++
    (ing.defaultBackend.toList ++ ing.rules.flatMap fun http => http.getD []).filterMap
      (backendLink ing.metadata.ns)

/-- `topology.kubernetes.io/zone` -/
def labelTopologyZone : GoString := bytes "topology.kubernetes.io/zone"

/-- `failure-domain.beta.kubernetes.io/zone` -/
def labelFailureDomainBetaZone : GoString := bytes "failure-domain.beta.kubernetes.io/zone"

def Node.zone (n : Node) : GoString :=
  let zone := Map.getD n.metadata.labels labelTopologyZone []
  if zone = [] then Map.getD n.metadata.labels labelFailureDomainBetaZone [] else zone

def Node.links (n : Node) : List Link :=
  let zone : List Link :=
    if n.zone = [] then []
    else [{ kind := .zone, ns := PathSegment.empty, name := n.zone, edge := .runsOn,
            inbound := false, derived := true }]
  ownerLinks n.metadata.toObjectMeta ++ zone

/-! ## Applying links -/

namespace Build

variable (s : Build) (o : Map.RangeOrder) (op : Op)

/-- Create the node at the other end of a link and append the edge. -/
def link (self : NodeID) (p : Build × List HalfEdge) (l : Link) : Build × List HalfEdge :=
  let q := p.1.node l.kind l.ns.text l.name
  let s := if l.derived then q.1.observe q.2 l.kind else q.1
  (s, p.2 ++ [if l.inbound then ⟨q.2, self, l.edge⟩ else ⟨self, q.2, l.edge⟩])

/-- Create the nodes of all links in order, and collect the declared edges. -/
def declare (self : NodeID) (links : List Link) : Build × List HalfEdge :=
  links.foldl (link self) (s, [])

/-- The body of every apply function without selectors: an upsert observes the
    object's node and reconciles its links, a delete drops them. -/
def applyLinks (kind : NodeKind) (m : ObjectMeta) (links : List Link) : Build :=
  let p := s.node kind m.ns.text m.name
  let s := p.1
  let id := p.2
  if op = .delete then (s.setDeclared id []).markDeleted id
  else
    let q := (s.observe id kind).declare id links
    q.1.setDeclared id q.2

/-- Workload owners, ConfigMaps, Secrets, PersistentVolumeClaims and Namespaces have
    no links but their owners. -/
def applyPlain (kind : NodeKind) (m : ObjectMeta) : Build :=
  s.applyLinks op kind m (ownerLinks m)

def applyEndpointSlice (eps : EndpointSlice) : Build :=
  s.applyLinks op .endpointSlice eps.metadata eps.links

def applyIngress (ing : Ingress) : Build :=
  s.applyLinks op .ingress ing.metadata ing.links

def applyNode (n : Node) : Build :=
  s.applyLinks op .node n.metadata.toObjectMeta n.links

/-! ## Selectors -/

/-- Update one namespace's table, without an entry for the empty table. -/
def updateNs {α : Type} (m : Map GoString (Map NodeID α)) (ns : GoString)
    (f : Map NodeID α → Map NodeID α) : Map GoString (Map NodeID α) :=
  let t := f (Map.getD m ns ∅)
  if t.keys = ∅ then m.erase ns else m.insert ns t

def setSelector (ns : GoString) (src : NodeID) (ent : SelEntry) : Build :=
  { s with selectors := updateNs s.selectors ns (·.insert src ent) }

def dropSelector (ns : GoString) (src : NodeID) : Build :=
  { s with selectors := updateNs s.selectors ns (·.erase src) }

/-- The pods of a namespace that a selector matches, in the order the loop visits them. -/
def selectedPods (ns : GoString) (sel : Platform.Selector) : List NodeID :=
  let pods := Map.getD s.podLabels ns ∅
  (Map.range o pods).filter fun pod =>
    (pods.lookup pod).any fun labels => Platform.matchesLabels sel labels

/-- Services and NetworkPolicies: register the selector, if there is one, and declare
    an edge to every pod it matches. -/
def applySelecting (kind : NodeKind) (m : ObjectMeta) (entry : Option SelEntry) : Build :=
  let ns := m.ns.text
  let p := s.node kind ns m.name
  let s := p.1
  let id := p.2
  if op = .delete then (((s.dropSelector ns id).setDeclared id []).markDeleted id)
  else
    let q := (s.observe id kind).declare id (ownerLinks m)
    let s := q.1
    let decl := q.2
    match entry with
    | some ent =>
      let s := s.setSelector ns id ent
      s.setDeclared id
        (decl ++ (s.selectedPods o ns ent.sel).map fun pod => ⟨id, pod, ent.kind⟩)
    | none => (s.dropSelector ns id).setDeclared id decl

/-- The selector of a Service. An empty one selects nothing. -/
def serviceEntry (svc : Service) : Option SelEntry :=
  if svc.selector = ∅ then none
  else some ⟨Platform.selectorFromSet svc.selector, .selects⟩

/-- The selector of a NetworkPolicy, unless it is unparseable. -/
def policyEntry (np : NetworkPolicy) : Option SelEntry :=
  (Platform.labelSelectorAsSelector np.podSelector).map fun sel => ⟨sel, .governs⟩

def applyService (svc : Service) : Build :=
  s.applySelecting o op .service svc.metadata (serviceEntry svc)

def applyNetworkPolicy (np : NetworkPolicy) : Build :=
  s.applySelecting o op .networkPolicy np.metadata (policyEntry np)

/-! ## Pods -/

/-- Re-evaluate the selector of `src`, one of `sels`, on one pod. -/
def reselectSource (sels : Map NodeID SelEntry) (pod : NodeID) (want : SelEntry → Bool) (s : Build)
    (src : NodeID) : Build :=
  match sels.lookup src with
  | none => s
  | some ent => s.setSelectorEdge src pod ent.kind (want ent)

/-- Re-evaluate every selector of a namespace on one pod. -/
def reselect (ns : GoString) (pod : NodeID) (want : SelEntry → Bool) : Build :=
  let sels := Map.getD s.selectors ns ∅
  (Map.range o sels).foldl (reselectSource sels pod want) s

def applyPod (pod : Pod) : Build :=
  let ns := pod.metadata.ns.text
  let p := s.node .pod ns pod.metadata.name
  let s := p.1
  let id := p.2
  if op = .delete then
    let s := (s.setDeclared id []).reselect o ns id fun _ => false
    { s with podLabels := updateNs s.podLabels ns (·.erase id) }.markDeleted id
  else
    let q := (s.observe id .pod).declare id pod.links
    let s := q.1.setDeclared id q.2
    let labels := pod.metadata.labels
    { s with podLabels := updateNs s.podLabels ns (·.insert id labels) }.reselect o ns id
      fun ent => Platform.matchesLabels ent.sel labels

/-! ## Deltas -/

/-- Fold one delta into the batch. `o` is the order in which the loop over the
    namespace's selectors or pods runs. -/
def applyDelta (d : Delta) : Build :=
  match d.object with
  | .pod pod => s.applyPod o d.op pod
  | .service svc => s.applyService o d.op svc
  | .node n => s.applyNode d.op n
  | .namespace_ m => s.applyPlain d.op .namespace_ m.toObjectMeta
  | .configMap cm => s.applyPlain d.op .configMap cm.metadata
  | .secret sec => s.applyPlain d.op .secret sec.metadata
  | .persistentVolumeClaim m => s.applyPlain d.op .persistentVolumeClaim m
  | .deployment w => s.applyPlain d.op .deployment w.metadata
  | .replicaSet w => s.applyPlain d.op .replicaSet w.metadata
  | .statefulSet w => s.applyPlain d.op .statefulSet w.metadata
  | .daemonSet m => s.applyPlain d.op .daemonSet m
  | .job m => s.applyPlain d.op .job m
  | .cronJob m => s.applyPlain d.op .cronJob m
  | .endpointSlice eps => s.applyEndpointSlice d.op eps
  | .ingress ing => s.applyIngress d.op ing
  | .networkPolicy np => s.applyNetworkPolicy o d.op np

end Build

/-! ## Change tracking inside a batch -/

namespace Build

/-- Update the fingerprint of a delta's object, and return the record without its
    generation and effect. -/
def trackChange (s : Build) (now : Int) (d : Delta) : Build × ChangeRecord :=
  let o := d.object
  let rcd : ChangeRecord :=
    { at_ := now, generation := 0, op := d.op, kind := o.kind, ns := o.metadata.ns.text,
      name := o.metadata.name, uid := o.metadata.uid, fieldChanges := [], effect := [] }
  let p := s.internKey o.key
  let s := p.1
  if d.op = .delete then ({ s with tracked := s.tracked.erase p.2 }, rcd)
  else
    let st := newTrackedState o
    let changes := match s.tracked.lookup p.2 with
      | some old => diffTracked old st
      | none => []
    ({ s with tracked := s.tracked.insert p.2 st }, { rcd with fieldChanges := changes })

/-- Seed the fingerprint of an object that initial sync delivers. -/
def trackSeed (s : Build) (o : Object) : Build :=
  let p := s.internKey o.key
  { p.1 with tracked := p.1.tracked.insert p.2 (newTrackedState o) }

/-! ## Compaction -/

/-- `remap[id]` as Go reads it: zero when there is no entry. -/
def remapped (oldIDs : List NodeID) (id : NodeID) : NodeID := (Interner.remap oldIDs id).getD noNode

/-- Renumber a table by node, and drop the entries of nodes that are gone. -/
def remapTable {α : Type} (o : Map.RangeOrder) (oldIDs : List NodeID) (m : Map NodeID α) :
    Map NodeID α :=
  Map.rebuild (Map.range o m) m fun id v => (Interner.remap oldIDs id).map (·, v)

/-- Renumber one side of the adjacency. -/
def remapAdjacency (o : Map.RangeOrder) (oldIDs : List NodeID) (m : Map NodeID (List Edge)) :
    Map NodeID (List Edge) :=
  Map.rebuild (Map.range o m) m fun id edges =>
    some (remapped oldIDs id, edges.map fun e => ⟨remapped oldIDs e.dst, e.kind⟩)

/-- Drop the keys of nodes that are gone and number the live nodes `1..n` in order. -/
def compactBatch (s : Build) (loops : Nat → Map.RangeOrder) : Build :=
  let oldIDs := Map.sortedKeys s.nodes
  { out := remapAdjacency (loops 1) oldIDs s.out
    in_ := remapAdjacency (loops 2) oldIDs s.in_
    edges := s.edges
    nodes := Map.rebuild (Map.range (loops 0) s.nodes) s.nodes fun id info =>
      some (remapped oldIDs id,
        { info with ns := if info.ns ≠ noNode then remapped oldIDs info.ns else info.ns })
    intern := s.intern.renumber oldIDs
    epoch := s.epoch + 1
    declared := Map.rebuild (Map.range (loops 3) s.declared) s.declared fun id edges =>
      (Interner.remap oldIDs id).map fun newFrom =>
        (newFrom, edges.filterMap fun e =>
          (Interner.remap oldIDs e.dst).map fun newTo => ⟨remapped oldIDs e.src, newTo, e.kind⟩)
    refcnt := remapTable (loops 4) oldIDs s.refcnt
    podLabels := Map.mapVals (remapTable (loops 5) oldIDs) s.podLabels
    selectors := Map.mapVals (remapTable (loops 6) oldIDs) s.selectors
    tracked := remapTable (loops 7) oldIDs s.tracked
    log := s.log }

end Build

/-! ## The writer and its operations -/

/-- A queued delta, and whether it belongs to initial sync. -/
structure PendingDelta where
  delta : Delta
  sync : Bool

structure Writer where
  priv : Private
  snap : Option Snapshot
  gen : Nat
  pending : List PendingDelta
  closed : Bool
  /-- Whether a change hook is set. -/
  onChange : Bool
  watched : Option (Finset NodeKind)
  /-- The records handed to the change hook so far, in order. -/
  delivered : List ChangeRecord

/-- What one batch takes from its surroundings: for each position in the batch the
    clock reading and the order of the delta's loop, and the orders of the loops of
    a compaction. -/
structure Env where
  now : Nat → Int
  order : Nat → Map.RangeOrder
  loops : Nat → Map.RangeOrder

/-- The number of distinct identities the interner holds before it panics. -/
def maxIdentities : Nat := 4294967294

/-- `New`: an empty graph. -/
def Writer.new (onChange : Bool) (watched : Finset NodeKind) : Writer where
  priv := Private.empty
  snap := none
  gen := 0
  pending := []
  closed := false
  onChange := onChange
  watched := if watched = ∅ then none else some watched
  delivered := []

namespace Writer

variable (w : Writer) (env : Env)

/-- A batch that starts from the current snapshot. -/
def newBatch : Build :=
  match w.snap with
  | none => { toAdjacency := Adjacency.empty, toPrivate := w.priv, nodes := ∅, log := none }
  | some prev =>
    { toAdjacency := prev.toAdjacency, toPrivate := w.priv, nodes := prev.nodes, log := none }

/-- Swap the batch in as the current snapshot. -/
def publish (b : Build) : Writer :=
  { w with
    gen := w.gen + 1
    priv := b.toPrivate
    snap := some
      { toAdjacency := b.toAdjacency
        nodes := b.nodes
        keys := b.intern.keys
        ids := b.intern.ids
        watched := w.watched
        generation := w.gen + 1 } }

/-- Queue a batch of deltas, all of them or none. -/
def queue (ds : List RawDelta) (sync : Bool) : Writer × Except IngestError Unit :=
  match validateDeltas 0 ds with
  | .error e => (w, .error e)
  | .ok deltas =>
    if w.closed then (w, .error .closed)
    else ({ w with pending := w.pending ++ deltas.map (⟨·, sync⟩) }, .ok ())

/-- Apply the `i`-th pending delta of a batch, and append its record. -/
def applyPending (onChange : Bool) (env : Env) (p : Build × List ChangeRecord)
    (q : PendingDelta × Nat) : Build × List ChangeRecord :=
  let d := q.1.delta
  let o := env.order q.2
  if !onChange then (p.1.applyDelta o d, p.2)
  else
    let t := p.1.trackChange (env.now q.2) d
    if q.1.sync then (t.1.applyDelta o d, p.2)
    else
      let s := { t.1 with log := some [] }.applyDelta o d
      let rcd : ChangeRecord := { t.2 with effect := Effect.encodeLog (s.log.getD []) }
      let s := { s with log := none }
      if rcd.fieldChanges = [] ∧ rcd.effect = [] then (s, p.2) else (s, p.2 ++ [rcd])

/-- Fold all pending deltas into a batch. -/
def applyAll (onChange : Bool) (env : Env) (s : Build) (pending : List PendingDelta) :
    Build × List ChangeRecord :=
  pending.zipIdx.foldl (applyPending onChange env) (s, [])

/-- Hand the records to the change hook, stamped with the current generation. -/
def deliver (w : Writer) (recs : List ChangeRecord) : Writer :=
  { w with delivered := w.delivered ++ recs.map fun rcd => { rcd with generation := w.gen } }

/-- Drain the queue, build the next snapshot and publish it, then deliver the records. -/
def flushLocked : Option Writer :=
  if w.closed then some w
  else if w.pending = [] ∧ w.snap.isSome then some w
  else
    let p := applyAll w.onChange env w.newBatch w.pending
    let s := p.1
    if maxIdentities < s.intern.keys.length then none
    else
      let s :=
        if w.onChange = false ∧ s.nodes.keys.card < s.intern.keys.length then
          s.compactBatch env.loops
        else s
      some (({ w with pending := [] }.publish s).deliver p.2)

/-- Apply everything that is pending and publish, also when nothing is pending but no
    snapshot exists yet. -/
def flush : Option (Writer × Except IngestError Unit) :=
  if w.closed then some (w, .error .closed) else (w.flushLocked env).map (·, .ok ())

/-- Validate an object stream. The first bad object refuses it. -/
def validateObjects : List AnyObject → Except IngestError (List Object)
  | [] => .ok []
  | o :: rest => do
    let object ← (validateObject o).mapError IngestError.badObject
    let objects ← validateObjects rest
    return object :: objects

/-- One object of an initial sync. -/
def seed (onChange : Bool) (env : Env) (s : Build) (q : Object × Nat) : Build :=
  let s := if onChange then s.trackSeed q.1 else s
  s.applyDelta (env.order q.2) ⟨.add, q.1⟩

/-- Build a snapshot from a full object stream and publish it, once. -/
def fromObjects (objs : List AnyObject) : Option (Writer × Except IngestError Unit) :=
  match validateObjects objs with
  | .error e => some (w, .error e)
  | .ok objs =>
    if w.closed then some (w, .error .closed)
    else
      let s := objs.zipIdx.foldl (seed w.onChange env) w.newBatch
      if maxIdentities < s.intern.keys.length then none else some (w.publish s, .ok ())

/-- Flush, then renumber the live nodes if some key is not in use. -/
def compact (loops : Nat → Map.RangeOrder) : Option Writer :=
  if w.closed then some w
  else
    (w.flushLocked env).map fun w =>
      match w.snap with
      | none => w
      | some snap =>
        if snap.nodes.keys.card < w.priv.intern.keys.length then
          w.publish (w.newBatch.compactBatch loops)
        else w

def close : Writer := { w with closed := true, pending := [] }

end Writer

/-- One call of the writer's interface. The timed flush is a `flush` at some point. -/
inductive WriterOp where
  | apply (ds : List RawDelta)
  | applyInitial (ds : List RawDelta)
  | fromObjects (env : Env) (objs : List AnyObject)
  | flush (env : Env)
  | compact (env : Env) (loops : Nat → Map.RangeOrder)
  | close

namespace Writer

def step (w : Writer) : WriterOp → Option Writer
  | .apply ds => some (w.queue ds false).1
  | .applyInitial ds => some (w.queue ds true).1
  | .fromObjects env objs => (w.fromObjects env objs).map (·.1)
  | .flush env => (w.flush env).map (·.1)
  | .compact env loops => w.compact env loops
  | .close => some w.close

/-- The writer after a run, unless the run panics. -/
def run (w : Writer) (ops : List WriterOp) : Option Writer := ops.foldlM step w

end Writer

end Lookout
