import EnvoyMesh.Lib.Store

/-! # The API objects (`api/v1alpha1`)

The custom resources the controller reads, the EndpointSlices it lists and the EnvoyProxy whose status
it writes. The API server accepts an object only in a namespace whose name is a DNS label, so every
object carries that fact. -/

namespace EnvoyMesh

/-- The JSON text of a `runtime.RawExtension`; empty when the field is absent. -/
abbrev Raw := String

def isLabelChar (c : Char) : Bool := ('a' ≤ c && c ≤ 'z') || ('0' ≤ c && c ≤ '9')

/-- A DNS-1123 label: lower-case letters, digits and inner hyphens, at most 63 of them. -/
def isDNS1123Label (s : String) : Bool :=
  let cs := s.toList
  cs.length ≤ 63 && cs.all (fun c => isLabelChar c || c == '-') &&
    (cs.head?.map isLabelChar).getD false && (cs.getLast?.map isLabelChar).getD false

/-- A label has no dot, which is what separates the parts of a node ID. -/
theorem dot_notMem_of_label {s : String} (h : isDNS1123Label s = true) : '.' ∉ s.toList := by
  intro hdot
  simp only [isDNS1123Label, Bool.and_eq_true, List.all_eq_true] at h
  have := h.1.1.2 '.' hdot
  revert this
  decide

/-- `types.NamespacedName`, the key of a namespaced object and of a reconcile request. -/
structure NamespacedName where
  ns : String
  name : String
  deriving DecidableEq, Repr

structure ObjectMeta where
  name : String
  ns : String
  resourceVersion : String
  ns_label : isDNS1123Label ns = true
  deriving DecidableEq

def ObjectMeta.key (m : ObjectMeta) : NamespacedName := ⟨m.ns, m.name⟩

/-- The EnvoyProxy that an xDS resource targets; an empty namespace stands for the resource's own. -/
structure TargetRef where
  name : String
  ns : String
  deriving DecidableEq

structure KubernetesServiceRef where
  name : String
  ns : String
  port : Option Int32
  deriving DecidableEq

/-- What Listener, RouteConfiguration, ScopedRouteConfiguration and ClusterLoadAssignment have in
    common, which is all the controller reads of them. -/
structure XDSResource where
  metadata : ObjectMeta
  targetRef : TargetRef
  spec : Raw
  deriving DecidableEq

structure Cluster extends XDSResource where
  kubernetesServiceRef : Option KubernetesServiceRef
  deriving DecidableEq

/-- `discoveryv1.Endpoint`, with the `Ready` condition. -/
structure Endpoint where
  addresses : List String
  ready : Option Bool
  deriving DecidableEq

/-- `discoveryv1.EndpointSlice`. A port may be absent. -/
structure EndpointSlice where
  metadata : ObjectMeta
  labels : List (String × String)
  ports : List (Option Int32)
  endpoints : List Endpoint
  deriving DecidableEq

inductive ConditionStatus where
  | «true» | «false» | unknown
  deriving DecidableEq, Repr

/-- `metav1.Condition` without its transition time, which nothing reads. -/
structure Condition where
  type : String
  status : ConditionStatus
  reason : String
  message : String
  observedGeneration : Int
  deriving DecidableEq

structure EnvoyProxyStatus where
  observedGeneration : Int
  conditions : List Condition
  deriving DecidableEq

structure EnvoyProxy where
  metadata : ObjectMeta
  generation : Int
  status : EnvoyProxyStatus
  deriving DecidableEq

def conditionConnected : String := "Connected"
def conditionReady : String := "Ready"

def XDSResource.key (x : XDSResource) : NamespacedName := x.metadata.key
def Cluster.key (x : Cluster) : NamespacedName := x.metadata.key
def EndpointSlice.key (x : EndpointSlice) : NamespacedName := x.metadata.key
def EnvoyProxy.key (x : EnvoyProxy) : NamespacedName := x.metadata.key

structure API where
  envoyProxies : Store EnvoyProxy.key
  listeners : Store XDSResource.key
  clusters : Store Cluster.key
  routeConfigurations : Store XDSResource.key
  scopedRouteConfigurations : Store XDSResource.key
  clusterLoadAssignments : Store XDSResource.key
  endpointSlices : Store EndpointSlice.key

inductive Object where
  | envoyProxy (x : EnvoyProxy)
  | listener (x : XDSResource)
  | cluster (x : Cluster)
  | routeConfiguration (x : XDSResource)
  | scopedRouteConfiguration (x : XDSResource)
  | clusterLoadAssignment (x : XDSResource)
  | endpointSlice (x : EndpointSlice)
  deriving DecidableEq

inductive ObjectKey where
  | envoyProxy (k : NamespacedName)
  | listener (k : NamespacedName)
  | cluster (k : NamespacedName)
  | routeConfiguration (k : NamespacedName)
  | scopedRouteConfiguration (k : NamespacedName)
  | clusterLoadAssignment (k : NamespacedName)
  | endpointSlice (k : NamespacedName)
  deriving DecidableEq

def Object.key : Object → ObjectKey
  | .envoyProxy x => .envoyProxy x.key
  | .listener x => .listener x.key
  | .cluster x => .cluster x.key
  | .routeConfiguration x => .routeConfiguration x.key
  | .scopedRouteConfiguration x => .scopedRouteConfiguration x.key
  | .clusterLoadAssignment x => .clusterLoadAssignment x.key
  | .endpointSlice x => .endpointSlice x.key

def Object.metadata : Object → ObjectMeta
  | .envoyProxy x => x.metadata
  | .listener x => x.metadata
  | .cluster x => x.metadata
  | .routeConfiguration x => x.metadata
  | .scopedRouteConfiguration x => x.metadata
  | .clusterLoadAssignment x => x.metadata
  | .endpointSlice x => x.metadata

namespace API

def empty : API := ⟨.empty, .empty, .empty, .empty, .empty, .empty, .empty⟩

def get? (a : API) : ObjectKey → Option Object
  | .envoyProxy k => (a.envoyProxies.get? k).map .envoyProxy
  | .listener k => (a.listeners.get? k).map .listener
  | .cluster k => (a.clusters.get? k).map .cluster
  | .routeConfiguration k => (a.routeConfigurations.get? k).map .routeConfiguration
  | .scopedRouteConfiguration k => (a.scopedRouteConfigurations.get? k).map .scopedRouteConfiguration
  | .clusterLoadAssignment k => (a.clusterLoadAssignments.get? k).map .clusterLoadAssignment
  | .endpointSlice k => (a.endpointSlices.get? k).map .endpointSlice

def put (a : API) : Object → API
  | .envoyProxy x => { a with envoyProxies := a.envoyProxies.put x }
  | .listener x => { a with listeners := a.listeners.put x }
  | .cluster x => { a with clusters := a.clusters.put x }
  | .routeConfiguration x => { a with routeConfigurations := a.routeConfigurations.put x }
  | .scopedRouteConfiguration x => { a with scopedRouteConfigurations := a.scopedRouteConfigurations.put x }
  | .clusterLoadAssignment x => { a with clusterLoadAssignments := a.clusterLoadAssignments.put x }
  | .endpointSlice x => { a with endpointSlices := a.endpointSlices.put x }

def erase (a : API) : ObjectKey → API
  | .envoyProxy k => { a with envoyProxies := a.envoyProxies.erase k }
  | .listener k => { a with listeners := a.listeners.erase k }
  | .cluster k => { a with clusters := a.clusters.erase k }
  | .routeConfiguration k => { a with routeConfigurations := a.routeConfigurations.erase k }
  | .scopedRouteConfiguration k => { a with scopedRouteConfigurations := a.scopedRouteConfigurations.erase k }
  | .clusterLoadAssignment k => { a with clusterLoadAssignments := a.clusterLoadAssignments.erase k }
  | .endpointSlice k => { a with endpointSlices := a.endpointSlices.erase k }

def serviceNameLabel : String := "kubernetes.io/service-name"

end API

/-- The slice lies in namespace `ns` and belongs to Service `svc`: what `client.InNamespace` and
    `client.MatchingLabels` select. An empty namespace selects every namespace. -/
def EndpointSlice.selected (ns svc : String) (s : EndpointSlice) : Bool :=
  (ns == "" || s.metadata.ns == ns) && s.labels.lookup API.serviceNameLabel == some svc

end EnvoyMesh
