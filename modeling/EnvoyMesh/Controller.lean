import EnvoyMesh.Lib.Prog
import EnvoyMesh.Lib.Sha256
import EnvoyMesh.Xds.Snapshot
import EnvoyMesh.Xds.Server

/-! # The controller (`internal/controller/envoyproxy_controller.go`)

`Reconcile` is a program over its calls to the API client, to the snapshot cache and to the xDS
server, so that other parties can act between any two of them. -/

namespace EnvoyMesh

/-! ### Calls -/

inductive Call where
  | get (key : NamespacedName)
  | listListeners
  | listClusters
  | listRouteConfigurations
  | listScopedRouteConfigurations
  | listClusterLoadAssignments
  | listEndpointSlices (ns svc : String)
  | setSnapshot (nodeID : String) (snap : Snapshot)
  | isConnected (nodeID : String)
  | updateStatus (ep : EnvoyProxy)

/-- The answers to a call. `Get` distinguishes an object that is not found from other errors; a status
    update answers with the object as it is stored. -/
@[reducible] def Call.Answer : Call → Type
  | .get _ => Except String (Option EnvoyProxy)
  | .listListeners => Except String (List XDSResource)
  | .listClusters => Except String (List Cluster)
  | .listRouteConfigurations => Except String (List XDSResource)
  | .listScopedRouteConfigurations => Except String (List XDSResource)
  | .listClusterLoadAssignments => Except String (List XDSResource)
  | .listEndpointSlices _ _ => Except String (List EndpointSlice)
  | .setSnapshot _ _ => Except String Unit
  | .isConnected _ => Bool
  | .updateStatus _ => Except String EnvoyProxy

abbrev Calls := Prog Call Call.Answer

abbrev M := ExceptT String Calls

namespace Client

def get (key : NamespacedName) : Calls (Except String (Option EnvoyProxy)) := Prog.ask (Call.get key)
def listListeners : Calls (Except String (List XDSResource)) := Prog.ask Call.listListeners
def listClusters : Calls (Except String (List Cluster)) := Prog.ask Call.listClusters
def listRouteConfigurations : Calls (Except String (List XDSResource)) := Prog.ask Call.listRouteConfigurations
def listScopedRouteConfigurations : Calls (Except String (List XDSResource)) :=
  Prog.ask Call.listScopedRouteConfigurations
def listClusterLoadAssignments : Calls (Except String (List XDSResource)) :=
  Prog.ask Call.listClusterLoadAssignments
def listEndpointSlices (ns svc : String) : Calls (Except String (List EndpointSlice)) :=
  Prog.ask (Call.listEndpointSlices ns svc)
def setSnapshot (nodeID : String) (snap : Snapshot) : Calls (Except String Unit) :=
  Prog.ask (Call.setSnapshot nodeID snap)
def isConnected (nodeID : String) : Calls Bool := Prog.ask (Call.isConnected nodeID)
def updateStatus (ep : EnvoyProxy) : Calls (Except String EnvoyProxy) := Prog.ask (Call.updateStatus ep)

end Client

/-- `fmt.Errorf("<context>: %w", err)` on the error of a step. -/
def M.wrap {α : Type} (context : String) (x : M α) : M α := ExceptT.mk do
  return EnvoyMesh.wrap context (← x.run)

/-! ### Collectors -/

/-- Whether the reference points to the proxy; `itemNS` is the namespace of the referring item. -/
def targetMatches (ref : TargetRef) (itemNS proxyNS proxyName : String) : Bool :=
  let ns := if ref.ns = "" then itemNS else ref.ns
  ref.name = proxyName && ns = proxyNS

def XDSResource.targets (proxyNS proxyName : String) (x : XDSResource) : Bool :=
  targetMatches x.targetRef x.metadata.ns proxyNS proxyName

/-- The loop of the collectors: specs and resource versions of the items that target the proxy. -/
def collectItems (proxyNS proxyName : String) (items : List XDSResource) : List Raw × List String :=
  let matching := items.filter (·.targets proxyNS proxyName)
  (matching.map (·.spec), matching.map (·.metadata.resourceVersion))

def collectListeners (proxyNS proxyName : String) : M (List Raw × List String) := do
  let list ← ExceptT.mk Client.listListeners
  return collectItems proxyNS proxyName list

def collectClusters (proxyNS proxyName : String) : M (List Raw × List String × List Cluster) := do
  let list ← ExceptT.mk Client.listClusters
  let items := list.filter (·.targets proxyNS proxyName)
  return (items.map (·.spec), items.map (·.metadata.resourceVersion), items)

def collectRoutes (proxyNS proxyName : String) : M (List Raw × List String) := do
  let list ← ExceptT.mk Client.listRouteConfigurations
  return collectItems proxyNS proxyName list

def collectScopedRoutes (proxyNS proxyName : String) : M (List Raw × List String) := do
  let list ← ExceptT.mk Client.listScopedRouteConfigurations
  return collectItems proxyNS proxyName list

/-- A ClusterLoadAssignment to be synthesised: the cluster's name and the Service it refers to. -/
structure Synthesis where
  clusterName : String
  svcNS : String
  ref : KubernetesServiceRef
  deriving DecidableEq

/-- What the synthesis loop does for a cluster; `none` where it continues with the next one: there is
    no reference, no name, or the name is one of `manualNames`. -/
def synthesisOf (manualNames : List String) (cluster : Cluster) : Option Synthesis :=
  match cluster.kubernetesServiceRef with
  | none => none
  | some ref =>
    let name := clusterName cluster.spec
    if name = "" ∨ name ∈ manualNames then none
    else some ⟨name, if ref.ns = "" then cluster.metadata.ns else ref.ns, ref⟩

def synthesize (pj : Protojson) (manualNames : List String) : List Cluster → M (List Raw × List String)
  | [] => return ([], [])
  | cluster :: clusters =>
    match synthesisOf manualNames cluster with
    | none => synthesize pj manualNames clusters
    | some ⟨name, svcNS, ref⟩ => do
      let slices ← M.wrap s!"list endpointslices for {svcNS}/{ref.name}"
        (ExceptT.mk (Client.listEndpointSlices svcNS ref.name))
      let raw ← M.wrap s!"marshal synthesized CLA for cluster {name}"
        (ExceptT.mk (pure (pj.marshal (synthesizeCLA name slices ref.port))))
      let (specs, versions) ← synthesize pj manualNames clusters
      return (raw :: specs, slices.map (·.metadata.resourceVersion) ++ versions)

def collectEndpoints (pj : Protojson) (proxyNS proxyName : String) (clusterItems : List Cluster) :
    M (List Raw × List String) := do
  let list ← ExceptT.mk Client.listClusterLoadAssignments
  let (specs, versions) := collectItems proxyNS proxyName list
  -- the names that synthesis skips are read off the manual specs
  let manualNames := specs.map clusterName
  let (synthSpecs, synthVersions) ← synthesize pj manualNames clusterItems
  return (specs ++ synthSpecs, versions ++ synthVersions)

/-! ### The version -/

/-- The text written to the hash: all strings of all groups, one after the other. -/
def fed (groups : List (List String)) : String :=
  groups.foldl (fun h group => group.foldl (fun h v => h ++ v) h) ""

def computeVersion (groups : List (List String)) : String :=
  String.ofList ((Sha256.hexEncode (Sha256.sum (fed groups).toUTF8.data.toList)).toList.take 16)

/-! ### Reconcile -/

structure Collected where
  listeners : List Raw
  clusters : List Raw
  routes : List Raw
  scopedRoutes : List Raw
  endpoints : List Raw
  versions : List (List String)

def collect (pj : Protojson) (proxyNS proxyName : String) : M Collected := do
  let (listeners, lVers) ← M.wrap "collect listeners" (collectListeners proxyNS proxyName)
  let (clusters, cVers, clusterItems) ← M.wrap "collect clusters" (collectClusters proxyNS proxyName)
  let (routes, rVers) ← M.wrap "collect routes" (collectRoutes proxyNS proxyName)
  let (scopedRoutes, srVers) ← M.wrap "collect scoped routes" (collectScopedRoutes proxyNS proxyName)
  let (endpoints, eVers) ← M.wrap "collect endpoints" (collectEndpoints pj proxyNS proxyName clusterItems)
  return { listeners, clusters, routes, scopedRoutes, endpoints, versions := [lVers, cVers, rVers, srVers, eVers] }

def Collected.version (c : Collected) : String := computeVersion c.versions

def Collected.build (pj : Protojson) (c : Collected) : Except String Snapshot :=
  buildSnapshot pj c.version c.listeners c.clusters c.routes c.scopedRoutes c.endpoints

def NamespacedName.nodeID (k : NamespacedName) : String := k.name ++ "." ++ k.ns

/-- The first half of `Reconcile`, up to and including `BuildSnapshot`: the proxy, the version and the
    outcome of the build; `none` if there is no such proxy. -/
def prepare (pj : Protojson) (key : NamespacedName) :
    M (Option (EnvoyProxy × String × Except String Snapshot)) := do
  match ← ExceptT.mk (Client.get key) with
  | none => return none
  | some ep =>
    let c ← collect pj ep.metadata.ns ep.metadata.name
    return some (ep, c.version, c.build pj)

/-- `meta.SetStatusCondition`: replaces the first condition of the same type, or appends it. -/
def setStatusCondition (conditions : List Condition) (new : Condition) : List Condition :=
  match conditions with
  | [] => [new]
  | c :: conditions => if c.type = new.type then new :: conditions else c :: setStatusCondition conditions new

def EnvoyProxy.withCondition (ep : EnvoyProxy) (condType : String) (status : ConditionStatus) (reason msg : String) :
    EnvoyProxy :=
  let condition : Condition := ⟨condType, status, reason, msg, ep.generation⟩
  { ep with status := ⟨ep.generation, setStatusCondition ep.status.conditions condition⟩ }

/-- Sets the condition on the proxy at hand and writes its status. A failed write is logged only. -/
def setCondition (ep : EnvoyProxy) (condType : String) (status : ConditionStatus) (reason msg : String) :
    Calls EnvoyProxy := do
  let ep := ep.withCondition condType status reason msg
  match ← Client.updateStatus ep with
  | .ok stored => return stored
  | .error _ => return ep

/-- The end of `Reconcile`, after `SetSnapshot` has returned. -/
def report (ep : EnvoyProxy) (version : String) : Except String Unit → Calls (Except String Unit)
  | .error e => do
    let _ ← setCondition ep conditionReady .false "SnapshotSetFailed" e
    return .error ("set snapshot: " ++ e)
  | .ok () => do
    let connected ← Client.isConnected ep.key.nodeID
    let connStatus : ConditionStatus := if connected then .true else .false
    let ep ← setCondition ep conditionConnected connStatus "StreamStatus" ""
    let _ ← setCondition ep conditionReady .true "SnapshotReady" ("version=" ++ version)
    return .ok ()

/-- The second half of `Reconcile`: the snapshot goes to the cache, the outcome to the status. -/
def publish (ep : EnvoyProxy) (version : String) : Except String Snapshot → Calls (Except String Unit)
  | .error e => do
    let _ ← setCondition ep conditionReady .false "SnapshotBuildFailed" e
    return .error ("build snapshot: " ++ e)
  | .ok snap => do
    report ep version (← Client.setSnapshot ep.key.nodeID snap)

/-- What the first half of a Reconcile leaves: an error, no proxy, or the proxy with the version and the
    outcome of the build. -/
abbrev Prepared := Except String (Option (EnvoyProxy × String × Except String Snapshot))

/-- How a Reconcile goes on: it returns the error, or ends without one if the proxy is gone. -/
def finish : Prepared → Calls (Except String Unit)
  | .error e => return .error e
  | .ok none => return .ok ()
  | .ok (some (ep, version, built)) => publish ep version built

def reconcile (pj : Protojson) (key : NamespacedName) : Calls (Except String Unit) := do
  finish (← (prepare pj key).run)

/-! ### Event mapping -/

def mapXDSResourceToProxy (x : XDSResource) : List NamespacedName :=
  let ns := if x.targetRef.ns = "" then x.metadata.ns else x.targetRef.ns
  [⟨ns, x.targetRef.name⟩]

/-- The proxies whose Cluster CRs reference the Service of the slice, each once. An event is dropped
    where the Cluster CRs cannot be listed. -/
def mapEndpointSliceToProxies (clusters : Except String (List Cluster)) (slice : EndpointSlice) :
    List NamespacedName :=
  match slice.labels.lookup API.serviceNameLabel with
  | none => []
  | some svcName =>
    match clusters with
    | .error _ => []
    | .ok items => items.foldl (step svcName slice.metadata.ns) []
where
  step (svcName sliceNS : String) (reqs : List NamespacedName) (cluster : Cluster) : List NamespacedName :=
    match cluster.kubernetesServiceRef with
    | none => reqs
    | some ref =>
      let refNS := if ref.ns = "" then cluster.metadata.ns else ref.ns
      if ref.name ≠ svcName ∨ refNS ≠ sliceNS then reqs
      else
        let targetNS := if cluster.targetRef.ns = "" then cluster.metadata.ns else cluster.targetRef.ns
        let key : NamespacedName := ⟨targetNS, cluster.targetRef.name⟩
        if key ∈ reqs then reqs else reqs ++ [key]

end EnvoyMesh
