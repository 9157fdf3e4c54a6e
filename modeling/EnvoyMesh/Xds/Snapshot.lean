import EnvoyMesh.Xds.Eds
import EnvoyMesh.Lib.Index

/-! # Snapshots (`internal/xds/snapshot.go`)

`protojson` is not part of the repository: the model takes its readers and its writer as a parameter
`pj`, and states what it relies on as a property of that parameter (`Protojson.Lawful`). -/

namespace EnvoyMesh

namespace Envoy

/-- `envoy.config.listener.v3.Listener`. -/
structure Listener where
  name : String
  rest : String
  deriving DecidableEq

/-- `Cluster.DiscoveryType`. -/
inductive DiscoveryType where
  | static | strictDNS | logicalDNS | eds | originalDST
  deriving DecidableEq

/-- `Cluster.EdsClusterConfig`. -/
structure EdsClusterConfig where
  serviceName : String
  rest : String
  deriving DecidableEq

/-- `envoy.config.cluster.v3.Cluster`. `type` is absent where the cluster has a custom type. -/
structure Cluster where
  name : String
  type : Option DiscoveryType
  edsClusterConfig : Option EdsClusterConfig
  rest : String
  deriving DecidableEq

/-- `envoy.config.route.v3.RouteConfiguration`. -/
structure RouteConfiguration where
  name : String
  rest : String
  deriving DecidableEq

/-- `envoy.config.route.v3.ScopedRouteConfiguration`. -/
structure ScopedRouteConfiguration where
  name : String
  rest : String
  deriving DecidableEq

end Envoy

/-- The `protojson` readers of the five resource types, with the options of `unmarshaler`, and the
    writer that `collectEndpoints` uses. -/
structure Protojson where
  listener : Raw → Except String Envoy.Listener
  cluster : Raw → Except String Envoy.Cluster
  routeConfiguration : Raw → Except String Envoy.RouteConfiguration
  scopedRouteConfiguration : Raw → Except String Envoy.ScopedRouteConfiguration
  clusterLoadAssignment : Raw → Except String Envoy.ClusterLoadAssignment
  marshal : Envoy.ClusterLoadAssignment → Except String Raw

/-- `protojson.Marshal` writes every assignment the control plane builds, and
    `protojson.Unmarshal` reads back the message that was written. -/
def Protojson.Lawful (pj : Protojson) : Prop :=
  ∀ name slices port, ∃ raw, pj.marshal (synthesizeCLA name slices port) = .ok raw ∧ raw ≠ "" ∧
    pj.clusterLoadAssignment raw = .ok (synthesizeCLA name slices port)

/-- Decodes the specs in order and stops at the first failure; an empty spec gives no resource. -/
def unmarshalAll {α : Type} (unmarshal : Raw → Except String α) (raws : List Raw) : Except String (List α) :=
  go 0 raws
where
  go (i : Nat) : List Raw → Except String (List α)
    | [] => .ok []
    | raw :: raws =>
      if raw = "" then go (i + 1) raws
      else
        match unmarshal raw with
        | .error e => .error s!"item {i}: {e}"
        | .ok msg => (go (i + 1) raws).map (msg :: ·)

/-- `cachev3.Snapshot`: for each resource type the resources by name. `NewSnapshot` gives all types
    the same version. -/
structure Snapshot where
  version : String
  listeners : String → Option Envoy.Listener
  clusters : String → Option Envoy.Cluster
  routes : String → Option Envoy.RouteConfiguration
  scopedRoutes : String → Option Envoy.ScopedRouteConfiguration
  endpoints : String → Option Envoy.ClusterLoadAssignment

structure Resources where
  listeners : List Envoy.Listener
  clusters : List Envoy.Cluster
  routes : List Envoy.RouteConfiguration
  scopedRoutes : List Envoy.ScopedRouteConfiguration
  endpoints : List Envoy.ClusterLoadAssignment
  deriving DecidableEq

/-- `cachev3.NewSnapshot`: resources indexed by name, the last one of a name wins. -/
def newSnapshot (version : String) (r : Resources) : Snapshot where
  version := version
  listeners := Index.byName (·.name) r.listeners
  clusters := Index.byName (·.name) r.clusters
  routes := Index.byName (·.name) r.routes
  scopedRoutes := Index.byName (·.name) r.scopedRoutes
  endpoints := Index.byName (·.clusterName) r.endpoints

def wrap {α : Type} (context : String) (x : Except String α) : Except String α :=
  x.mapError fun e => context ++ ": " ++ e

def decodeAll (pj : Protojson) (listenerSpecs clusterSpecs routeSpecs scopedRouteSpecs endpointSpecs : List Raw) :
    Except String Resources := do
  let listeners ← wrap "listeners" (unmarshalAll pj.listener listenerSpecs)
  let clusters ← wrap "clusters" (unmarshalAll pj.cluster clusterSpecs)
  let routes ← wrap "routes" (unmarshalAll pj.routeConfiguration routeSpecs)
  let scopedRoutes ← wrap "scoped routes" (unmarshalAll pj.scopedRouteConfiguration scopedRouteSpecs)
  let endpoints ← wrap "endpoints" (unmarshalAll pj.clusterLoadAssignment endpointSpecs)
  return { listeners, clusters, routes, scopedRoutes, endpoints }

def buildSnapshot (pj : Protojson) (version : String)
    (listenerSpecs clusterSpecs routeSpecs scopedRouteSpecs endpointSpecs : List Raw) : Except String Snapshot :=
  (decodeAll pj listenerSpecs clusterSpecs routeSpecs scopedRouteSpecs endpointSpecs).map (newSnapshot version)

end EnvoyMesh
