import EnvoyMesh.Controller
import EnvoyMesh.Xds.Streams

/-! # The world a Reconcile runs in

The API server, the snapshot cache and the xDS streams, and how they answer the calls of
`EnvoyMesh.Controller`. A List returns the stored objects in some order: the informer cache lists from
an unordered map. Every call of the API may also fail. -/

namespace EnvoyMesh

/-- A change notification: the object before and after the change. -/
structure Event where
  old : Option Object
  new : Option Object

abbrev Cache := String → Option Snapshot

structure World where
  api : API
  cache : Cache
  streams : Streams
  events : List Event

def World.empty : World := ⟨.empty, fun _ => none, .empty, []⟩

namespace API

def endpointSlicesOf (a : API) (ns svc : String) : List EndpointSlice :=
  a.endpointSlices.items.filter (·.selected ns svc)

end API

/-- A List succeeded with the stored objects, in some order, or failed. -/
def Lists {α : Type} (stored : List α) (r : Except String (List α)) : Prop :=
  (∃ l, r = .ok l ∧ l.Perm stored) ∨ ∃ e, r = .error e

/-- The answers that read calls get from the stored objects. -/
def API.Reads (a : API) : (c : Call) → c.Answer → Prop
  | .get key, r => r = .ok (a.envoyProxies.get? key) ∨ ∃ e, r = .error e
  | .listListeners, r => Lists a.listeners.items r
  | .listClusters, r => Lists a.clusters.items r
  | .listRouteConfigurations, r => Lists a.routeConfigurations.items r
  | .listScopedRouteConfigurations, r => Lists a.scopedRouteConfigurations.items r
  | .listClusterLoadAssignments, r => Lists a.clusterLoadAssignments.items r
  | .listEndpointSlices ns svc, r => Lists (a.endpointSlicesOf ns svc) r
  | .setSnapshot _ _, _ => False
  | .isConnected _, _ => True
  | .updateStatus _, _ => True

/-- A status update reached the stored proxy `old`: the stored object takes the status and a new
    resource version `rv`. -/
def EnvoyProxy.withStatus (old : EnvoyProxy) (status : EnvoyProxyStatus) (rv : String) : EnvoyProxy :=
  { old with status, metadata := { old.metadata with resourceVersion := rv } }

/-- How the world answers a call and what the call does to it. `SetSnapshot` stores the snapshot before
    it responds to the open watches, so it has stored it even where it returns an error. A status
    update fails, or finds the object unchanged since it was read; it leaves a notification if it
    changes the status. -/
def World.Answers (w : World) : (c : Call) → c.Answer → World → Prop
  | .setSnapshot nodeID snap, _, w' => w' = { w with cache := Function.update w.cache nodeID (some snap) }
  | .isConnected nodeID, r, w' => r = w.streams.connected.isConnected nodeID ∧ w' = w
  | .updateStatus ep, r, w' =>
    (∃ e, r = .error e ∧ w' = w) ∨
    ∃ old, w.api.envoyProxies.get? ep.key = some old ∧ old.metadata.resourceVersion = ep.metadata.resourceVersion ∧
      ((old.status = ep.status ∧ r = .ok old ∧ w' = w) ∨
       (old.status ≠ ep.status ∧ ∃ rv, r = .ok (old.withStatus ep.status rv) ∧
        w' = { w with
          api := w.api.put (.envoyProxy (old.withStatus ep.status rv))
          events := w.events ++ [⟨some (.envoyProxy old), some (.envoyProxy (old.withStatus ep.status rv))⟩] }))
  | c, r, w' => w.api.Reads c r ∧ w' = w

def Succeeded : (c : Call) → c.Answer → Prop
  | .get _, r => ∃ x, r = .ok x
  | .listListeners, r => ∃ x, r = .ok x
  | .listClusters, r => ∃ x, r = .ok x
  | .listRouteConfigurations, r => ∃ x, r = .ok x
  | .listScopedRouteConfigurations, r => ∃ x, r = .ok x
  | .listClusterLoadAssignments, r => ∃ x, r = .ok x
  | .listEndpointSlices _ _, r => ∃ x, r = .ok x
  | .setSnapshot _ _, r => ∃ x, r = .ok x
  | .isConnected _, _ => True
  -- a failed status write is logged only
  | .updateStatus _, _ => True

def World.AnswersWell (w : World) (c : Call) (r : c.Answer) (w' : World) : Prop :=
  w.Answers c r w' ∧ Succeeded c r

/-- The answer to a call before which other parties may have acted: everything but the cache can have
    become different since the call before. -/
def World.AnswersAmid (w : World) (c : Call) (r : c.Answer) (w' : World) : Prop :=
  ∃ u : World, u.cache = w.cache ∧ u.Answers c r w'

end EnvoyMesh
