import EnvoyMesh.System

/-! # The deployment (`cmd/main.go`)

Each pod is a process with an xDS server of its own: `main` makes an empty snapshot cache and serves it from then
on. The manager runs the controllers, at once or, with `--leader-elect`, when the process has the lease; `main` exits
when the lease is lost. Controllers that start are notified of every stored object. -/

namespace EnvoyMesh

/-- The objects that are stored, as a watch lists them when it starts. -/
def API.objects (a : API) : List Object :=
  [a.envoyProxies.items.map .envoyProxy, a.listeners.items.map .listener, a.clusters.items.map .cluster,
    a.routeConfigurations.items.map .routeConfiguration, a.scopedRouteConfigurations.items.map .scopedRouteConfiguration,
    a.clusterLoadAssignments.items.map .clusterLoadAssignment, a.endpointSlices.items.map .endpointSlice].flatten

/-- A process. -/
structure Replica where
  cache : Cache
  streams : Streams
  events : List Event
  queue : List NamespacedName
  running : NamespacedName → Option (Calls (Except String Unit))
  /-- Its controllers run. -/
  active : Bool

namespace Replica

/-- `NewServer`, before the manager starts. -/
def created : Replica := ⟨fun _ => none, .empty, [], [], fun _ => none, false⟩

def activate (r : Replica) (a : API) : Replica :=
  { r with active := true, events := a.objects.map fun x => ⟨none, some x⟩ }

/-- The process as a control plane on the stored objects. -/
def view (a : API) (r : Replica) : System := ⟨⟨a, r.cache, r.streams, r.events⟩, r.queue, r.running⟩

def update (r : Replica) (s : System) : Replica :=
  { r with
    cache := s.world.cache, streams := s.world.streams, events := s.world.events
    queue := s.queue, running := s.running }

/-- The watches of its controllers, if they run, notify it. -/
def told (r : Replica) (es : List Event) : Replica := if r.active then { r with events := r.events ++ es } else r

end Replica

structure Deployment where
  api : API
  replicas : Nat → Option Replica

namespace Deployment

def empty : Deployment := ⟨.empty, fun _ => none⟩

/-- The objects change, and everyone is notified. -/
def changed (d : Deployment) (a : API) (es : List Event) : Deployment := ⟨a, fun i => (d.replicas i).map (·.told es)⟩

def set (d : Deployment) (i : Nat) (r : Option Replica) : Deployment :=
  { d with replicas := Function.update d.replicas i r }

/-- A process takes a step as a control plane, with the answers of `env`. The others are notified of what it writes. -/
inductive Works (pj : Protojson) (env : World → (c : Call) → c.Answer → World → Prop) : Deployment → Deployment → Prop where
  | step (d : Deployment) (i : Nat) (r : Replica) (t : System) (hi : d.replicas i = some r) (ha : r.active = true)
      (ht : EnvoyMesh.Works pj env (r.view d.api) t) :
      Works pj env d ((d.changed t.world.api (t.world.events.drop r.events.length)).set i (some (r.update t)))

inductive Step (pj : Protojson) (leaderElect : Bool) : Deployment → Deployment → Prop where
  | write (d : Deployment) (x : Object) : Step pj leaderElect d (d.changed (d.api.put x) [⟨d.api.get? x.key, some x⟩])
  | delete (d : Deployment) (k : ObjectKey) (x : Object) (hx : d.api.get? k = some x) :
      Step pj leaderElect d (d.changed (d.api.erase k) [⟨some x, none⟩])
  | boot (d : Deployment) (i : Nat) (hi : d.replicas i = none) :
      Step pj leaderElect d (d.set i (some (if leaderElect then .created else Replica.created.activate d.api)))
  -- a process ends, also because it lost the lease
  | exit (d : Deployment) (i : Nat) : Step pj leaderElect d (d.set i none)
  -- the lease is given to a process while another may still act as if it had it
  | elect (d : Deployment) (i : Nat) (r : Replica) (hi : d.replicas i = some r) (ha : r.active = false)
      (helect : leaderElect = true) :
      Step pj leaderElect d (d.set i (some (r.activate d.api)))
  | work (d e : Deployment) (h : d.Works pj World.Answers e) : Step pj leaderElect d e
  | stream (d : Deployment) (i : Nat) (r : Replica) (ev : StreamEvent) (st : Streams) (hi : d.replicas i = some r)
      (hst : r.streams.step ev = some st) : Step pj leaderElect d (d.set i (some { r with streams := st }))

/-- The states of all runs of a deployment that starts with no objects and no processes. -/
inductive Reachable (pj : Protojson) (leaderElect : Bool) : Deployment → Prop where
  | empty : Reachable pj leaderElect .empty
  | step {d e : Deployment} : Reachable pj leaderElect d → Step pj leaderElect d e → Reachable pj leaderElect e

end Deployment

end EnvoyMesh
