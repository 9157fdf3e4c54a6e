import EnvoyMesh.World

/-! # The running system

The API server, the watches, the request queue, the workers and the streams, as a step relation. Objects
are created, updated and deleted at any time, each change leaving a notification. A delivered
notification enqueues the requests that its handlers compute from the objects of that moment. A request
is in the queue at most once, and the work queue hands out no request whose Reconcile is still running.
Between any two calls of a Reconcile anything else can happen. -/

namespace EnvoyMesh

structure System where
  world : World
  queue : List NamespacedName
  /-- What is left to do of the Reconcile that runs for a key. -/
  running : NamespacedName → Option (Calls (Except String Unit))

def System.empty : System := ⟨.empty, [], fun _ => none⟩

/-- The requests that the handlers of `SetupWithManager` compute for one object. -/
def Object.requests (clusters : List Cluster) : Object → List NamespacedName
  | .envoyProxy x => [x.key]
  | .listener x => mapXDSResourceToProxy x
  | .cluster x => mapXDSResourceToProxy x.toXDSResource
  | .routeConfiguration x => mapXDSResourceToProxy x
  | .scopedRouteConfiguration x => mapXDSResourceToProxy x
  | .clusterLoadAssignment x => mapXDSResourceToProxy x
  | .endpointSlice x => mapEndpointSliceToProxies (.ok clusters) x

def Event.objects (e : Event) : List Object := e.old.toList ++ e.new.toList

def Event.requests (clusters : List Cluster) (e : Event) : List NamespacedName :=
  e.objects.flatMap (·.requests clusters)

def World.write (w : World) (x : Object) : World :=
  { w with api := w.api.put x, events := w.events ++ [⟨w.api.get? x.key, some x⟩] }

def World.delete (w : World) (k : ObjectKey) (x : Object) : World :=
  { w with api := w.api.erase k, events := w.events ++ [⟨some x, none⟩] }

/-- Adds requests to the queue, which keeps one copy of each. -/
def System.enqueue (s : System) (reqs : List NamespacedName) : System :=
  { s with queue := reqs.foldl (fun q r => if r ∈ q then q else q ++ [r]) s.queue }

inductive Step (pj : Protojson) : System → System → Prop where
  | write (s : System) (x : Object) : Step pj s { s with world := s.world.write x }
  | delete (s : System) (k : ObjectKey) (x : Object) (hx : s.world.api.get? k = some x) :
      Step pj s { s with world := s.world.delete k x }
  | deliver (s : System) (front back : List Event) (e : Event) (clusters : List Cluster)
      (he : s.world.events = front ++ e :: back) (hc : clusters.Perm s.world.api.clusters.items) :
      Step pj s ({ s with world := { s.world with events := front ++ back } }.enqueue (e.requests clusters))
  | start (s : System) (key : NamespacedName) (hq : key ∈ s.queue) (hr : s.running key = none) :
      Step pj s { s with
        queue := s.queue.filter (· ≠ key)
        running := Function.update s.running key (some (reconcile pj key)) }
  | call (s : System) (key : NamespacedName) (c : Call) (k : c.Answer → Calls (Except String Unit)) (r : c.Answer)
      (w : World) (hr : s.running key = some (.call c k)) (hw : s.world.Answers c r w) :
      Step pj s { s with world := w, running := Function.update s.running key (some (k r)) }
  | done (s : System) (key : NamespacedName) (hr : s.running key = some (.ret (.ok ()))) :
      Step pj s { s with running := Function.update s.running key none }
  | failed (s : System) (key : NamespacedName) (e : String) (hr : s.running key = some (.ret (.error e))) :
      Step pj s ({ s with running := Function.update s.running key none }.enqueue [key])
  | stream (s : System) (ev : StreamEvent) (st : Streams) (hst : s.world.streams.step ev = some st) :
      Step pj s { s with world := { s.world with streams := st } }

/-- The steps that the control plane itself takes, with the answers of `env` to its calls. -/
inductive Works (pj : Protojson) (env : World → (c : Call) → c.Answer → World → Prop) : System → System → Prop where
  | deliver (s : System) (front back : List Event) (e : Event) (clusters : List Cluster)
      (he : s.world.events = front ++ e :: back) (hc : clusters.Perm s.world.api.clusters.items) :
      Works pj env s ({ s with world := { s.world with events := front ++ back } }.enqueue (e.requests clusters))
  | start (s : System) (key : NamespacedName) (hq : key ∈ s.queue) (hr : s.running key = none) :
      Works pj env s { s with
        queue := s.queue.filter (· ≠ key)
        running := Function.update s.running key (some (reconcile pj key)) }
  | call (s : System) (key : NamespacedName) (c : Call) (k : c.Answer → Calls (Except String Unit)) (r : c.Answer)
      (w : World) (hr : s.running key = some (.call c k)) (hw : env s.world c r w) :
      Works pj env s { s with world := w, running := Function.update s.running key (some (k r)) }
  | done (s : System) (key : NamespacedName) (hr : s.running key = some (.ret (.ok ()))) :
      Works pj env s { s with running := Function.update s.running key none }
  | failed (s : System) (key : NamespacedName) (e : String) (hr : s.running key = some (.ret (.error e))) :
      Works pj env s ({ s with running := Function.update s.running key none }.enqueue [key])

theorem Works.step {pj : Protojson} {env : World → (c : Call) → c.Answer → World → Prop} {s t : System}
    (h : Works pj env s t) (henv : ∀ w c r w', env w c r w' → w.Answers c r w') : Step pj s t := by
  cases h with
  | deliver front back e clusters he hc => exact .deliver s front back e clusters he hc
  | start key hq hr => exact .start s key hq hr
  | call key c k r w hr hw => exact .call s key c k r w hr (henv _ c r w hw)
  | done key hr => exact .done s key hr
  | failed key e hr => exact .failed s key e hr

/-- The states of all runs from the empty system on. -/
inductive Reachable (pj : Protojson) : System → Prop where
  | empty : Reachable pj .empty
  | step {s t : System} : Reachable pj s → Step pj s t → Reachable pj t

end EnvoyMesh
