import EnvoyMesh.System
import EnvoyMesh.Xds.Reference

/-! # Undisturbed runs

Runs in which objects are written, all notifications are delivered and Reconciles run from start to end,
one thing after the other. No call fails, and a List returns the objects in the stored order. -/

namespace EnvoyMesh
open Prog

/-- The answer of a world in which nothing fails. A changed status gets a resource version of its own. -/
def World.serve (w : World) : (c : Call) → c.Answer × World
  | .get key => (.ok (w.api.envoyProxies.get? key), w)
  | .listListeners => (.ok w.api.listeners.items, w)
  | .listClusters => (.ok w.api.clusters.items, w)
  | .listRouteConfigurations => (.ok w.api.routeConfigurations.items, w)
  | .listScopedRouteConfigurations => (.ok w.api.scopedRouteConfigurations.items, w)
  | .listClusterLoadAssignments => (.ok w.api.clusterLoadAssignments.items, w)
  | .listEndpointSlices ns svc => (.ok (w.api.endpointSlicesOf ns svc), w)
  | .setSnapshot nodeID snap => (.ok (), { w with cache := Function.update w.cache nodeID (some snap) })
  | .isConnected nodeID => (w.streams.connected.isConnected nodeID, w)
  | .updateStatus ep =>
    match w.api.envoyProxies.get? ep.key with
    | none => (.error "not found", w)
    | some old =>
      if old.metadata.resourceVersion ≠ ep.metadata.resourceVersion then (.error "conflict", w)
      else if old.status = ep.status then (.ok old, w)
      else
        let new := old.withStatus ep.status (old.metadata.resourceVersion ++ "0")
        (.ok new, { w with
          api := w.api.put (.envoyProxy new)
          events := w.events ++ [⟨some (.envoyProxy old), some (.envoyProxy new)⟩] })

theorem World.serve_answers (w : World) (c : Call) : w.AnswersWell c (w.serve c).1 (w.serve c).2 := by
  cases c with
  | updateStatus ep =>
    refine ⟨?_, trivial⟩
    simp only [World.serve]
    cases hold : w.api.envoyProxies.get? ep.key with
    | none => exact Or.inl ⟨_, rfl, rfl⟩
    | some old =>
      by_cases hrv : old.metadata.resourceVersion ≠ ep.metadata.resourceVersion
      · simp only [hrv, if_true, ne_eq, not_false_eq_true]
        exact Or.inl ⟨_, rfl, rfl⟩
      · simp only [hrv, if_false]
        refine Or.inr ⟨old, hold, not_not.mp hrv, ?_⟩
        by_cases hst : old.status = ep.status
        · rw [if_pos hst]
          exact Or.inl ⟨hst, rfl, rfl⟩
        · rw [if_neg hst]
          exact Or.inr ⟨hst, _, rfl, rfl⟩
  | setSnapshot nodeID snap => exact ⟨rfl, _, rfl⟩
  | isConnected nodeID => exact ⟨⟨rfl, rfl⟩, trivial⟩
  | get key => exact ⟨⟨Or.inl rfl, rfl⟩, _, rfl⟩
  | _ => exact ⟨⟨Or.inl ⟨_, rfl, List.Perm.refl _⟩, rfl⟩, _, rfl⟩

def World.reconciled (pj : Protojson) (key : NamespacedName) (w : World) : Except String Unit × World :=
  (reconcile pj key).interp World.serve w

theorem exec_reconciled (pj : Protojson) (key : NamespacedName) (w : World) :
    (reconcile pj key).Exec World.AnswersWell w (w.reconciled pj key).2 (w.reconciled pj key).1 :=
  exec_interp World.serve_answers _ _

/-! ### Systems -/

namespace System

def writes (s : System) (xs : List Object) : System := { s with world := xs.foldl World.write s.world }

def delete (s : System) (k : ObjectKey) : System :=
  match s.world.api.get? k with
  | none => s
  | some x => { s with world := s.world.delete k x }

theorem running_delete (s : System) (k : ObjectKey) : (s.delete k).running = s.running := by
  unfold System.delete
  split <;> rfl

def drain (s : System) : System :=
  System.enqueue { s with world := { s.world with events := [] } }
    (s.world.events.flatMap (Event.requests s.world.api.clusters.items))

theorem running_drain (s : System) : s.drain.running = s.running := rfl

def reconciled (pj : Protojson) (key : NamespacedName) (s : System) : System :=
  ⟨(s.world.reconciled pj key).2, s.queue.filter (· ≠ key), s.running⟩

theorem running_reconciled (pj : Protojson) (key : NamespacedName) (s : System) :
    (s.reconciled pj key).running = s.running := rfl

end System

section Runs
variable {pj : Protojson} {key : NamespacedName}

/-! What others do to the objects, and the notifications of it, keep whatever every such step keeps. -/

section Others
variable {R : System → Prop} {s : System}
  (hR : ∀ {s t : System}, R s → Step pj s t → t.running = s.running → t.world.streams = s.world.streams → R t)
include hR

theorem kept_of_writes (hs : R s) (xs : List Object) : R (s.writes xs) := by
  induction xs generalizing s with
  | nil => exact hs
  | cons x xs ih => exact ih (hR hs (.write s x) rfl rfl)

theorem kept_of_delete (hs : R s) (k : ObjectKey) : R (s.delete k) := by
  unfold System.delete
  split
  · exact hs
  · next x hx => exact hR hs (.delete s k x hx) rfl rfl

theorem kept_of_drain (hs : R s) : R s.drain := by
  obtain ⟨⟨api, cache, streams, events⟩, queue, running⟩ := s
  induction events generalizing queue with
  | nil => exact hs
  | cons e events ih =>
    have hrest := ih _ (hR hs (.deliver _ [] events e api.clusters.items rfl (List.Perm.refl _)) rfl rfl)
    simpa only [System.drain, System.enqueue, List.flatMap_cons, List.foldl_append] using hrest

end Others

/-- A property that every call of the Reconcile of `key` keeps, with the answers of `env`, holds when it is
    at its end. -/
theorem kept_of_exec {env : World → (c : Call) → c.Answer → World → Prop} (R : System → Prop) (key : NamespacedName)
    (hR : ∀ s c k r w, R s → s.running key = some (.call c k) → env s.world c r w →
      R { s with world := w, running := Function.update s.running key (some (k r)) })
    {P : Calls (Except String Unit)} {s : System} {w : World} {r : Except String Unit}
    (hP : P.Exec env s.world w r) (hs : R s) (hr : s.running key = some P) :
    R { s with world := w, running := Function.update s.running key (some (.ret r)) } := by
  induction P generalizing s with
  | ret a =>
    obtain ⟨rfl, rfl⟩ := hP
    rw [← hr, Function.update_eq_self]
    exact hs
  | call c k ih =>
    obtain ⟨a, w₁, hw, hk⟩ := hP
    have hnext := ih a (s := { s with world := w₁, running := Function.update s.running key (some (k a)) }) hk
      (hR s c k a w₁ hs hr hw) (Function.update_self ..)
    simpa only [Function.update_idem] using hnext

/-- The control plane takes steps in which no read and no `SetSnapshot` fails; `es` are the notifications of what it
    writes. -/
inductive Sends (pj : Protojson) (s : System) : List Event → System → Prop where
  | refl : Sends pj s [] s
  | tail {es : List Event} {t u : System} (h : Sends pj s es t) (hw : Works pj World.AnswersWell t u) :
      Sends pj s (es ++ u.world.events.drop t.world.events.length) u

theorem answers_events {w w' : World} {c : Call} {r : c.Answer} (h : w.Answers c r w') :
    ∃ es, w'.events = w.events ++ es := by
  have hsame : ∃ es, w.events = w.events ++ es := ⟨[], (List.append_nil _).symm⟩
  cases c with
  | setSnapshot nodeID snap =>
    obtain rfl : w' = _ := h
    exact hsame
  | updateStatus ep =>
    rcases h with ⟨e, -, rfl⟩ | ⟨old, -, -, ⟨-, -, rfl⟩ | ⟨-, rv, -, rfl⟩⟩
    · exact hsame
    · exact hsame
    · exact ⟨_, rfl⟩
  | _ =>
    obtain ⟨-, rfl⟩ := h
    exact hsame

namespace Sends
variable {s t u : System} {es : List Event}

theorem works (h : Sends pj s es t) : Relation.ReflTransGen (Works pj World.AnswersWell) s t := by
  induction h with
  | refl => exact .refl
  | tail _ hw ih => exact ih.tail hw

theorem steps (h : Sends pj s es t) : Relation.ReflTransGen (Step pj) s t := by
  induction h with
  | refl => exact .refl
  | tail _ hw ih => exact ih.tail (hw.step fun _ _ _ _ hw => hw.1)

theorem add (h : Sends pj s es t) (es' : List Event) (hw : Works pj World.AnswersWell t u)
    (he : u.world.events = t.world.events ++ es') : Sends pj s (es ++ es') u := by
  have hnext := h.tail hw
  rwa [he, List.drop_left] at hnext

/-- A step that leaves no more notifications than there were sends nothing. -/
theorem skip (h : Sends pj s es t) (hw : Works pj World.AnswersWell t u)
    (he : u.world.events.length ≤ t.world.events.length) : Sends pj s es u := by
  have hnext := h.tail hw
  rwa [List.drop_eq_nil_of_le he, List.append_nil] at hnext

theorem drain (h : Sends pj s es t) : Sends pj s es t.drain := by
  obtain ⟨⟨api, cache, streams, events⟩, queue, running⟩ := t
  induction events generalizing queue with
  | nil => exact h
  | cons e events ih =>
    have hnext := h.skip (.deliver _ [] events e api.clusters.items rfl (List.Perm.refl _)) (Nat.le_succ _)
    simpa only [System.drain, System.enqueue, List.flatMap_cons, List.foldl_append] using ih _ hnext

/-- A Reconcile runs from its start to its end. -/
theorem exec {w : World} (h : Sends pj s es t) (hq : key ∈ t.queue) (hr : t.running key = none)
    (hexec : (reconcile pj key).Exec World.AnswersWell t.world w (.ok ())) :
    ∃ es', w.events = t.world.events ++ es' ∧ Sends pj s (es ++ es') ⟨w, t.queue.filter (· ≠ key), t.running⟩ := by
  have hstart := h.add [] (.start t key hq hr) (List.append_nil _).symm
  obtain ⟨es', hes', hend⟩ := kept_of_exec
    (fun u => ∃ es', u.world.events = t.world.events ++ es' ∧ Sends pj s (es ++ es') u) key
    (fun u c k r w ⟨es₁, hes₁, hu⟩ hr hw => by
      obtain ⟨es₂, hes₂⟩ := answers_events hw.1
      have hnext := hu.add es₂ (.call u key c k r w hr hw) hes₂
      exact ⟨es₁ ++ es₂, by rw [hes₂, hes₁, List.append_assoc], List.append_assoc es .. ▸ hnext⟩)
    (s := ⟨t.world, t.queue.filter (· ≠ key), Function.update t.running key (some (reconcile pj key))⟩) hexec
    ⟨[], (List.append_nil _).symm, hstart⟩ (Function.update_self ..)
  have hdone := hend.add [] (.done _ key (Function.update_self ..)) (List.append_nil _).symm
  refine ⟨es', hes', ?_⟩
  simpa only [Function.update_idem, ← hr, Function.update_eq_self, List.append_nil] using hdone

end Sends

namespace Reachable
variable {s : System}

theorem writes (h : Reachable pj s) (xs : List Object) : Reachable pj (s.writes xs) :=
  kept_of_writes (fun h hs _ _ => h.step hs) h xs

theorem drain (h : Reachable pj s) : Reachable pj s.drain := kept_of_drain (fun h hs _ _ => h.step hs) h

/-- A request is taken and its Reconcile runs to a successful end with nothing in between. -/
theorem exec {w : World} (h : Reachable pj s) (hq : key ∈ s.queue) (hr : s.running key = none)
    (hexec : (reconcile pj key).Exec World.Answers s.world w (.ok ())) :
    Reachable pj ⟨w, s.queue.filter (· ≠ key), s.running⟩ := by
  have hstart := h.step (.start s key hq hr)
  have hend := kept_of_exec (Reachable pj) key (fun s c k r w hs hr hw => hs.step (.call s key c k r w hr hw))
    (s := ⟨s.world, s.queue.filter (· ≠ key), Function.update s.running key (some (reconcile pj key))⟩) hexec hstart
    (Function.update_self ..)
  have hdone := hend.step (.done _ key (Function.update_self ..))
  simpa only [Function.update_idem, ← hr, Function.update_eq_self] using hdone

theorem reconciled (h : Reachable pj s) (hq : key ∈ s.queue) (hr : s.running key = none)
    (hok : (s.world.reconciled pj key).1 = .ok ()) : Reachable pj (s.reconciled pj key) := by
  have hexec := (exec_reconciled pj key s.world).mono fun _ _ _ _ hw => hw.1
  rw [hok] at hexec
  exact h.exec hq hr hexec

end Reachable

end Runs

/-! ### A small mesh

The proxy `edge` with resources of its own namespace, and the Service `web` with one endpoint. -/

namespace Sample

def metadata (name rv : String) : ObjectMeta := ⟨name, "prod", rv, by decide⟩

def proxy : EnvoyProxy := ⟨metadata "edge" "1", 1, ⟨0, []⟩⟩

def resource (name rv : String) (spec : Raw) : XDSResource := ⟨metadata name rv, ⟨"edge", ""⟩, spec⟩

def listener (name rv : String) : XDSResource := resource name rv ("\x7b\"name\": \"" ++ name ++ "\"\x7d")

def cluster (name rv : String) (spec : Raw) : Cluster := ⟨resource name rv spec, some ⟨"web", "", none⟩⟩

def slice : EndpointSlice :=
  ⟨metadata "web-1" "2", [(API.serviceNameLabel, "web")], [some 8080], [⟨["10.0.0.1"], none⟩]⟩

/-- The world after the proxy, the slice and the given objects were written. -/
def world (xs : List Object) : World := (System.empty.writes (.envoyProxy proxy :: .endpointSlice slice :: xs)).world

def web : Raw := "\x7b\"name\": \"web\", \"type\": \"EDS\"\x7d"

/-- The spec of an assignment for it, and one that also has the name where the control plane looks for it. -/
def manual : Raw := "\x7b\"cluster_name\": \"web\"\x7d"
def named : Raw := "\x7b\"name\": \"web\", \"cluster_name\": \"web\"\x7d"

def assigned (manual : Raw) : World :=
  world [.cluster (cluster "web" "3" web), .clusterLoadAssignment (resource "web" "4" manual)]

/-- The proxy and a listener are written, and the notifications delivered. -/
def written : System := (System.empty.writes [.envoyProxy proxy, .listener (listener "http" "2")]).drain

theorem reachable_written (pj : Protojson) : Reachable pj written := (Reachable.empty.writes _).drain

/-- Two listeners whose resource versions give one text in both orders. -/
def http : XDSResource := listener "http" "12"
def https : XDSResource := listener "https" "1212"

def stored : API := ((API.empty.put (.envoyProxy proxy)).put (.listener http)).put (.listener https)

/-- The proxy and the two listeners are written, and the notifications delivered. -/
def secured : System := (System.empty.writes [.envoyProxy proxy, .listener http, .listener https]).drain

theorem reachable_secured (pj : Protojson) : Reachable pj secured := (Reachable.empty.writes _).drain

end Sample

end EnvoyMesh
