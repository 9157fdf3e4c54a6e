import EnvoyMesh.ApiServer
import EnvoyMesh.Deployment
import EnvoyMesh.Theorems.Endpoints
import EnvoyMesh.Undisturbed

/-! # Replicas

What one process of a deployment sees is a run of a control plane that is alone: what the other processes write are
writes of somebody else, and a process that starts finds the objects as if they had just been written. -/

namespace EnvoyMesh

/-! ### Stored objects as writes -/

section Objects
variable {κ α : Type} [DecidableEq κ] {key : α → κ}

theorem foldl_put_kind (set : Store key → API) (object : α → Object) (h : ∀ s x, (set s).put (object x) = set (s.put x))
    (s : Store key) (rest : List Object) :
    (s.items.map object ++ rest).foldl API.put (set .empty) = rest.foldl API.put (set s) := by
  have hitems : s.items.foldl Store.put .empty = s := Store.ext_items (Store.items_foldl_put s.nodup)
  have hgen (l : List α) (u : Store key) : (l.map object).foldl API.put (set u) = set (l.foldl Store.put u) := by
    induction l generalizing u with
    | nil => rfl
    | cons x l ih => rw [List.map_cons, List.foldl_cons, h, ih, List.foldl_cons]
  rw [List.foldl_append, hgen, hitems]

theorem foldl_put_objects (a : API) : a.objects.foldl API.put .empty = a := by
  simp only [API.objects, List.flatten_cons, List.flatten_nil]
  rw [API.empty, foldl_put_kind (fun s => ⟨s, .empty, .empty, .empty, .empty, .empty, .empty⟩) .envoyProxy fun _ _ => rfl,
    foldl_put_kind (fun s => ⟨_, s, .empty, .empty, .empty, .empty, .empty⟩) .listener fun _ _ => rfl,
    foldl_put_kind (fun s => ⟨_, _, s, .empty, .empty, .empty, .empty⟩) .cluster fun _ _ => rfl,
    foldl_put_kind (fun s => ⟨_, _, _, s, .empty, .empty, .empty⟩) .routeConfiguration fun _ _ => rfl,
    foldl_put_kind (fun s => ⟨_, _, _, _, s, .empty, .empty⟩) .scopedRouteConfiguration fun _ _ => rfl,
    foldl_put_kind (fun s => ⟨_, _, _, _, _, s, .empty⟩) .clusterLoadAssignment fun _ _ => rfl,
    foldl_put_kind (fun s => ⟨_, _, _, _, _, _, s⟩) .endpointSlice fun _ _ => rfl]
  rfl

omit [DecidableEq κ] in
theorem nodup_kind (s : Store key) {kind : κ → ObjectKey} (hkind : Function.Injective kind) :
    (s.items.map fun x => kind (key x)).Nodup := by
  have h := s.nodup.map hkind
  rwa [List.map_map] at h

theorem nodup_objects (a : API) : (a.objects.map Object.key).Nodup := by
  simp only [API.objects, List.map_flatten, List.map_cons, List.map_nil, List.map_map, List.nodup_flatten]
  constructor
  · simp only [List.forall_mem_cons, List.not_mem_nil, IsEmpty.forall_iff, implies_true, and_true]
    refine ⟨nodup_kind a.envoyProxies ?_, nodup_kind a.listeners ?_, nodup_kind a.clusters ?_,
      nodup_kind a.routeConfigurations ?_, nodup_kind a.scopedRouteConfigurations ?_,
      nodup_kind a.clusterLoadAssignments ?_, nodup_kind a.endpointSlices ?_⟩ <;> intro k k' h <;> cases h <;> rfl
  · -- objects of two kinds have different keys
    simp [List.disjoint_left, Object.key]

end Objects

/-- Objects that are new leave a notification each. -/
theorem foldl_write_new {xs : List Object} {w : World} (hnew : ∀ x ∈ xs, w.api.get? x.key = none)
    (hnodup : (xs.map Object.key).Nodup) : xs.foldl World.write w =
      { w with api := xs.foldl API.put w.api, events := w.events ++ xs.map fun x => ⟨none, some x⟩ } := by
  induction xs generalizing w with
  | nil => simp
  | cons x xs ih =>
    obtain ⟨hx, hxs⟩ := List.nodup_cons.mp hnodup
    rw [List.foldl_cons, ih (fun y hy => ?_) hxs]
    · simp only [World.write, hnew x List.mem_cons_self, List.foldl_cons, List.map_cons, List.append_assoc,
        List.singleton_append]
    · have hne : x.key ≠ y.key := fun heq => hx (heq ▸ List.mem_map_of_mem hy)
      exact ((API.get?_put ..).trans (if_neg hne)).trans (hnew y (List.mem_cons_of_mem _ hy))

/-! ### What a process sees -/

/-- A process whose controllers do not run has served no one; one whose controllers run is a control plane. -/
inductive Replica.Sound (pj : Protojson) (a : API) : Replica → Prop where
  | standby (st : Streams) (h : Reachable pj (Replica.view .empty { Replica.created with streams := st })) :
      Sound pj a { Replica.created with streams := st }
  | active (r : Replica) (ha : r.active = true) (h : Reachable pj (r.view a)) : Sound pj a r

/-- A change of the objects that others can make. -/
inductive Change (a : API) : API → List Event → Prop where
  | none : Change a a []
  | write (x : Object) : Change a (a.put x) [⟨a.get? x.key, some x⟩]
  | delete (k : ObjectKey) (x : Object) (hx : a.get? k = some x) : Change a (a.erase k) [⟨some x, .none⟩]

section Sound
variable {pj : Protojson} {leaderElect : Bool} {a a' : API} {r : Replica} {es : List Event} {d e : Deployment} {i : Nat}

/-- What a process writes is a change for the others. -/
theorem change_of_works {s t : System} (h : Works pj World.Answers s t) :
    Change s.world.api t.world.api (t.world.events.drop s.world.events.length) := by
  have hsame {s t : System} (hapi : t.world.api = s.world.api) (hevents : t.world.events.length ≤ s.world.events.length) :
      Change s.world.api t.world.api (t.world.events.drop s.world.events.length) := by
    rw [hapi, List.drop_eq_nil_of_le hevents]
    exact .none
  cases h with
  | deliver front back e clusters he hc =>
    refine hsame rfl ?_
    rw [he]
    simp [System.enqueue]
  | start | done | failed => exact hsame rfl le_rfl
  | call key c k r w hr hw =>
    cases c with
    | updateStatus ep =>
      rcases hw with ⟨e, -, rfl⟩ | ⟨old, hold, -, ⟨-, -, rfl⟩ | ⟨-, rv, -, rfl⟩⟩
      · exact hsame rfl le_rfl
      · exact hsame rfl le_rfl
      · have hget : s.world.api.get? (Object.envoyProxy (old.withStatus ep.status rv)).key = some (.envoyProxy old) :=
          congrArg (Option.map Object.envoyProxy) (show s.world.api.envoyProxies.get? old.key = some old by
            rw [(Store.get?_eq_some.mp hold).2, hold])
        have hchange := Change.write (a := s.world.api) (.envoyProxy (old.withStatus ep.status rv))
        rw [hget] at hchange
        simpa using hchange
    | setSnapshot nodeID snap =>
      obtain rfl : w = _ := hw
      exact hsame rfl le_rfl
    | _ =>
      obtain ⟨-, rfl⟩ := hw
      exact hsame rfl le_rfl

theorem Change.reachable {s : System} (h : Change s.world.api a' es) (hs : Reachable pj s) :
    Reachable pj { s with world := { s.world with api := a', events := s.world.events ++ es } } := by
  cases h with
  | none => rwa [List.append_nil]
  | write x => exact hs.step (.write s x)
  | delete k x hx => exact hs.step (.delete s k x hx)

theorem Replica.Sound.told (h : r.Sound pj a) (hc : Change a a' es) : (r.told es).Sound pj a' := by
  cases h with
  | standby st h => exact .standby st h
  | active _ ha h =>
    rw [Replica.told, if_pos ha]
    exact .active _ ha (hc.reachable (s := r.view a) h)

theorem Replica.Sound.activate (h : r.Sound pj a) (hr : r.active = false) : (r.activate a).Sound pj a := by
  cases h with
  | active _ ha => cases hr.symm.trans ha
  | standby st h =>
    refine .active _ rfl ?_
    have hwrites := h.writes a.objects
    rw [System.writes, foldl_write_new (fun x _ => by cases x <;> rfl) (nodup_objects a)] at hwrites
    have hobjects : a.objects.foldl API.put (Replica.view .empty { Replica.created with streams := st }).world.api = a :=
      foldl_put_objects a
    rw [hobjects] at hwrites
    exact hwrites

theorem Replica.Sound.reachable (h : r.Sound pj a) (ha : r.active = true) : Reachable pj (r.view a) := by
  cases h with
  | standby st _ => cases ha
  | active _ _ hr => exact hr

theorem Deployment.replicas_set {r' : Option Replica} {j : Nat} (hj : (d.set i r').replicas j = some r) :
    (j = i ∧ r' = some r) ∨ d.replicas j = some r := by
  change Function.update d.replicas i r' j = some r at hj
  by_cases hij : j = i
  · subst hij
    rw [Function.update_self] at hj
    exact Or.inl ⟨rfl, hj⟩
  · rw [Function.update_of_ne hij] at hj
    exact Or.inr hj

theorem sound_created (pj : Protojson) (a : API) : Replica.created.Sound pj a := .standby .empty .empty

/-- What every process of a deployment is. -/
theorem replicas_sound (h : d.Reachable pj leaderElect) (hi : d.replicas i = some r) : r.Sound pj d.api := by
  induction h generalizing i r with
  | empty => cases hi
  | @step d e hd hs ih =>
    have hset {i j : Nat} {r r' : Replica} (hr' : r'.Sound pj d.api) (hj : (d.set i (some r')).replicas j = some r) :
        r.Sound pj d.api := by
      rcases Deployment.replicas_set hj with ⟨-, heq⟩ | hj
      · exact Option.some.inj heq ▸ hr'
      · exact ih hj
    have hchanged {a : API} {es : List Event} (hc : Change d.api a es) {j : Nat} {r : Replica}
        (hj : (d.changed a es).replicas j = some r) : r.Sound pj a := by
      obtain ⟨r₀, hr₀, rfl⟩ := Option.map_eq_some_iff.mp hj
      exact (ih hr₀).told hc
    cases hs with
    | write x => exact hchanged (.write x) hi
    | delete k x hx => exact hchanged (.delete k x hx) hi
    | boot j hj =>
      refine hset ?_ hi
      split
      · exact sound_created pj d.api
      · exact (sound_created pj d.api).activate rfl
    | exit j =>
      rcases Deployment.replicas_set hi with ⟨-, heq⟩ | hi
      · cases heq
      · exact ih hi
    | elect j r' hj ha helect => exact hset ((ih hj).activate ha) hi
    | work _ h =>
      obtain ⟨j, r', t, hj, ha, ht⟩ := h
      rcases Deployment.replicas_set hi with ⟨-, heq⟩ | hi
      · obtain rfl := Option.some.inj heq
        cases ih hj with
        | standby st _ => cases ha
        | active _ _ hr' => exact .active _ ha (hr'.step (ht.step fun _ _ _ _ hw => hw))
      · exact hchanged (change_of_works ht) hi
    | stream j r' ev st hj hst =>
      refine hset ?_ hi
      cases ih hj with
      | standby st₀ h => exact .standby st (h.step (.stream _ ev st hst))
      | active _ ha h => exact .active _ ha (h.step (.stream _ ev st hst))

end Sound

/-! ### A process at work -/

theorem Replica.told_told (r : Replica) (es es' : List Event) : (r.told es).told es' = r.told (es ++ es') := by
  unfold Replica.told
  by_cases ha : r.active = true
  · simp only [ha, if_true, List.append_assoc]
  · simp only [ha, Bool.false_eq_true, if_false]

theorem Replica.told_nil (r : Replica) : r.told [] = r := by
  unfold Replica.told
  split
  · rw [List.append_nil]
  · rfl

section Lift
variable {pj : Protojson} {leaderElect : Bool} {d e : Deployment} {i : Nat} {r : Replica} {t : System} {es : List Event}

/-- What a process does as a control plane, the deployment does; the others get the notifications. -/
theorem Deployment.exists_works (hi : d.replicas i = some r) (ha : r.active = true)
    (h : EnvoyMesh.Works pj World.AnswersWell (r.view d.api) t) : ∃ e : Deployment, d.Works pj World.AnswersWell e ∧
      e.api = t.world.api ∧ e.replicas i = some (r.update t) ∧
      ∀ j, j ≠ i → e.replicas j = (d.replicas j).map (·.told (t.world.events.drop r.events.length)) :=
  ⟨_, .step d i r t hi ha h, rfl, Function.update_self .., fun _ hj => Function.update_of_ne hj ..⟩

theorem Sends.lift (hi : d.replicas i = some r) (ha : r.active = true) (h : Sends pj (r.view d.api) es t) :
    ∃ e : Deployment, Relation.ReflTransGen (Deployment.Works pj World.AnswersWell) d e ∧ e.api = t.world.api ∧
      e.replicas i = some (r.update t) ∧ ∀ j, j ≠ i → e.replicas j = (d.replicas j).map (·.told es) := by
  induction h with
  | refl => exact ⟨d, .refl, rfl, hi, fun j _ => by simp only [Replica.told_nil, Option.map_id']⟩
  | @tail es t u _ hw ih =>
    obtain ⟨e, hrun, hapi, hi', hothers⟩ := ih
    have hview : (r.update t).view e.api = t := by rw [hapi]; rfl
    obtain ⟨e', hstep, hapi', hi'', hothers'⟩ := Deployment.exists_works hi' ha (hview ▸ hw)
    refine ⟨e', hrun.tail hstep, hapi', hi'', fun j hj => ?_⟩
    rw [hothers' j hj, hothers j hj, Option.map_map]
    exact congrArg (Option.map · _) (funext fun r' => Replica.told_told r' ..)

theorem Deployment.Reachable.works (h : d.Reachable pj leaderElect)
    (hrun : Relation.ReflTransGen (Deployment.Works pj World.AnswersWell) d e) : e.Reachable pj leaderElect := by
  induction hrun with
  | refl => exact h
  | tail _ hw ih =>
    obtain ⟨i, r, t, hi, ha, ht⟩ := hw
    refine ih.step (.work _ _ (.step _ i r t hi ha ?_))
    cases ht with
    | deliver front back e clusters he hc => exact .deliver _ front back e clusters he hc
    | start key hq hr => exact .start _ key hq hr
    | call key c k r w hr hw => exact .call _ key c k r w hr hw.1
    | done key hr => exact .done _ key hr
    | failed key e hr => exact .failed _ key e hr

end Lift

namespace Sample

/-- A process that found the objects when its controllers started, was notified of them and has reconciled the proxy. -/
def worked (sel : Selected) : System where
  world := { ((Replica.created.activate stored).view stored).drain.world with
    cache := Function.update (fun _ => none) proxy.key.nodeID (some (newSnapshot sel.version (sel.resources .reference))) }
  queue := ((Replica.created.activate stored).view stored).drain.queue.filter (· ≠ proxy.key)
  running _ := none

theorem cache_worked (sel : Selected) :
    (worked sel).world.cache proxy.key.nodeID = some (newSnapshot sel.version (sel.resources .reference)) := by
  simp only [worked, Function.update_self]

theorem sends_worked {sel : Selected} (hsel : Selects stored proxy.key sel) :
    Sends .reference ((Replica.created.activate stored).view stored) [] (worked sel) := by
  have hexec := exec_selected (w := ((Replica.created.activate stored).view stored).drain.world) Protojson.reference_lawful
    (show _ = some proxy from rfl) decodable_stored hsel
  have hqueue : proxy.key ∈ ((Replica.created.activate stored).view stored).drain.queue := by decide +kernel
  obtain ⟨es, hes, hsends⟩ := Sends.refl.drain.exec hqueue rfl hexec
  obtain rfl := List.append_right_eq_self.mp hes.symm
  exact hsends

theorem exists_worked {d : Deployment} {i : Nat} {sel : Selected} (h : d.Reachable .reference true) (hapi : d.api = stored)
    (hi : d.replicas i = some (Replica.created.activate stored)) (hsel : Selects stored proxy.key sel) :
    ∃ e : Deployment, e.Reachable .reference true ∧ e.api = stored ∧
      e.replicas i = some ((Replica.created.activate stored).update (worked sel)) ∧
      ∀ j, j ≠ i → e.replicas j = d.replicas j := by
  have hsends : Sends .reference ((Replica.created.activate stored).view d.api) [] (worked sel) := hapi ▸ sends_worked hsel
  obtain ⟨e, hrun, hapi', hi', hothers⟩ := hsends.lift hi rfl
  refine ⟨e, h.works hrun, hapi', hi', fun j hj => ?_⟩
  simp only [hothers j hj, Replica.told_nil, Option.map_id']

/-- Two processes are elected, the second while the controllers of the first still run, and both work. -/
theorem exists_overlap {sel sel' : Selected} (hsel : Selects stored proxy.key sel) (hsel' : Selects stored proxy.key sel') :
    ∃ d : Deployment, d.Reachable .reference true ∧ d.api = stored ∧
      d.replicas 0 = some ((Replica.created.activate stored).update (worked sel)) ∧
      d.replicas 1 = some ((Replica.created.activate stored).update (worked sel')) := by
  have hproxy : Deployment.Reachable .reference true _ := .step .empty (.write _ (.envoyProxy proxy))
  have hobjects := (hproxy.step (.write _ (.listener http))).step (.write _ (.listener https))
  have hfirst := (hobjects.step (.boot _ 0 rfl)).step (.elect _ 0 .created rfl rfl rfl)
  obtain ⟨d, hd, hapi, h0, hothers⟩ := exists_worked (i := 0) hfirst rfl rfl hsel
  have h1 : d.replicas 1 = none := hothers 1 (by decide)
  have hsecond := (hd.step (.boot d 1 h1)).step (.elect _ 1 .created rfl rfl rfl)
  obtain ⟨e, he, hapi', h1', hothers'⟩ := exists_worked hsecond hapi
    ((Function.update_self ..).trans (congrArg (fun a => some (Replica.created.activate a)) hapi)) hsel'
  refine ⟨e, he, hapi', ?_, h1'⟩
  rw [hothers' 0 (by decide)]
  exact h0

end Sample

/-- Every process of a deployment whose controllers run is in a state that a control plane can reach that is alone, with
    the objects stored now: whatever other processes do, however often processes end and start, and whoever is elected. -/
theorem replica_behaves_alone {pj : Protojson} {leaderElect : Bool} {d : Deployment} (h : d.Reachable pj leaderElect)
    {i : Nat} {r : Replica} (hi : d.replicas i = some r) (ha : r.active = true) : Reachable pj (r.view d.api) :=
  (replicas_sound h hi).reachable ha

/-- The first of two processes that have been elected and have worked. -/
theorem elected_behaves_alone : ∃ (d : Deployment) (r : Replica), d.Reachable .reference true ∧ d.replicas 0 = some r ∧
    r.active = true ∧ (r.cache Sample.proxy.key.nodeID).isSome ∧ Reachable .reference (r.view d.api) := by
  obtain ⟨d, hd, -, h0, -⟩ := Sample.exists_overlap selects_stored selects_stored
  exact ⟨d, _, hd, h0, rfl, Option.isSome_of_eq_some (Sample.cache_worked _), replica_behaves_alone hd h0 rfl⟩

end EnvoyMesh
