import EnvoyMesh.Theorems.Reconcile
import EnvoyMesh.Undisturbed

/-! # What a Reconcile can see

A Reconcile of a proxy lists objects of the whole cluster but goes on only with those that concern the
proxy: itself, the resources that target it and the EndpointSlices of the Services that its clusters
reference. Two API states that agree on those look the same to it. -/

namespace EnvoyMesh
open Prog

/-- The two API states hold the same proxy `key`, the same resources that target it, and the same
    EndpointSlices of the Services that its clusters reference, each in the same order. -/
structure SameView (key : NamespacedName) (a b : API) : Prop where
  proxy : a.envoyProxies.get? key = b.envoyProxies.get? key
  listeners : API.targeting key a.listeners.items = API.targeting key b.listeners.items
  clusters : a.clustersOf key = b.clustersOf key
  routes : API.targeting key a.routeConfigurations.items = API.targeting key b.routeConfigurations.items
  scopedRoutes : API.targeting key a.scopedRouteConfigurations.items = API.targeting key b.scopedRouteConfigurations.items
  assignments : API.targeting key a.clusterLoadAssignments.items = API.targeting key b.clusterLoadAssignments.items
  slices : ∀ c ∈ a.clustersOf key, ∀ ref, c.kubernetesServiceRef = some ref →
    a.endpointSlicesOf (c.svcNS ref) ref.name = b.endpointSlicesOf (c.svcNS ref) ref.name

theorem SameView.refl (key : NamespacedName) (a : API) : SameView key a a :=
  ⟨rfl, rfl, rfl, rfl, rfl, rfl, fun _ _ _ _ => rfl⟩

/-! ### The first half does not tell them apart -/

def SameItems {α : Type} (p : α → Bool) (r r' : Except String (List α)) : Prop :=
  (∃ l l', r = .ok l ∧ r' = .ok l' ∧ l.filter p = l'.filter p) ∨ ∃ e, r = .error e ∧ r' = .error e

theorem SameItems.map_eq {α β : Type} {p : α → Bool} {r r' : Except String (List α)} (h : SameItems p r r')
    {f : List α → β} (hf : ∀ l l', l.filter p = l'.filter p → f l = f l') : r.map f = r'.map f := by
  rcases h with ⟨l, l', rfl, rfl, h⟩ | ⟨e, rfl, rfl⟩
  · exact congrArg Except.ok (hf l l' h)
  · rfl

/-- Every answer of `v` has a counterpart under `v'` that agrees on what concerns proxy `key`; `cs` are
    the clusters that target it. -/
structure Matches (key : NamespacedName) (cs : List Cluster) (v v' : (c : Call) → c.Answer → Prop) : Prop where
  get : ∀ r, v (.get key) r → v' (.get key) r
  found : ∀ ep, v (.get key) (.ok (some ep)) → ep.key = key
  listeners : ∀ r, v .listListeners r → ∃ r', v' .listListeners r' ∧ SameItems (·.targets key.ns key.name) r r'
  clusters : ∀ r, v .listClusters r → ∃ r', v' .listClusters r' ∧ SameItems (·.targets key.ns key.name) r r'
  targeting : ∀ l, v .listClusters (.ok l) → ∀ c ∈ l.filter (·.targets key.ns key.name), c ∈ cs
  routes : ∀ r, v .listRouteConfigurations r →
    ∃ r', v' .listRouteConfigurations r' ∧ SameItems (·.targets key.ns key.name) r r'
  scopedRoutes : ∀ r, v .listScopedRouteConfigurations r →
    ∃ r', v' .listScopedRouteConfigurations r' ∧ SameItems (·.targets key.ns key.name) r r'
  assignments : ∀ r, v .listClusterLoadAssignments r →
    ∃ r', v' .listClusterLoadAssignments r' ∧ SameItems (·.targets key.ns key.name) r r'
  slices : ∀ c ∈ cs, ∀ ref, c.kubernetesServiceRef = some ref → ∀ r,
    v (.listEndpointSlices (c.svcNS ref) ref.name) r → v' (.listEndpointSlices (c.svcNS ref) ref.name) r
  others : ∀ c r, ¬c.isRead → v c r → v' c r

theorem collectItems_congr {ns name : String} {l l' : List XDSResource}
    (h : l.filter (·.targets ns name) = l'.filter (·.targets ns name)) :
    collectItems ns name l = collectItems ns name l' := by
  simp only [collectItems, h]

def keepClusters (ns name : String) (l : List Cluster) : List Raw × List String × List Cluster :=
  let items := l.filter (·.targets ns name)
  (items.map (·.spec), items.map (·.metadata.resourceVersion), items)

theorem run_collectListeners (ns name : String) : (collectListeners ns name).run =
    call .listListeners fun r => ret (Except.map (collectItems ns name) r) :=
  congrArg (call _) (funext fun r => by cases r <;> rfl)

theorem run_collectRoutes (ns name : String) : (collectRoutes ns name).run =
    call .listRouteConfigurations fun r => ret (Except.map (collectItems ns name) r) :=
  congrArg (call _) (funext fun r => by cases r <;> rfl)

theorem run_collectScopedRoutes (ns name : String) : (collectScopedRoutes ns name).run =
    call .listScopedRouteConfigurations fun r => ret (Except.map (collectItems ns name) r) :=
  congrArg (call _) (funext fun r => by cases r <;> rfl)

theorem run_collectClusters (ns name : String) : (collectClusters ns name).run =
    call .listClusters fun r => ret (Except.map (keepClusters ns name) r) :=
  congrArg (call _) (funext fun r => by cases r <;> rfl)

def addSynthesised (pj : Protojson) (clusters : List Cluster) (manual : List Raw × List String) :
    M (List Raw × List String) := do
  let (synthSpecs, synthVersions) ← synthesize pj (manual.1.map clusterName) clusters
  return (manual.1 ++ synthSpecs, manual.2 ++ synthVersions)

theorem run_collectEndpoints (pj : Protojson) (ns name : String) (clusters : List Cluster) :
    (collectEndpoints pj ns name clusters).run =
      call .listClusterLoadAssignments fun r =>
        match Except.map (collectItems ns name) r with
        | .ok manual => (addSynthesised pj clusters manual).run
        | .error e => ret (.error e) :=
  congrArg (call _) (funext fun r => by cases r <;> rfl)

section Sim
variable {pj : Protojson} {key : NamespacedName} {cs : List Cluster} {v v' : (c : Call) → c.Answer → Prop}

theorem sim_wrap {α : Type} {context : String} {x : M α} (h : x.run.Sim v v') : (M.wrap context x).run.Sim v v' :=
  h.bind fun _ _ => trivial

theorem Matches.sim_synthesize (h : Matches key cs v v') {names : List String} {clusters : List Cluster}
    (hcs : ∀ c ∈ clusters, c ∈ cs) : (synthesize pj names clusters).run.Sim v v' := by
  induction clusters with
  | nil => trivial
  | cons c clusters ih =>
    have hrest := ih fun c' hc' => hcs c' (List.mem_cons_of_mem _ hc')
    rw [synthesize]
    cases hsyn : synthesisOf names c with
    | none => exact hrest
    | some syn =>
      obtain ⟨href, hns, -⟩ := synthesisOf_eq_some hsyn
      obtain ⟨name, svcNS, ref⟩ := syn
      obtain rfl : svcNS = c.svcNS ref := hns
      refine Sim.run_bind (sim_wrap fun r hr => ⟨trivial, r, ?_, rfl⟩) fun slices _ => ?_
      · exact h.slices c (hcs c List.mem_cons_self) ref href r hr
      · exact Sim.run_bind (sim_wrap trivial) fun _ _ => Sim.run_bind hrest fun _ _ => trivial

theorem Matches.sim_collectEndpoints (h : Matches key cs v v') {clusters : List Cluster} (hcs : ∀ c ∈ clusters, c ∈ cs) :
    (collectEndpoints pj key.ns key.name clusters).run.Sim v v' := by
  rw [run_collectEndpoints]
  intro r hr
  obtain ⟨r', hr', hsame⟩ := h.assignments r hr
  refine ⟨?_, r', hr', by beta_reduce; rw [hsame.map_eq fun _ _ => collectItems_congr]⟩
  beta_reduce
  cases Except.map (collectItems key.ns key.name) r with
  | error e => trivial
  | ok manual => exact Sim.run_bind (h.sim_synthesize hcs) fun _ _ => trivial

theorem Matches.sim_collect (h : Matches key cs v v') : (collect pj key.ns key.name).run.Sim v v' := by
  refine Sim.run_bind (sim_wrap ?_) fun _ _ => ?_
  · rw [run_collectListeners]
    intro r hr
    obtain ⟨r', hr', hsame⟩ := h.listeners r hr
    exact ⟨trivial, r', hr', congrArg ret (hsame.map_eq fun _ _ => collectItems_congr).symm⟩
  refine Sim.run_bind (sim_wrap ?_) fun out hout => ?_
  · rw [run_collectClusters]
    intro r hr
    obtain ⟨r', hr', hsame⟩ := h.clusters r hr
    exact ⟨trivial, r', hr', congrArg ret (hsame.map_eq fun l l' hl => by simp only [keepClusters, hl]).symm⟩
  -- the clusters that were kept are among `cs`, so the slices they lead to are matched
  have hcs : ∀ c ∈ out.2.2, c ∈ cs := by
    rw [result_wrap, run_collectClusters] at hout
    obtain ⟨r, hr, hret⟩ := hout
    cases r with
    | error e => cases hret
    | ok l =>
      cases hret
      exact h.targeting l hr
  refine Sim.run_bind (sim_wrap ?_) fun _ _ => ?_
  · rw [run_collectRoutes]
    intro r hr
    obtain ⟨r', hr', hsame⟩ := h.routes r hr
    exact ⟨trivial, r', hr', congrArg ret (hsame.map_eq fun _ _ => collectItems_congr).symm⟩
  refine Sim.run_bind (sim_wrap ?_) fun _ _ => ?_
  · rw [run_collectScopedRoutes]
    intro r hr
    obtain ⟨r', hr', hsame⟩ := h.scopedRoutes r hr
    exact ⟨trivial, r', hr', congrArg ret (hsame.map_eq fun _ _ => collectItems_congr).symm⟩
  exact Sim.run_bind (sim_wrap (h.sim_collectEndpoints hcs)) fun _ _ => trivial

theorem Matches.sim_prepare (h : Matches key cs v v') : (prepare pj key).run.Sim v v' := by
  refine Sim.run_bind (fun r hr => ⟨trivial, r, h.get r hr, rfl⟩) fun found hfound => ?_
  cases found with
  | none => trivial
  | some ep =>
    have hkey : ep.key = key := by
      obtain ⟨r, hr, rfl⟩ := hfound
      exact h.found ep hr
    refine Sim.run_bind ?_ fun _ _ => trivial
    subst hkey
    exact h.sim_collect

theorem Matches.sim_reconcile (h : Matches key cs v v') : (reconcile pj key).Sim v v' :=
  h.sim_prepare.bind fun _ _ => Sim.of_uses finish_uses fun c r hc => h.others c r hc

end Sim

/-! ### Agreeing states -/

section Agree
variable {key : NamespacedName} {a b : API}

theorem sameItems_of_lists {α : Type} {p : α → Bool} {items items' : List α} (h : items.filter p = items'.filter p)
    {r : Except String (List α)} (hr : Lists items r) : ∃ r', Lists items' r' ∧ SameItems p r r' := by
  rcases hr with ⟨l, rfl, hl⟩ | ⟨e, rfl⟩
  · obtain ⟨l', hl', hfilter⟩ := exists_perm_filter p (h ▸ hl.filter p)
    exact ⟨.ok l', lists_ok.mpr hl', Or.inl ⟨l, l', rfl, rfl, hfilter.symm⟩⟩
  · exact ⟨.error e, Or.inr ⟨e, rfl⟩, Or.inr ⟨e, rfl, rfl⟩⟩

theorem SameView.reads (h : SameView key a b) : Matches key (a.clustersOf key) a.Reads b.Reads where
  get r hr := by
    simp only [API.Reads, ← h.proxy] at hr ⊢
    exact hr
  found _ hr := key_of_reads hr
  listeners _ hr := sameItems_of_lists h.listeners hr
  clusters _ hr := sameItems_of_lists h.clusters hr
  targeting _ hl _ hc := ((lists_ok.mp hl).filter _).mem_iff.mp hc
  routes _ hr := sameItems_of_lists h.routes hr
  scopedRoutes _ hr := sameItems_of_lists h.scopedRoutes hr
  assignments _ hr := sameItems_of_lists h.assignments hr
  slices c hc ref href r hr := by
    simp only [API.Reads, ← h.slices c hc ref href] at hr ⊢
    exact hr
  others c r hc hr := by
    cases c <;> first | exact absurd trivial hc | exact hr

theorem SameView.pipeline {pj : Protojson} {snap : Snapshot} (h : SameView key a b) (hp : Pipeline pj a key snap) :
    Pipeline pj b key snap := by
  obtain ⟨c, hc, hbuild⟩ := hp
  exact ⟨c, h.reads.sim_collect.result hc, hbuild⟩

/-- The answers of the other parties: the snapshot cache, the connection table and status writes. -/
structure Others where
  setSnapshot : String → Snapshot → Except String Unit
  isConnected : String → Bool
  updateStatus : EnvoyProxy → Except String EnvoyProxy

/-- The API in which every List succeeds and returns the objects in the stored order. -/
def API.serve (a : API) (o : Others) : (c : Call) → c.Answer
  | .get key => .ok (a.envoyProxies.get? key)
  | .listListeners => .ok a.listeners.items
  | .listClusters => .ok a.clusters.items
  | .listRouteConfigurations => .ok a.routeConfigurations.items
  | .listScopedRouteConfigurations => .ok a.scopedRouteConfigurations.items
  | .listClusterLoadAssignments => .ok a.clusterLoadAssignments.items
  | .listEndpointSlices ns svc => .ok (a.endpointSlicesOf ns svc)
  | .setSnapshot nodeID snap => o.setSnapshot nodeID snap
  | .isConnected nodeID => o.isConnected nodeID
  | .updateStatus ep => o.updateStatus ep

theorem SameView.serve (h : SameView key a b) (o : Others) :
    Matches key (a.clustersOf key) (fun c r => r = a.serve o c) (fun c r => r = b.serve o c) where
  get r hr := by
    simp only [API.serve, ← h.proxy] at hr ⊢
    exact hr
  found ep hr := (Store.get?_eq_some.mp (Except.ok.inj hr).symm).2
  listeners _ hr := ⟨_, rfl, Or.inl ⟨_, _, hr, rfl, h.listeners⟩⟩
  clusters _ hr := ⟨_, rfl, Or.inl ⟨_, _, hr, rfl, h.clusters⟩⟩
  targeting l hl c hc := by
    cases hl
    exact hc
  routes _ hr := ⟨_, rfl, Or.inl ⟨_, _, hr, rfl, h.routes⟩⟩
  scopedRoutes _ hr := ⟨_, rfl, Or.inl ⟨_, _, hr, rfl, h.scopedRoutes⟩⟩
  assignments _ hr := ⟨_, rfl, Or.inl ⟨_, _, hr, rfl, h.assignments⟩⟩
  slices c hc ref href r hr := by
    simp only [API.serve, ← h.slices c hc ref href] at hr ⊢
    exact hr
  others c r hc hr := by
    cases c <;> first | exact absurd trivial hc | exact hr

/-- Proxies do not interfere: a Reconcile makes the same calls, the snapshot it sets included, and has
    the same outcome in any two API states that agree on what concerns its proxy. -/
theorem proxies_do_not_interfere {pj : Protojson} (o : Others) (h : SameView key a b) :
    (reconcile pj key).run (a.serve o) = (reconcile pj key).run (b.serve o) :=
  (h.serve o).sim_reconcile.run_eq

end Agree

namespace Sample

def alone : World := world [.cluster (cluster "web" "3" web)]

def shared : World := alone.write (.listener ⟨metadata "bad" "4", ⟨"neighbour", ""⟩, "["⟩)

def others : Others := ⟨fun _ _ => .ok (), fun _ => false, fun ep => .ok ep⟩

end Sample

theorem neighbour_does_not_interfere :
    Sample.alone.api.listeners.items ≠ Sample.shared.api.listeners.items ∧
    (reconcile .reference Sample.proxy.key).run (Sample.alone.api.serve Sample.others) =
      (reconcile .reference Sample.proxy.key).run (Sample.shared.api.serve Sample.others) :=
  ⟨by decide +kernel, proxies_do_not_interfere Sample.others
    ⟨rfl, by decide +kernel, rfl, rfl, rfl, rfl, fun _ _ _ _ => rfl⟩⟩

end EnvoyMesh
