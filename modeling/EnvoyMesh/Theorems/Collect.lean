import EnvoyMesh.World
import Mathlib.Data.List.Forall2

/-! # What a Reconcile collects

A Reconcile sees the API through its List calls. `Selected` holds the objects it keeps of them, in the
order in which they were listed, and `Selects` says which of those an API state can give. The result of
the collectors is a function of the selected objects (`collect_iff`), so that everything about versions
and snapshots can be said about `Selected`. -/

namespace EnvoyMesh
open Prog

/-! ### Lists -/

theorem exists_perm_filter {α : Type} (p : α → Bool) {l items : List α} (h : l.Perm (items.filter p)) :
    ∃ l' : List α, l'.Perm items ∧ l'.filter p = l := by
  refine ⟨l ++ items.filter (fun x => !p x), ?_, ?_⟩
  · exact (h.append_right _).trans (List.filter_append_perm p items)
  · have hl : ∀ x ∈ l, p x = true := fun x hx => (List.mem_filter.mp (h.mem_iff.mp hx)).2
    rw [List.filter_append, List.filter_eq_self.mpr hl]
    simp

theorem lists_ok {α : Type} {stored l : List α} : Lists stored (.ok l) ↔ l.Perm stored := by
  simp [Lists]

/-! ### Errors -/

@[simp] theorem wrap_eq_ok {α : Type} {context : String} {x : Except String α} {a : α} :
    wrap context x = .ok a ↔ x = .ok a := by
  cases x <;> simp [wrap, Except.mapError]

@[simp] theorem result_wrap {α : Type} {v : (c : Call) → c.Answer → Prop} {context : String} {x : M α} {a : α} :
    (M.wrap context x).run.Result v (.ok a) ↔ x.run.Result v (.ok a) := by
  simp only [M.wrap, ExceptT.run_mk, result_bind, pure_eq_ret, result_ret, wrap_eq_ok]
  constructor
  · intro hgiven
    rcases hgiven with ⟨r, hr, rfl⟩
    exact hr
  · exact fun h => ⟨_, h, rfl⟩

/-! ### Synthesis -/

def Cluster.svcNS (c : Cluster) (ref : KubernetesServiceRef) : String :=
  if ref.ns = "" then c.metadata.ns else ref.ns

theorem synthesisOf_eq_some {names : List String} {c : Cluster} {syn : Synthesis} (h : synthesisOf names c = some syn) :
    c.kubernetesServiceRef = some syn.ref ∧ syn.svcNS = c.svcNS syn.ref ∧ syn.clusterName = clusterName c.spec ∧
      syn.clusterName ≠ "" ∧ syn.clusterName ∉ names := by
  unfold synthesisOf at h
  split at h
  · cases h
  · next ref href =>
    simp only at h
    split at h
    · cases h
    · next hn =>
      cases h
      rw [not_or] at hn
      exact ⟨href, rfl, rfl, hn.1, hn.2⟩

/-- A cluster with a reference is skipped if no name is read off its spec, or one that is taken. -/
theorem synthesisOf_eq_none {names : List String} {c : Cluster} (h : c.kubernetesServiceRef.isSome) :
    synthesisOf names c = none ↔ clusterName c.spec = "" ∨ clusterName c.spec ∈ names := by
  obtain ⟨ref, href⟩ := Option.isSome_iff_exists.mp h
  simp only [synthesisOf, href, ite_eq_left_iff, reduceCtorEq, imp_false, not_not]

theorem synthesisOf_congr {names names' : List String} {c : Cluster} (h : ∀ n, n ∈ names ↔ n ∈ names') :
    synthesisOf names c = synthesisOf names' c := by
  simp only [synthesisOf, h]

/-! ### Selected objects -/

/-- A synthesised assignment: the cluster and Service it is for, and the slices that were listed. -/
structure Synthesised where
  synthesis : Synthesis
  slices : List EndpointSlice

def Synthesised.cla (x : Synthesised) : Envoy.ClusterLoadAssignment :=
  synthesizeCLA x.synthesis.clusterName x.slices x.synthesis.ref.port

/-- The objects one Reconcile collects, in listing order. -/
structure Selected where
  listeners : List XDSResource
  clusters : List Cluster
  routes : List XDSResource
  scopedRoutes : List XDSResource
  manual : List XDSResource
  synthesised : List Synthesised

def XDSResource.rv (x : XDSResource) : String := x.metadata.resourceVersion
def EndpointSlice.rv (x : EndpointSlice) : String := x.metadata.resourceVersion

def Selected.manualNames (s : Selected) : List String := s.manual.map fun x => clusterName x.spec

def API.targeting (key : NamespacedName) (items : List XDSResource) : List XDSResource :=
  items.filter (·.targets key.ns key.name)

def API.clustersOf (a : API) (key : NamespacedName) : List Cluster :=
  a.clusters.items.filter (·.targets key.ns key.name)

/-- The objects that a Reconcile of `key` can select from the stored ones. -/
structure Selects (a : API) (key : NamespacedName) (s : Selected) : Prop where
  listeners : s.listeners.Perm (API.targeting key a.listeners.items)
  clusters : s.clusters.Perm (a.clustersOf key)
  routes : s.routes.Perm (API.targeting key a.routeConfigurations.items)
  scopedRoutes : s.scopedRoutes.Perm (API.targeting key a.scopedRouteConfigurations.items)
  manual : s.manual.Perm (API.targeting key a.clusterLoadAssignments.items)
  syntheses : s.synthesised.map (·.synthesis) = s.clusters.filterMap (synthesisOf s.manualNames)
  slices : ∀ x ∈ s.synthesised, x.slices.Perm (a.endpointSlicesOf x.synthesis.svcNS x.synthesis.ref.name)

/-- The resource versions that enter the version, in the groups of `computeVersion`. -/
def Selected.versions (s : Selected) : List (List String) :=
  [s.listeners.map (·.rv), s.clusters.map (·.rv), s.routes.map (·.rv), s.scopedRoutes.map (·.rv),
    s.manual.map (·.rv) ++ s.synthesised.flatMap fun x => x.slices.map (·.rv)]

def Selected.collected (s : Selected) (raws : List Raw) : Collected where
  listeners := s.listeners.map (·.spec)
  clusters := s.clusters.map (·.spec)
  routes := s.routes.map (·.spec)
  scopedRoutes := s.scopedRoutes.map (·.spec)
  endpoints := s.manual.map (·.spec) ++ raws
  versions := s.versions

/-- `raws` are the texts that `protojson` writes for the synthesised assignments. -/
def Marshals (pj : Protojson) (xs : List Synthesised) (raws : List Raw) : Prop :=
  List.Forall₂ (fun x raw => pj.marshal x.cla = .ok raw) xs raws

/-! ### The collectors -/

/-- A List call that succeeds returns the stored objects of its kind, in any order. -/
structure Listing (a : API) (v : (c : Call) → c.Answer → Prop) : Prop where
  listeners : ∀ l, v .listListeners (.ok l) ↔ l.Perm a.listeners.items
  clusters : ∀ l, v .listClusters (.ok l) ↔ l.Perm a.clusters.items
  routes : ∀ l, v .listRouteConfigurations (.ok l) ↔ l.Perm a.routeConfigurations.items
  scopedRoutes : ∀ l, v .listScopedRouteConfigurations (.ok l) ↔ l.Perm a.scopedRouteConfigurations.items
  assignments : ∀ l, v .listClusterLoadAssignments (.ok l) ↔ l.Perm a.clusterLoadAssignments.items
  slices : ∀ ns svc l, v (.listEndpointSlices ns svc) (.ok l) ↔ l.Perm (a.endpointSlicesOf ns svc)

theorem API.listing (a : API) : Listing a a.Reads :=
  ⟨fun _ => lists_ok, fun _ => lists_ok, fun _ => lists_ok, fun _ => lists_ok, fun _ => lists_ok, fun _ _ _ => lists_ok⟩

section Collectors
variable {pj : Protojson} {a : API} {key : NamespacedName} {v : (c : Call) → c.Answer → Prop}

theorem result_collectItems {P : Calls (Except String (List XDSResource))} {stored : List XDSResource}
    (hP : ∀ l, P.Result v (.ok l) ↔ l.Perm stored) {out : List Raw × List String} :
    (do let list ← (ExceptT.mk P : M (List XDSResource)); return collectItems key.ns key.name list : M _).run.Result
      v (.ok out) ↔ ∃ l : List XDSResource, l.Perm (API.targeting key stored) ∧ out = (l.map (·.spec), l.map (·.rv)) := by
  rw [result_run_bind]
  simp only [ExceptT.run_mk, hP, ExceptT.run_pure, pure_eq_ret, result_ret, Except.ok.injEq]
  constructor
  · intro h
    rcases h with ⟨l, hl, rfl⟩
    exact ⟨_, hl.filter _, rfl⟩
  · intro h
    rcases h with ⟨l, hl, rfl⟩
    obtain ⟨l', hl', rfl⟩ := exists_perm_filter _ hl
    exact ⟨l', hl', rfl⟩

theorem result_collectListeners (hv : Listing a v) {out : List Raw × List String} :
    (collectListeners key.ns key.name).run.Result v (.ok out) ↔
      ∃ l : List XDSResource, l.Perm (API.targeting key a.listeners.items) ∧ out = (l.map (·.spec), l.map (·.rv)) :=
  result_collectItems fun l => by simp [Client.listListeners, ask, hv.listeners]

theorem result_collectRoutes (hv : Listing a v) {out : List Raw × List String} :
    (collectRoutes key.ns key.name).run.Result v (.ok out) ↔
      ∃ l : List XDSResource, l.Perm (API.targeting key a.routeConfigurations.items) ∧
        out = (l.map (·.spec), l.map (·.rv)) :=
  result_collectItems fun l => by simp [Client.listRouteConfigurations, ask, hv.routes]

theorem result_collectScopedRoutes (hv : Listing a v) {out : List Raw × List String} :
    (collectScopedRoutes key.ns key.name).run.Result v (.ok out) ↔
      ∃ l : List XDSResource, l.Perm (API.targeting key a.scopedRouteConfigurations.items) ∧
        out = (l.map (·.spec), l.map (·.rv)) :=
  result_collectItems fun l => by simp [Client.listScopedRouteConfigurations, ask, hv.scopedRoutes]

theorem result_collectClusters (hv : Listing a v) {out : List Raw × List String × List Cluster} :
    (collectClusters key.ns key.name).run.Result v (.ok out) ↔
      ∃ l : List Cluster, l.Perm (a.clustersOf key) ∧ out = (l.map (·.spec), l.map (·.rv), l) := by
  rw [collectClusters, result_run_bind]
  simp only [ExceptT.run_mk, Client.listClusters, ask, result_call, result_ret, exists_eq_right, hv.clusters,
    ExceptT.run_pure, pure_eq_ret, Except.ok.injEq]
  constructor
  · intro h
    rcases h with ⟨l, hl, rfl⟩
    exact ⟨_, hl.filter _, rfl⟩
  · intro h
    rcases h with ⟨l, hl, rfl⟩
    obtain ⟨l', hl', rfl⟩ := exists_perm_filter _ hl
    exact ⟨l', hl', rfl⟩

/-- The synthesis loop lists the slices of each cluster that is not skipped, and writes its assignment. -/
theorem result_synthesize (hv : Listing a v) {names : List String} {clusters : List Cluster}
    {out : List Raw × List String} : (synthesize pj names clusters).run.Result v (.ok out) ↔
      ∃ xs : List Synthesised, xs.map (·.synthesis) = clusters.filterMap (synthesisOf names) ∧
        (∀ x ∈ xs, x.slices.Perm (a.endpointSlicesOf x.synthesis.svcNS x.synthesis.ref.name)) ∧
        Marshals pj xs out.1 ∧ out.2 = xs.flatMap fun x => x.slices.map (·.rv) := by
  induction clusters generalizing out with
  | nil =>
    simp only [synthesize, ExceptT.run_pure, pure_eq_ret, result_ret, Except.ok.injEq, List.filterMap_nil,
      List.map_eq_nil_iff]
    constructor
    · rintro rfl
      exact ⟨[], rfl, by simp, .nil, rfl⟩
    · intro h
      rcases h with ⟨_, rfl, -, hm, hv⟩
      cases out
      cases hm
      simp only [List.flatMap_nil] at hv
      rw [hv]
  | cons cluster clusters ih =>
    rw [synthesize]
    cases hsyn : synthesisOf names cluster with
    | none => simp only [ih, List.filterMap_cons, hsyn]
    | some syn =>
      simp only [result_run_bind, result_wrap, ExceptT.run_mk, Client.listEndpointSlices, ask, result_call, result_ret,
        exists_eq_right, hv.slices, pure_eq_ret, ih, ExceptT.run_pure, Except.ok.injEq, List.filterMap_cons,
        hsyn]
      constructor
      · intro h
        rcases h with ⟨l, hl, raw, hraw, ⟨specs, versions⟩, ⟨xs, hxs, hslices, hm, rfl⟩, rfl⟩
        refine ⟨⟨syn, l⟩ :: xs, by rw [List.map_cons, hxs], ?_, .cons hraw hm, rfl⟩
        intro x hx
        rcases List.mem_cons.mp hx with rfl | hx
        · exact hl
        · exact hslices x hx
      · intro h
        rcases h with ⟨xs, hxs, hslices, hm, hv⟩
        obtain ⟨x, xs, rfl, rfl, hrest⟩ := List.map_eq_cons_iff.mp hxs
        obtain ⟨raws, vers⟩ := out
        cases hm with
        | @cons _ raw _ raws hraw hm =>
          refine ⟨x.slices, hslices x List.mem_cons_self, raw, hraw, (raws, _),
            ⟨xs, hrest, fun y hy => hslices y (List.mem_cons_of_mem _ hy), hm, rfl⟩, ?_⟩
          simp only [List.flatMap_cons] at hv
          rw [hv]
          rfl

theorem result_collectEndpoints (hv : Listing a v) {clusters : List Cluster} {out : List Raw × List String} :
    (collectEndpoints pj key.ns key.name clusters).run.Result v (.ok out) ↔
      ∃ (manual : List XDSResource) (xs : List Synthesised) (raws : List Raw),
        manual.Perm (API.targeting key a.clusterLoadAssignments.items) ∧
        xs.map (·.synthesis) = clusters.filterMap (synthesisOf (manual.map fun x => clusterName x.spec)) ∧
        (∀ x ∈ xs, x.slices.Perm (a.endpointSlicesOf x.synthesis.svcNS x.synthesis.ref.name)) ∧
        Marshals pj xs raws ∧
        out = (manual.map (·.spec) ++ raws, manual.map (·.rv) ++ xs.flatMap fun x => x.slices.map (·.rv)) := by
  rw [collectEndpoints, result_run_bind]
  simp only [ExceptT.run_mk, Client.listClusterLoadAssignments, ask, result_call, result_ret, exists_eq_right,
    hv.assignments, result_run_bind, result_synthesize hv, ExceptT.run_pure, pure_eq_ret, Except.ok.injEq]
  constructor
  · intro h
    rcases h with ⟨l, hl, ⟨specs, versions⟩, ⟨xs, hxs, hslices, hm, rfl⟩, rfl⟩
    refine ⟨l.filter (·.targets key.ns key.name), xs, specs, hl.filter _, ?_, hslices, hm, rfl⟩
    simpa [collectItems, Function.comp_def] using hxs
  · intro h
    rcases h with ⟨manual, xs, raws, hmanual, hxs, hslices, hm, rfl⟩
    obtain ⟨l, hl, rfl⟩ := exists_perm_filter _ hmanual
    refine ⟨l, hl, (raws, _), ⟨xs, ?_, hslices, hm, rfl⟩, rfl⟩
    simpa [collectItems, Function.comp_def] using hxs

/-- The collectors return what the selected objects give. -/
theorem collect_iff (hv : Listing a v) {c : Collected} :
    (collect pj key.ns key.name).run.Result v (.ok c) ↔
      ∃ s raws, Selects a key s ∧ Marshals pj s.synthesised raws ∧ c = s.collected raws := by
  simp only [collect, result_run_bind, result_wrap, result_collectListeners hv, result_collectClusters hv,
    result_collectRoutes hv, result_collectScopedRoutes hv, result_collectEndpoints hv, ExceptT.run_pure, pure_eq_ret,
    result_ret, Except.ok.injEq]
  constructor
  · rintro ⟨_, ⟨ls, hls, rfl⟩, _, ⟨cs, hcs, rfl⟩, _, ⟨rs, hrs, rfl⟩, _, ⟨ss, hss, rfl⟩, _,
      ⟨ms, xs, raws, hms, hxs, hslices, hm, rfl⟩, rfl⟩
    exact ⟨⟨ls, cs, rs, ss, ms, xs⟩, raws, ⟨hls, hcs, hrs, hss, hms, hxs, hslices⟩, hm, rfl⟩
  · intro hgiven
    rcases hgiven with ⟨s, raws, h, hm, rfl⟩
    exact ⟨_, ⟨_, h.listeners, rfl⟩, _, ⟨_, h.clusters, rfl⟩, _, ⟨_, h.routes, rfl⟩, _, ⟨_, h.scopedRoutes, rfl⟩, _,
      ⟨_, _, _, h.manual, h.syntheses, h.slices, hm, rfl⟩, rfl⟩

end Collectors

end EnvoyMesh
