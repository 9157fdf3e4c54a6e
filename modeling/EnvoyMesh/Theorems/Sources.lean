import EnvoyMesh.Theorems.Endpoints
import EnvoyMesh.Theorems.Stable
import EnvoyMesh.Theorems.View

/-! # Where a snapshot comes from

Between two Lists of a Reconcile the objects may change, so the lists it works with need not fit together.
What it builds is still a function of the answers that it got, whatever admits them: `Sourced` says which
objects it selects from those answers. -/

namespace EnvoyMesh
open Prog

/-- The objects that a Reconcile of `key` selects from Lists that were answered as `v` admits. -/
structure Sourced (v : (c : Call) → c.Answer → Prop) (key : NamespacedName) (s : Selected) : Prop where
  listeners : ∃ l, v .listListeners (.ok l) ∧ s.listeners = API.targeting key l
  clusters : ∃ l, v .listClusters (.ok l) ∧ s.clusters = l.filter (·.targets key.ns key.name)
  routes : ∃ l, v .listRouteConfigurations (.ok l) ∧ s.routes = API.targeting key l
  scopedRoutes : ∃ l, v .listScopedRouteConfigurations (.ok l) ∧ s.scopedRoutes = API.targeting key l
  manual : ∃ l, v .listClusterLoadAssignments (.ok l) ∧ s.manual = API.targeting key l
  syntheses : s.synthesised.map (·.synthesis) = s.clusters.filterMap (synthesisOf s.manualNames)
  slices : ∀ x ∈ s.synthesised, v (.listEndpointSlices x.synthesis.svcNS x.synthesis.ref.name) (.ok x.slices)

section Collectors
variable {pj : Protojson} {key : NamespacedName} {v : (c : Call) → c.Answer → Prop}

theorem result_map {α β : Type} {f : α → β} {r : Except String α} {b : β}
    (h : (ret (Except.map f r) : Calls (Except String β)).Result v (.ok b)) : ∃ a, r = .ok a ∧ b = f a := by
  cases r with
  | error e => cases h
  | ok a =>
    cases h
    exact ⟨a, rfl, rfl⟩

/-- The synthesis loop lists the slices of each cluster that is not skipped, each list on its own. -/
theorem sourced_synthesize {names : List String} {clusters : List Cluster} {out : List Raw × List String}
    (h : (synthesize pj names clusters).run.Result v (.ok out)) :
    ∃ xs : List Synthesised, xs.map (·.synthesis) = clusters.filterMap (synthesisOf names) ∧
      (∀ x ∈ xs, v (.listEndpointSlices x.synthesis.svcNS x.synthesis.ref.name) (.ok x.slices)) ∧
      Marshals pj xs out.1 ∧ out.2 = xs.flatMap fun x => x.slices.map (·.rv) := by
  induction clusters generalizing out with
  | nil =>
    cases h
    exact ⟨[], rfl, by simp, .nil, rfl⟩
  | cons cluster clusters ih =>
    rw [synthesize] at h
    cases hsyn : synthesisOf names cluster with
    | none =>
      rw [hsyn] at h
      obtain ⟨xs, hxs, hrest⟩ := ih h
      exact ⟨xs, by rw [List.filterMap_cons_none hsyn, hxs], hrest⟩
    | some syn =>
      simp only [hsyn, result_run_bind, result_wrap] at h
      obtain ⟨l, ⟨_, hl, rfl⟩, raw, hraw, ⟨specs, versions⟩, hrest, hout⟩ := h
      obtain ⟨xs, hxs, hslices, hm, rfl⟩ := ih hrest
      cases hout
      refine ⟨⟨syn, l⟩ :: xs, by rw [List.filterMap_cons_some hsyn, List.map_cons, hxs], ?_, .cons hraw hm, rfl⟩
      exact List.forall_mem_cons.mpr ⟨hl, hslices⟩

theorem sourced_collectEndpoints {clusters : List Cluster} {out : List Raw × List String}
    (h : (collectEndpoints pj key.ns key.name clusters).run.Result v (.ok out)) :
    ∃ (l : List XDSResource) (xs : List Synthesised) (raws : List Raw), v .listClusterLoadAssignments (.ok l) ∧
      xs.map (·.synthesis) = clusters.filterMap (synthesisOf ((API.targeting key l).map fun x => clusterName x.spec)) ∧
      (∀ x ∈ xs, v (.listEndpointSlices x.synthesis.svcNS x.synthesis.ref.name) (.ok x.slices)) ∧ Marshals pj xs raws ∧
      out = ((API.targeting key l).map (·.spec) ++ raws,
        (API.targeting key l).map (·.rv) ++ xs.flatMap fun x => x.slices.map (·.rv)) := by
  rw [run_collectEndpoints] at h
  obtain ⟨r, hr, h⟩ := h
  cases r with
  | error e => cases h
  | ok l =>
    obtain ⟨⟨specs, versions⟩, hsyn, hout⟩ := result_run_bind.mp h
    obtain ⟨xs, hxs, hslices, hm, rfl⟩ := sourced_synthesize hsyn
    cases hout
    refine ⟨l, xs, specs, hr, ?_, hslices, hm, rfl⟩
    rw [hxs]
    simp only [collectItems, List.map_map, Function.comp_def, API.targeting]

/-- The collectors return what the selected objects give. -/
theorem sourced_collect {c : Collected} (h : (collect pj key.ns key.name).run.Result v (.ok c)) :
    ∃ s raws, Sourced v key s ∧ Marshals pj s.synthesised raws ∧ c = s.collected raws := by
  simp only [collect, result_run_bind, result_wrap, run_collectListeners, run_collectClusters, run_collectRoutes,
    run_collectScopedRoutes] at h
  obtain ⟨_, ⟨_, hls, hl⟩, _, ⟨_, hcs, hc⟩, _, ⟨_, hrs, hr⟩, _, ⟨_, hss, hs⟩, _, he, hret⟩ := h
  obtain ⟨ls, rfl, rfl⟩ := result_map hl
  obtain ⟨cs, rfl, rfl⟩ := result_map hc
  obtain ⟨rs, rfl, rfl⟩ := result_map hr
  obtain ⟨ss, rfl, rfl⟩ := result_map hs
  obtain ⟨es, xs, raws, hes, hxs, hslices, hm, rfl⟩ := sourced_collectEndpoints he
  cases hret
  exact ⟨⟨_, _, _, _, _, xs⟩, raws,
    ⟨⟨ls, hls, rfl⟩, ⟨cs, hcs, rfl⟩, ⟨rs, hrs, rfl⟩, ⟨ss, hss, rfl⟩, ⟨es, hes, rfl⟩, hxs, hslices⟩, hm, rfl⟩

end Collectors

/-! ### The first half -/

section Prepare
variable {pj : Protojson} {key : NamespacedName} {v : (c : Call) → c.Answer → Prop}

/-- The first half of a Reconcile that found its proxy went on with the objects that it collected. -/
theorem prepared_found {ep : EnvoyProxy} {version : String} {built : Except String Snapshot}
    (hkey : ∀ ep, v (.get key) (.ok (some ep)) → ep.key = key)
    (h : (prepare pj key).run.Result v (.ok (some (ep, version, built)))) :
    v (.get key) (.ok (some ep)) ∧ ep.key = key ∧
      ∃ c, (collect pj key.ns key.name).run.Result v (.ok c) ∧ version = c.version ∧ built = c.build pj := by
  rw [prepare, result_run_bind] at h
  obtain ⟨found, ⟨r, hr, rfl⟩, h⟩ := h
  cases found with
  | none => cases h
  | some ep' =>
    obtain ⟨c, hc, hret⟩ := result_run_bind.mp h
    simp only [ExceptT.run_pure, pure_eq_ret, result_ret, Except.ok.injEq, Option.some.injEq, Prod.mk.injEq] at hret
    obtain ⟨rfl, rfl, rfl⟩ := hret
    have hk := hkey _ hr
    exact ⟨hr, hk, c, hk ▸ hc, rfl, rfl⟩

theorem build_selected (hpj : pj.Lawful) {s : Selected} {raws : List Raw} {snap : Snapshot}
    (hm : Marshals pj s.synthesised raws) (h : (s.collected raws).build pj = .ok snap) :
    snap = newSnapshot s.version (s.resources pj) := by
  obtain ⟨r, hr, rfl⟩ := Collected.build_eq_ok.mp h
  obtain ⟨-, rfl⟩ := decodeAll_eq_ok.mp hr
  simp only [Selected.collected, List.filterMap_append, hm.filterMap hpj, Selected.resources, resourcesOf,
    List.filterMap_map]
  rfl

/-- A snapshot that was built holds the resources of the objects that were selected from the answers. -/
theorem prepared_built (hpj : pj.Lawful) {ep : EnvoyProxy} {version : String} {snap : Snapshot}
    (hkey : ∀ ep, v (.get key) (.ok (some ep)) → ep.key = key)
    (h : (prepare pj key).run.Result v (.ok (some (ep, version, .ok snap)))) :
    ∃ s, Sourced v key s ∧ snap = newSnapshot s.version (s.resources pj) := by
  obtain ⟨-, -, c, hc, -, hbuild⟩ := prepared_found hkey h
  obtain ⟨s, raws, hs, hm, rfl⟩ := sourced_collect hc
  exact ⟨s, hs, build_selected hpj hm hbuild.symm⟩

end Prepare

end EnvoyMesh
