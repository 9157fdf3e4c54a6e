import EnvoyMesh.Theorems.Reconcile

/-! # What a snapshot holds

A build succeeds if every spec decodes, and then the snapshot indexes the decoded resources: those of the
selected objects and the assignments that were synthesised. -/

namespace EnvoyMesh
open Prog

/-! ### Decoding -/

/-- The resource of a spec; there is none where the spec is empty. -/
def decode? {α : Type} (unmarshal : Raw → Except String α) (raw : Raw) : Option α :=
  if raw = "" then none else (unmarshal raw).toOption

/-- The spec is empty or can be decoded. -/
def Decodes {α : Type} (unmarshal : Raw → Except String α) (raw : Raw) : Prop :=
  raw = "" ∨ ∃ msg, unmarshal raw = .ok msg

instance {α : Type} (unmarshal : Raw → Except String α) (raw : Raw) : Decidable (Decodes unmarshal raw) :=
  match h : unmarshal raw with
  | .ok msg => .isTrue (Or.inr ⟨msg, h⟩)
  | .error e => decidable_of_iff (raw = "") (by simp [Decodes, h])

theorem decodes_of_decode? {α : Type} {unmarshal : Raw → Except String α} {raw : Raw} {msg : α}
    (h : decode? unmarshal raw = some msg) : Decodes unmarshal raw := by
  unfold decode? at h
  split at h
  · cases h
  · cases hmsg : unmarshal raw with
    | error err =>
      rw [hmsg] at h
      cases h
    | ok msg' => exact Or.inr ⟨msg', hmsg⟩

theorem decode?_eq_some {α : Type} {unmarshal : Raw → Except String α} {raw : Raw} {msg : α} :
    decode? unmarshal raw = some msg ↔ raw ≠ "" ∧ unmarshal raw = .ok msg := by
  unfold decode?
  by_cases hraw : raw = ""
  · simp [hraw]
  · rw [if_neg hraw]
    cases unmarshal raw <;> simp [Except.toOption, hraw]

theorem go_eq_ok {α : Type} {unmarshal : Raw → Except String α} {raws : List Raw} {i : Nat} {out : List α} :
    unmarshalAll.go unmarshal i raws = .ok out ↔
      (∀ raw ∈ raws, Decodes unmarshal raw) ∧ out = raws.filterMap (decode? unmarshal) := by
  induction raws generalizing i out with
  | nil => simp [unmarshalAll.go, eq_comm]
  | cons raw raws ih =>
    rw [unmarshalAll.go, List.forall_mem_cons]
    by_cases hraw : raw = ""
    · rw [if_pos hraw, ih, List.filterMap_cons_none (by simp [decode?, hraw])]
      simp [Decodes, hraw]
    · rw [if_neg hraw]
      cases hmsg : unmarshal raw with
      | error e => simp [Decodes, hraw, hmsg]
      | ok msg =>
        have hsome : decode? unmarshal raw = some msg := decode?_eq_some.mpr ⟨hraw, hmsg⟩
        have hdec : Decodes unmarshal raw := Or.inr ⟨msg, hmsg⟩
        rw [List.filterMap_cons_some hsome]
        cases hgo : unmarshalAll.go unmarshal (i + 1) raws with
        | error e =>
          have hno : ¬∀ raw ∈ raws, Decodes unmarshal raw := fun hall => by
            have := (ih (i := i + 1)).mpr ⟨hall, rfl⟩
            rw [hgo] at this
            cases this
          simp [Except.map, hno]
        | ok rest =>
          obtain ⟨hall, rfl⟩ := ih.mp hgo
          simp only [Except.map, Except.ok.injEq, hdec, true_and, and_iff_right hall]
          exact eq_comm

theorem unmarshalAll_eq_ok {α : Type} {unmarshal : Raw → Except String α} {raws : List Raw} {out : List α} :
    unmarshalAll unmarshal raws = .ok out ↔
      (∀ raw ∈ raws, Decodes unmarshal raw) ∧ out = raws.filterMap (decode? unmarshal) := go_eq_ok

theorem bind_eq_ok {α β : Type} {x : Except String α} {f : α → Except String β} {b : β} :
    x >>= f = .ok b ↔ ∃ a, x = .ok a ∧ f a = .ok b := by
  cases x with
  | error e =>
    constructor
    · intro h
      cases h
    · intro h
      obtain ⟨a, ha, -⟩ := h
      cases ha
  | ok a =>
    constructor
    · intro h
      exact ⟨a, rfl, h⟩
    · intro h
      obtain ⟨_, ha, hf⟩ := h
      cases ha
      exact hf

theorem decodeAll_eq_ok {pj : Protojson} {ls cs rs ss es : List Raw} {r : Resources} :
    decodeAll pj ls cs rs ss es = .ok r ↔
      ((∀ raw ∈ ls, Decodes pj.listener raw) ∧ (∀ raw ∈ cs, Decodes pj.cluster raw) ∧
        (∀ raw ∈ rs, Decodes pj.routeConfiguration raw) ∧ (∀ raw ∈ ss, Decodes pj.scopedRouteConfiguration raw) ∧
        ∀ raw ∈ es, Decodes pj.clusterLoadAssignment raw) ∧
      r = ⟨ls.filterMap (decode? pj.listener), cs.filterMap (decode? pj.cluster),
        rs.filterMap (decode? pj.routeConfiguration), ss.filterMap (decode? pj.scopedRouteConfiguration),
        es.filterMap (decode? pj.clusterLoadAssignment)⟩ := by
  simp only [decodeAll, bind_eq_ok, wrap_eq_ok, unmarshalAll_eq_ok, pure, Except.pure, Except.ok.injEq]
  constructor
  · intro h
    rcases h with ⟨_, ⟨hl, rfl⟩, _, ⟨hc, rfl⟩, _, ⟨hr, rfl⟩, _, ⟨hs, rfl⟩, _, ⟨he, rfl⟩, rfl⟩
    exact ⟨⟨hl, hc, hr, hs, he⟩, rfl⟩
  · intro h
    rcases h with ⟨⟨hl, hc, hr, hs, he⟩, rfl⟩
    exact ⟨_, ⟨hl, rfl⟩, _, ⟨hc, rfl⟩, _, ⟨hr, rfl⟩, _, ⟨hs, rfl⟩, _, ⟨he, rfl⟩, rfl⟩

/-! ### The resources of the selected objects -/

def resourcesOf {α : Type} (unmarshal : Raw → Except String α) (items : List XDSResource) : List α :=
  items.filterMap fun x => decode? unmarshal x.spec

def Selected.version (s : Selected) : String := computeVersion s.versions

/-- The resources that `BuildSnapshot` indexes. -/
def Selected.resources (pj : Protojson) (s : Selected) : Resources where
  listeners := resourcesOf pj.listener s.listeners
  clusters := resourcesOf pj.cluster (s.clusters.map (·.toXDSResource))
  routes := resourcesOf pj.routeConfiguration s.routes
  scopedRoutes := resourcesOf pj.scopedRouteConfiguration s.scopedRoutes
  endpoints := resourcesOf pj.clusterLoadAssignment s.manual ++ s.synthesised.map (·.cla)

def API.assignmentsOf (a : API) (key : NamespacedName) : List XDSResource :=
  API.targeting key a.clusterLoadAssignments.items

/-- Every spec that a Reconcile of `key` collects can be decoded. -/
structure Decodable (pj : Protojson) (a : API) (key : NamespacedName) : Prop where
  listeners : ∀ x ∈ API.targeting key a.listeners.items, Decodes pj.listener x.spec
  clusters : ∀ x ∈ a.clustersOf key, Decodes pj.cluster x.spec
  routes : ∀ x ∈ API.targeting key a.routeConfigurations.items, Decodes pj.routeConfiguration x.spec
  scopedRoutes : ∀ x ∈ API.targeting key a.scopedRouteConfigurations.items, Decodes pj.scopedRouteConfiguration x.spec
  assignments : ∀ x ∈ a.assignmentsOf key, Decodes pj.clusterLoadAssignment x.spec

section Pipeline
variable {pj : Protojson} {a : API} {key : NamespacedName} {s : Selected} {raws : List Raw} {snap : Snapshot}

theorem exists_marshals (hpj : pj.Lawful) (xs : List Synthesised) : ∃ raws, Marshals pj xs raws := by
  induction xs with
  | nil => exact ⟨[], .nil⟩
  | cons x xs ih =>
    obtain ⟨raws, h⟩ := ih
    obtain ⟨raw, hraw, -⟩ := hpj x.synthesis.clusterName x.slices x.synthesis.ref.port
    exact ⟨raw :: raws, .cons hraw h⟩

theorem decode?_of_marshal (hpj : pj.Lawful) {x : Synthesised} {raw : Raw} (h : pj.marshal x.cla = .ok raw) :
    decode? pj.clusterLoadAssignment raw = some x.cla := by
  obtain ⟨raw', hraw', hne, hdec⟩ := hpj x.synthesis.clusterName x.slices x.synthesis.ref.port
  obtain rfl : raw' = raw := Except.ok.inj (hraw'.symm.trans h)
  exact decode?_eq_some.mpr ⟨hne, hdec⟩

theorem Marshals.filterMap (hpj : pj.Lawful) {xs : List Synthesised} (h : Marshals pj xs raws) :
    raws.filterMap (decode? pj.clusterLoadAssignment) = xs.map (·.cla) := by
  induction h with
  | nil => rfl
  | cons hraw _ ih => rw [List.filterMap_cons_some (decode?_of_marshal hpj hraw), ih, List.map_cons]

theorem Marshals.decodes (hpj : pj.Lawful) {xs : List Synthesised} (h : Marshals pj xs raws) :
    ∀ raw ∈ raws, Decodes pj.clusterLoadAssignment raw := by
  induction h with
  | nil => simp
  | cons hraw _ ih =>
    exact List.forall_mem_cons.mpr ⟨Or.inr ⟨_, (decode?_eq_some.mp (decode?_of_marshal hpj hraw)).2⟩, ih⟩

theorem Collected.build_eq_ok {c : Collected} : c.build pj = .ok snap ↔
    ∃ r, decodeAll pj c.listeners c.clusters c.routes c.scopedRoutes c.endpoints = .ok r ∧
      newSnapshot c.version r = snap := by
  unfold Collected.build buildSnapshot
  cases decodeAll pj c.listeners c.clusters c.routes c.scopedRoutes c.endpoints <;> simp [Except.map]

/-- The build of what was selected succeeds in the same cases whatever the order. -/
theorem build_iff (hpj : pj.Lawful) (hs : Selects a key s) (hm : Marshals pj s.synthesised raws) :
    (s.collected raws).build pj = .ok snap ↔ Decodable pj a key ∧ snap = newSnapshot s.version (s.resources pj) := by
  have hspecs {α : Type} {f : Raw → Except String α} {l items : List XDSResource} (hp : l.Perm items) :
      (∀ raw ∈ l.map (·.spec), Decodes f raw) ↔ ∀ x ∈ items, Decodes f x.spec := by
    simp only [List.forall_mem_map, hp.mem_iff]
  have hclusters : (∀ raw ∈ s.clusters.map (·.spec), Decodes pj.cluster raw) ↔
      ∀ x ∈ a.clustersOf key, Decodes pj.cluster x.spec := by
    simp only [List.forall_mem_map, hs.clusters.mem_iff]
  have hends : (∀ raw ∈ s.manual.map (·.spec) ++ raws, Decodes pj.clusterLoadAssignment raw) ↔
      ∀ x ∈ a.assignmentsOf key, Decodes pj.clusterLoadAssignment x.spec := by
    rw [List.forall_mem_append, hspecs hs.manual]
    exact and_iff_left (hm.decodes hpj)
  rw [Collected.build_eq_ok]
  simp only [Selected.collected, decodeAll_eq_ok, hspecs hs.listeners, hclusters, hspecs hs.routes,
    hspecs hs.scopedRoutes, hends, List.filterMap_append, hm.filterMap hpj, List.filterMap_map]
  constructor
  · intro h
    rcases h with ⟨r, ⟨⟨hl, hc, hr, hss, he⟩, rfl⟩, rfl⟩
    refine ⟨⟨hl, hc, hr, hss, he⟩, ?_⟩
    simp only [Selected.resources, resourcesOf, List.filterMap_map]
    rfl
  · intro h
    rcases h with ⟨⟨hl, hc, hr, hss, he⟩, rfl⟩
    refine ⟨_, ⟨⟨hl, hc, hr, hss, he⟩, rfl⟩, ?_⟩
    simp only [Selected.resources, resourcesOf, List.filterMap_map]
    rfl

theorem pipeline_iff (hpj : pj.Lawful) : Pipeline pj a key snap ↔
    Decodable pj a key ∧ ∃ s, Selects a key s ∧ snap = newSnapshot s.version (s.resources pj) := by
  constructor
  · intro h
    rcases h with ⟨c, hc, hbuild⟩
    obtain ⟨s, raws, hs, hm, rfl⟩ := (collect_iff a.listing).mp hc
    obtain ⟨hdec, hsnap⟩ := (build_iff hpj hs hm).mp hbuild
    exact ⟨hdec, s, hs, hsnap⟩
  · intro h
    rcases h with ⟨hdec, s, hs, hsnap⟩
    obtain ⟨raws, hm⟩ := exists_marshals hpj s.synthesised
    exact ⟨s.collected raws, (collect_iff a.listing).mpr ⟨s, raws, hs, hm, rfl⟩, (build_iff hpj hs hm).mpr ⟨hdec, hsnap⟩⟩

end Pipeline

/-! ### Successful Reconciles -/

theorem exec_ok_finish {p : Prepared} {w w' : World} (h : (finish p).Exec World.Answers w w' (.ok ())) :
    p = .ok none ∨ ∃ ep version snap, p = .ok (some (ep, version, .ok snap)) := by
  match p, h with
  | .error e, h => cases h.2
  | .ok none, _ => exact Or.inl rfl
  | .ok (some (ep, version, .error e)), h =>
    rw [finish, publish_error, exec_bind] at h
    obtain ⟨_, _, -, -, hret⟩ := h
    cases hret
  | .ok (some (ep, version, .ok snap)), _ => exact Or.inr ⟨ep, version, snap, rfl⟩

/-- A Reconcile of an existing proxy that succeeds stores what the pipeline gives. -/
theorem exec_reconcile_ok {pj : Protojson} {key : NamespacedName} {w w' : World} {ep : EnvoyProxy}
    (hep : w.api.envoyProxies.get? key = some ep) (h : (reconcile pj key).Exec World.Answers w w' (.ok ())) :
    ∃ snap, w'.cache = Function.update w.cache key.nodeID (some snap) ∧ Pipeline pj w.api key snap := by
  obtain ⟨p, u, hp, hf⟩ := exec_bind.mp h
  obtain ⟨rfl, hres⟩ := exec_prepare hp
  rcases exec_ok_finish hf with rfl | ⟨ep', version, snap, rfl⟩
  · rw [result_prepare_none hres] at hep
    cases hep
  · obtain ⟨-, rfl, c, hc, -, hbuild⟩ := result_prepare_found hres
    refine ⟨snap, ?_, c, hc, hbuild.symm⟩
    rcases exec_finish_cache (hf.mono fun s c r s' hs => ⟨s, rfl, hs⟩) with ⟨hnone, -⟩ | ⟨_, _, _, heq, hcache⟩
    · cases hnone
    · cases heq
      exact hcache

end EnvoyMesh
