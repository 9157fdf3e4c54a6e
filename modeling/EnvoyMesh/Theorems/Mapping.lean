import EnvoyMesh.System
import EnvoyMesh.Theorems.View

/-! # Event mapping

The handlers compute the proxies whose Reconcile reads an object: the inverse of the filters that the
collectors apply. -/

namespace EnvoyMesh

def XDSResource.target (x : XDSResource) : NamespacedName :=
  ⟨if x.targetRef.ns = "" then x.metadata.ns else x.targetRef.ns, x.targetRef.name⟩

theorem targets_iff {x : XDSResource} {key : NamespacedName} : x.targets key.ns key.name = true ↔ x.target = key := by
  obtain ⟨ns, name⟩ := key
  simp only [XDSResource.targets, targetMatches, XDSResource.target, Bool.and_eq_true, decide_eq_true_eq,
    NamespacedName.mk.injEq]
  exact and_comm

theorem mem_mapXDSResourceToProxy {x : XDSResource} {key : NamespacedName} :
    key ∈ mapXDSResourceToProxy x ↔ x.targets key.ns key.name = true := by
  rw [targets_iff]
  exact List.mem_singleton.trans eq_comm

theorem ne_empty_of_label {s : String} (h : isDNS1123Label s = true) : s ≠ "" := by
  rintro rfl
  revert h
  decide

theorem Cluster.svcNS_ne_empty (c : Cluster) (ref : KubernetesServiceRef) : c.svcNS ref ≠ "" := by
  unfold Cluster.svcNS
  split
  · exact ne_empty_of_label c.metadata.ns_label
  · assumption

/-- The List of a reference finds the slices of its Service in its namespace. -/
theorem selected_iff {c : Cluster} {ref : KubernetesServiceRef} {slice : EndpointSlice} :
    slice.selected (c.svcNS ref) ref.name = true ↔
      slice.labels.lookup API.serviceNameLabel = some ref.name ∧ c.svcNS ref = slice.metadata.ns := by
  simp only [EndpointSlice.selected, Bool.and_eq_true, Bool.or_eq_true, beq_iff_eq, c.svcNS_ne_empty ref, false_or]
  rw [and_comm, eq_comm (a := slice.metadata.ns)]

theorem step_none {svcName sliceNS : String} {reqs : List NamespacedName} {c : Cluster}
    (h : c.kubernetesServiceRef = none) : mapEndpointSliceToProxies.step svcName sliceNS reqs c = reqs := by
  rw [mapEndpointSliceToProxies.step, h]

theorem step_some {svcName sliceNS : String} {reqs : List NamespacedName} {c : Cluster} {ref : KubernetesServiceRef}
    (h : c.kubernetesServiceRef = some ref) : mapEndpointSliceToProxies.step svcName sliceNS reqs c =
      if ref.name ≠ svcName ∨ c.svcNS ref ≠ sliceNS then reqs
      else if c.target ∈ reqs then reqs else reqs ++ [c.target] := by
  rw [mapEndpointSliceToProxies.step, h]
  rfl

theorem mem_step {svcName sliceNS : String} {reqs : List NamespacedName} {c : Cluster} {key : NamespacedName} :
    key ∈ mapEndpointSliceToProxies.step svcName sliceNS reqs c ↔
      key ∈ reqs ∨ (c.target = key ∧
        ∃ ref, c.kubernetesServiceRef = some ref ∧ ref.name = svcName ∧ c.svcNS ref = sliceNS) := by
  cases href : c.kubernetesServiceRef with
  | none => simp [step_none href]
  | some ref =>
    simp only [step_some href, Option.some.injEq, exists_eq_left']
    by_cases hsvc : ref.name ≠ svcName ∨ c.svcNS ref ≠ sliceNS
    · rw [if_pos hsvc]
      rcases hsvc with h | h <;> simp [h]
    · rw [if_neg hsvc]
      rw [not_or, not_not, not_not] at hsvc
      simp only [hsvc, and_self, and_true]
      split
      · next hmem =>
        constructor
        · exact Or.inl
        · intro hgiven
          rcases hgiven with h | rfl
          · exact h
          · exact hmem
      · rw [List.mem_append, List.mem_singleton, eq_comm (a := key)]

theorem mem_foldl_step {svcName sliceNS : String} {key : NamespacedName} (clusters : List Cluster)
    (reqs : List NamespacedName) :
    key ∈ clusters.foldl (mapEndpointSliceToProxies.step svcName sliceNS) reqs ↔
      key ∈ reqs ∨ ∃ c ∈ clusters, c.target = key ∧
        ∃ ref, c.kubernetesServiceRef = some ref ∧ ref.name = svcName ∧ c.svcNS ref = sliceNS := by
  induction clusters generalizing reqs with
  | nil => simp
  | cons c clusters ih =>
    rw [List.foldl_cons, ih, mem_step, or_assoc]
    simp only [List.mem_cons, exists_eq_or_imp]

/-- A slice leads to the proxies of the clusters whose List would return it. -/
theorem mem_mapEndpointSliceToProxies {clusters : List Cluster} {slice : EndpointSlice} {key : NamespacedName} :
    key ∈ mapEndpointSliceToProxies (.ok clusters) slice ↔
      ∃ c ∈ clusters, c.targets key.ns key.name = true ∧
        ∃ ref, c.kubernetesServiceRef = some ref ∧ slice.selected (c.svcNS ref) ref.name = true := by
  simp only [targets_iff, selected_iff]
  unfold mapEndpointSliceToProxies
  cases hlabel : slice.labels.lookup API.serviceNameLabel with
  | none => simp
  | some svcName =>
    simp only [mem_foldl_step, List.not_mem_nil, false_or, Option.some.injEq, eq_comm (a := svcName)]

theorem nodup_foldl_step {svcName sliceNS : String} (clusters : List Cluster) {reqs : List NamespacedName}
    (h : reqs.Nodup) : (clusters.foldl (mapEndpointSliceToProxies.step svcName sliceNS) reqs).Nodup := by
  induction clusters generalizing reqs with
  | nil => exact h
  | cons c clusters ih =>
    refine ih ?_
    cases href : c.kubernetesServiceRef with
    | none => rwa [step_none href]
    | some ref =>
      rw [step_some href]
      split
      · exact h
      split
      · exact h
      · next hnew => exact (List.nodup_append_comm.mp (List.nodup_cons.mpr ⟨hnew, h⟩))

theorem nodup_mapEndpointSliceToProxies (clusters : List Cluster) (slice : EndpointSlice) :
    (mapEndpointSliceToProxies (.ok clusters) slice).Nodup := by
  unfold mapEndpointSliceToProxies
  cases slice.labels.lookup API.serviceNameLabel with
  | none => exact List.nodup_nil
  | some svcName => exact nodup_foldl_step clusters List.nodup_nil

/-- The List of the EndpointSlices of Service `svc` in `ns` returns the slice, whatever else is stored. -/
def EndpointSlice.ListedFor (slice : EndpointSlice) (ns svc : String) : Prop :=
  ∀ (a : API) (l : List EndpointSlice), slice ∈ a.endpointSlices.items →
    a.Reads (.listEndpointSlices ns svc) (.ok l) → slice ∈ l

theorem listedFor_iff {slice : EndpointSlice} {ns svc : String} :
    slice.ListedFor ns svc ↔ slice.selected ns svc = true := by
  constructor
  · intro h
    have hstored : slice ∈ (API.empty.put (.endpointSlice slice)).endpointSlices.items := Store.mem_put.mpr (Or.inr rfl)
    exact (List.mem_filter.mp (h _ _ hstored (Or.inl ⟨_, rfl, List.Perm.refl _⟩))).2
  · intro h a l hmem hl
    rcases hl with ⟨_, heq, hperm⟩ | ⟨e, he⟩
    · obtain rfl := Except.ok.inj heq
      exact hperm.mem_iff.mpr (List.mem_filter.mpr ⟨hmem, h⟩)
    · cases he

/-- The mappers are the inverse of the collectors. An EndpointSlice leads, once, to the proxies that a
    Cluster targets whose reference is for a List that returns the slice; any other resource leads to the
    one proxy that it targets. -/
theorem mappers_agree_with_collectors (clusters : List Cluster) (slice : EndpointSlice) (key : NamespacedName)
    (x : XDSResource) :
    (key ∈ mapEndpointSliceToProxies (.ok clusters) slice ↔
      ∃ c ∈ clusters, targetMatches c.targetRef c.metadata.ns key.ns key.name = true ∧
        ∃ ref, c.kubernetesServiceRef = some ref ∧
          slice.ListedFor (if ref.ns = "" then c.metadata.ns else ref.ns) ref.name) ∧
    (mapEndpointSliceToProxies (.ok clusters) slice).count key ≤ 1 ∧
    ∃ req, mapXDSResourceToProxy x = [req] ∧
      ∀ k : NamespacedName, targetMatches x.targetRef x.metadata.ns k.ns k.name = true ↔ k = req := by
  refine ⟨?_, List.nodup_iff_count_le_one.mp (nodup_mapEndpointSliceToProxies clusters slice) key, x.target, rfl, ?_⟩
  · simp only [listedFor_iff]
    exact mem_mapEndpointSliceToProxies
  · exact fun k => targets_iff.trans eq_comm

/-! ### Objects that concern a proxy -/

/-- A change of the object can change what a Reconcile of `key` reads; `cs` are the clusters that target
    the proxy. -/
def Object.concerns (key : NamespacedName) (cs : List Cluster) : Object → Prop
  | .envoyProxy x => x.key = key
  | .listener x => x.targets key.ns key.name = true
  | .cluster x => x.targets key.ns key.name = true
  | .routeConfiguration x => x.targets key.ns key.name = true
  | .scopedRouteConfiguration x => x.targets key.ns key.name = true
  | .clusterLoadAssignment x => x.targets key.ns key.name = true
  | .endpointSlice x => ∃ c ∈ cs, ∃ ref, c.kubernetesServiceRef = some ref ∧ x.selected (c.svcNS ref) ref.name = true

theorem mem_requests_of_concerns {a : API} {clusters : List Cluster} {key : NamespacedName} {x : Object}
    (hc : clusters.Perm a.clusters.items) (h : x.concerns key (a.clustersOf key)) : key ∈ x.requests clusters := by
  cases x with
  | envoyProxy x => exact List.mem_singleton.mpr h.symm
  | listener x => exact mem_mapXDSResourceToProxy.mpr h
  | cluster x => exact mem_mapXDSResourceToProxy.mpr h
  | routeConfiguration x => exact mem_mapXDSResourceToProxy.mpr h
  | scopedRouteConfiguration x => exact mem_mapXDSResourceToProxy.mpr h
  | clusterLoadAssignment x => exact mem_mapXDSResourceToProxy.mpr h
  | endpointSlice x =>
    obtain ⟨c, hmem, ref, href, hsel⟩ := h
    obtain ⟨hmem, htarget⟩ := List.mem_filter.mp hmem
    exact mem_mapEndpointSliceToProxies.mpr ⟨c, hc.mem_iff.mpr hmem, htarget, ref, href, hsel⟩

/-! ### Changes -/

/-- One change of the stored objects, with the notification it leaves. -/
inductive Alters (a : API) : Event → API → Prop where
  | write (x : Object) : Alters a ⟨a.get? x.key, some x⟩ (a.put x)
  | delete (k : ObjectKey) (x : Object) (hx : a.get? k = some x) : Alters a ⟨some x, none⟩ (a.erase k)

def Event.concerns (key : NamespacedName) (cs : List Cluster) (e : Event) : Prop :=
  ∃ x ∈ e.objects, x.concerns key cs

theorem key_of_get? {a : API} {k : ObjectKey} {x : Object} (h : a.get? k = some x) : x.key = k := by
  cases k <;>
  · obtain ⟨y, hy, rfl⟩ := Option.map_eq_some_iff.mp h
    exact congrArg _ (Store.get?_eq_some.mp hy).2

section Alters
variable {a : API} {key : NamespacedName} {x y : Object}

theorem concerns_put (h : y.key = x.key) :
    y.concerns key ((a.put x).clustersOf key) ↔ y.concerns key (a.clustersOf key) := by
  cases x <;> cases y <;> first | exact Iff.rfl | cases h

theorem concerns_erase : x.concerns key ((a.erase x.key).clustersOf key) ↔ x.concerns key (a.clustersOf key) := by
  cases x <;> exact Iff.rfl

theorem sameView_put (hold : ∀ y, a.get? x.key = some y → ¬y.concerns key (a.clustersOf key))
    (hnew : ¬x.concerns key (a.clustersOf key)) : SameView key a (a.put x) := by
  have hold' {α : Type} {s : Option α} {f : α → Object} (h : a.get? x.key = s.map f) (z : α) (hz : s = some z) :
      ¬(f z).concerns key (a.clustersOf key) := hold (f z) (by rw [h, hz]; rfl)
  cases x with
  | envoyProxy x =>
    refine { SameView.refl key a with proxy := ?_ }
    exact ((Store.get?_put _ _ _).trans (if_neg hnew)).symm
  | listener x => exact { SameView.refl key a with listeners := (Store.filter_put (hold' rfl) hnew).symm }
  | cluster x =>
    have hcs : (a.put (.cluster x)).clustersOf key = a.clustersOf key := Store.filter_put (hold' rfl) hnew
    exact { SameView.refl key a with clusters := hcs.symm }
  | routeConfiguration x => exact { SameView.refl key a with routes := (Store.filter_put (hold' rfl) hnew).symm }
  | scopedRouteConfiguration x =>
    exact { SameView.refl key a with scopedRoutes := (Store.filter_put (hold' rfl) hnew).symm }
  | clusterLoadAssignment x =>
    exact { SameView.refl key a with assignments := (Store.filter_put (hold' rfl) hnew).symm }
  | endpointSlice x =>
    refine { SameView.refl key a with slices := fun c hc ref href => ?_ }
    exact (Store.filter_put (fun y hy hsel => hold' rfl y hy ⟨c, hc, ref, href, hsel⟩)
      fun hsel => hnew ⟨c, hc, ref, href, hsel⟩).symm

theorem sameView_erase (hold : ¬x.concerns key (a.clustersOf key)) (hx : a.get? x.key = some x) :
    SameView key a (a.erase x.key) := by
  have hold' {α : Type} {s : Option α} {f : α → Object} (h : a.get? x.key = s.map f) (z : α) (hz : s = some z) :
      ¬(f z).concerns key (a.clustersOf key) := by
    rw [h, hz] at hx
    rwa [← Option.some.inj hx] at hold
  cases x with
  | envoyProxy x =>
    refine { SameView.refl key a with proxy := ?_ }
    exact ((Store.get?_erase _ _ _).trans (if_neg hold)).symm
  | listener x => exact { SameView.refl key a with listeners := (Store.filter_erase (hold' rfl)).symm }
  | cluster x =>
    have hcs : (a.erase (.cluster x.key)).clustersOf key = a.clustersOf key := Store.filter_erase (hold' rfl)
    exact { SameView.refl key a with clusters := hcs.symm }
  | routeConfiguration x => exact { SameView.refl key a with routes := (Store.filter_erase (hold' rfl)).symm }
  | scopedRouteConfiguration x =>
    exact { SameView.refl key a with scopedRoutes := (Store.filter_erase (hold' rfl)).symm }
  | clusterLoadAssignment x => exact { SameView.refl key a with assignments := (Store.filter_erase (hold' rfl)).symm }
  | endpointSlice x =>
    refine { SameView.refl key a with slices := fun c hc ref href => ?_ }
    exact (Store.filter_erase fun y hy hsel => hold' rfl y hy ⟨c, hc, ref, href, hsel⟩).symm

/-- A change leaves a notification that concerns the proxy, or is none that a Reconcile of it could see. -/
theorem Alters.concerns_or_sameView {e : Event} {b : API} (h : Alters a e b) (key : NamespacedName) :
    e.concerns key (b.clustersOf key) ∨ SameView key a b := by
  cases h with
  | write x =>
    by_cases hnew : x.concerns key (a.clustersOf key)
    · exact Or.inl ⟨x, by simp [Event.objects], (concerns_put rfl).mpr hnew⟩
    by_cases hold : ∀ y, a.get? x.key = some y → ¬y.concerns key (a.clustersOf key)
    · exact Or.inr (sameView_put hold hnew)
    · simp only [not_forall, not_not] at hold
      obtain ⟨y, hy, hyc⟩ := hold
      exact Or.inl ⟨y, by simp [Event.objects, hy], (concerns_put (key_of_get? hy)).mpr hyc⟩
  | delete k x hx =>
    obtain rfl := key_of_get? hx
    by_cases hold : x.concerns key (a.clustersOf key)
    · exact Or.inl ⟨x, by simp [Event.objects], concerns_erase.mpr hold⟩
    · exact Or.inr (sameView_erase hold hx)

end Alters

end EnvoyMesh
