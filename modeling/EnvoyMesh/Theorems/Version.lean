import EnvoyMesh.Lib.Words
import EnvoyMesh.Theorems.Endpoints

/-! # The version text

`computeVersion` writes the resource versions of the selected objects one after the other, in the order
in which they were listed and with nothing in between. -/

namespace EnvoyMesh
open Prog

theorem foldl_append_toList (group : List String) (h : String) :
    (group.foldl (fun h v => h ++ v) h).toList = h.toList ++ group.flatMap String.toList := by
  induction group generalizing h with
  | nil => simp
  | cons v group ih => rw [List.foldl_cons, ih, String.toList_append, List.flatMap_cons, List.append_assoc]

theorem fed_toList (groups : List (List String)) : (fed groups).toList = groups.flatten.flatMap String.toList := by
  have hgen (h : String) : (groups.foldl (fun h group => group.foldl (fun h v => h ++ v) h) h).toList =
      h.toList ++ groups.flatten.flatMap String.toList := by
    induction groups generalizing h with
    | nil => simp
    | cons group groups ih =>
      rw [List.foldl_cons, ih, foldl_append_toList, List.flatten_cons, List.flatMap_append, List.append_assoc]
  exact hgen ""

theorem fed_inj {groups groups' : List (List String)} :
    fed groups = fed groups' ↔ groups.flatten.flatMap String.toList = groups'.flatten.flatMap String.toList := by
  rw [← String.toList_inj, fed_toList, fed_toList]

def XDSResource.word (x : XDSResource) : List Char := x.rv.toList
def EndpointSlice.word (x : EndpointSlice) : List Char := x.rv.toList

theorem fed_versions (s : Selected) : s.versions.flatten.flatMap String.toList =
    s.listeners.flatMap (·.word) ++ (s.clusters.flatMap (·.word) ++ (s.routes.flatMap (·.word) ++
      (s.scopedRoutes.flatMap (·.word) ++ (s.manual.flatMap (·.word) ++
        s.synthesised.flatMap fun x => x.slices.flatMap (·.word))))) := by
  simp only [Selected.versions, List.flatten_cons, List.flatten_nil, List.append_nil, List.flatMap_append,
    List.flatMap_map, List.flatMap_assoc]
  rfl

/-! ### Orders -/

/-- What the slices of a synthesised assignment add to the text, in their stored order. -/
def API.block (a : API) (syn : Synthesis) : List Char :=
  (a.endpointSlicesOf syn.svcNS syn.ref.name).flatMap (·.word)

/-- Any two resource versions that enter the text next to each other in some order commute: those of the
    resources of each kind, those of the slices of a Service, and the slices of two Services. -/
structure VersionsCommute (a : API) (key : NamespacedName) : Prop where
  listeners : ∀ x ∈ API.targeting key a.listeners.items, ∀ y ∈ API.targeting key a.listeners.items,
    x.word ++ y.word = y.word ++ x.word
  clusters : ∀ x ∈ a.clustersOf key, ∀ y ∈ a.clustersOf key, x.word ++ y.word = y.word ++ x.word
  routes : ∀ x ∈ API.targeting key a.routeConfigurations.items, ∀ y ∈ API.targeting key a.routeConfigurations.items,
    x.word ++ y.word = y.word ++ x.word
  scopedRoutes : ∀ x ∈ API.targeting key a.scopedRouteConfigurations.items,
    ∀ y ∈ API.targeting key a.scopedRouteConfigurations.items, x.word ++ y.word = y.word ++ x.word
  assignments : ∀ x ∈ a.assignmentsOf key, ∀ y ∈ a.assignmentsOf key, x.word ++ y.word = y.word ++ x.word
  slices : ∀ syn ∈ a.syntheses key (a.clustersOf key), ∀ x ∈ a.endpointSlicesOf syn.svcNS syn.ref.name,
    ∀ y ∈ a.endpointSlicesOf syn.svcNS syn.ref.name, x.word ++ y.word = y.word ++ x.word
  services : ∀ syn ∈ a.syntheses key (a.clustersOf key), ∀ syn' ∈ a.syntheses key (a.clustersOf key),
    a.block syn ++ a.block syn' = a.block syn' ++ a.block syn

section Orders
variable {a : API} {key : NamespacedName} {s s' : Selected}

theorem blocks_eq (h : VersionsCommute a key) (hs : Selects a key s) :
    (s.synthesised.flatMap fun x => x.slices.flatMap (·.word)) = (a.syntheses key s.clusters).flatMap a.block := by
  rw [← syntheses_eq hs, List.flatMap_map]
  refine List.flatMap_congr fun x hx => ?_
  exact Words.flatMap_const_iff.mpr (h.slices x.synthesis (synthesis_mem hs hx)) _ _ (hs.slices x hx) (List.Perm.refl _)

theorem fed_eq_of_commute (h : VersionsCommute a key) (hs : Selects a key s) (hs' : Selects a key s') :
    fed s.versions = fed s'.versions := by
  rw [fed_inj, fed_versions, fed_versions, blocks_eq h hs, blocks_eq h hs']
  have hsyn (t : Selected) (ht : Selects a key t) :
      (a.syntheses key t.clusters).Perm (a.syntheses key (a.clustersOf key)) := ht.clusters.filterMap _
  rw [Words.flatMap_const_iff.mpr h.listeners _ _ hs.listeners hs'.listeners,
    Words.flatMap_const_iff.mpr h.clusters _ _ hs.clusters hs'.clusters,
    Words.flatMap_const_iff.mpr h.routes _ _ hs.routes hs'.routes,
    Words.flatMap_const_iff.mpr h.scopedRoutes _ _ hs.scopedRoutes hs'.scopedRoutes,
    Words.flatMap_const_iff.mpr h.assignments _ _ hs.manual hs'.manual,
    Words.flatMap_const_iff.mpr h.services _ _ (hsyn s hs) (hsyn s' hs')]

/-! The converse: from two orders that differ in one place. -/

def API.clusterBlock (a : API) (key : NamespacedName) (c : Cluster) : List Char :=
  (synthesisOf (a.manualNames key) c).toList.flatMap a.block

theorem blocks_select {clusters : List Cluster} :
    ((a.select key clusters a.storedSlices).synthesised.flatMap fun x => x.slices.flatMap (·.word)) =
      clusters.flatMap (a.clusterBlock key) := by
  simp only [API.select, List.flatMap_map, API.syntheses, List.filterMap_eq_flatMap_toList, List.flatMap_assoc]
  rfl

variable (h : ∀ s s', Selects a key s → Selects a key s' → fed s.versions = fed s'.versions)
include h

/-- The clusters add as much text in either order, so their own part and that of their slices are the same
    one by one. -/
theorem clusters_eq {l l' : List Cluster} (hl : l.Perm (a.clustersOf key)) (hl' : l'.Perm (a.clustersOf key)) :
    l.flatMap (·.word) = l'.flatMap (·.word) ∧ l.flatMap (a.clusterBlock key) = l'.flatMap (a.clusterBlock key) := by
  have heq := h _ _ (selects_select a.storedSlices hl fun _ => List.Perm.refl _)
    (selects_select a.storedSlices hl' fun _ => List.Perm.refl _)
  rw [fed_inj, fed_versions, fed_versions, blocks_select, blocks_select] at heq
  simp only [API.select, List.append_cancel_left_eq] at heq
  obtain ⟨hw, hrest⟩ := List.append_inj heq (Words.length_flatMap_of_perm (hl.trans hl'.symm))
  simp only [List.append_cancel_left_eq] at hrest
  exact ⟨hw, hrest⟩

theorem assignments_eq {l l' : List XDSResource} (hl : l.Perm (a.assignmentsOf key))
    (hl' : l'.Perm (a.assignmentsOf key)) : l.flatMap (·.word) = l'.flatMap (·.word) := by
  have heq := h _ _ (selects_manual hl) (selects_manual hl')
  simpa only [fed_inj, fed_versions, List.append_cancel_left_eq, List.append_cancel_right_eq] using heq

theorem slices_eq {syn : Synthesis} (hsyn : syn ∈ a.syntheses key (a.clustersOf key)) {l l' : List EndpointSlice}
    (hl : l.Perm (a.storedSlices syn)) (hl' : l'.Perm (a.storedSlices syn)) :
    l.flatMap (·.word) = l'.flatMap (·.word) := by
  have hupd (m : List EndpointSlice) (hm : m.Perm (a.storedSlices syn)) (syn' : Synthesis) :
      (Function.update a.storedSlices syn m syn').Perm (a.storedSlices syn') := by
    by_cases heq : syn' = syn
    · subst heq
      rwa [Function.update_self]
    · rw [Function.update_of_ne heq]
  have heq := h _ _ (selects_select _ (List.Perm.refl _) (hupd l hl)) (selects_select _ (List.Perm.refl _) (hupd l' hl'))
  simp only [fed_inj, fed_versions, API.select, List.append_cancel_left_eq, List.flatMap_map] at heq
  have hlen (syn' : Synthesis) := Words.length_flatMap_of_perm (f := EndpointSlice.word)
    ((hupd l hl syn').trans (hupd l' hl' syn').symm)
  have hpart := Words.eq_of_flatMap_eq (fun syn' _ => hlen syn') heq syn hsyn
  simpa only [Function.update_self] using hpart

/-- If all orders give the same text, everything that can change places commutes. -/
theorem commute_of_fed_eq : VersionsCommute a key := by
  have hbase : Selects a key (a.stored key) := selects_stored
  refine ⟨?_, ?_, ?_, ?_, ?_, fun syn hsyn => ?_, fun syn hsyn syn' hsyn' => ?_⟩
  · refine Words.flatMap_const_iff.mp fun l l' hl hl' => ?_
    have heq := h { a.select key _ _ with listeners := l } { a.select key _ _ with listeners := l' }
      { hbase with listeners := hl } { hbase with listeners := hl' }
    simpa only [fed_inj, fed_versions, List.append_cancel_right_eq] using heq
  · exact Words.flatMap_const_iff.mp fun l l' hl hl' => (clusters_eq h hl hl').1
  · refine Words.flatMap_const_iff.mp fun l l' hl hl' => ?_
    have heq := h { a.select key _ _ with routes := l } { a.select key _ _ with routes := l' }
      { hbase with routes := hl } { hbase with routes := hl' }
    simpa only [fed_inj, fed_versions, List.append_cancel_left_eq, List.append_cancel_right_eq] using heq
  · refine Words.flatMap_const_iff.mp fun l l' hl hl' => ?_
    have heq := h { a.select key _ _ with scopedRoutes := l } { a.select key _ _ with scopedRoutes := l' }
      { hbase with scopedRoutes := hl } { hbase with scopedRoutes := hl' }
    simpa only [fed_inj, fed_versions, List.append_cancel_left_eq, List.append_cancel_right_eq] using heq
  · exact Words.flatMap_const_iff.mp fun l l' hl hl' => assignments_eq h hl hl'
  · exact Words.flatMap_const_iff.mp fun l l' hl hl' => slices_eq h hsyn hl hl'
  · obtain ⟨c, hc, hcsyn⟩ := List.mem_filterMap.mp hsyn
    obtain ⟨c', hc', hcsyn'⟩ := List.mem_filterMap.mp hsyn'
    have hcomm := Words.flatMap_const_iff.mp (fun l l' hl hl' => (clusters_eq h hl hl').2) c hc c' hc'
    simpa only [API.clusterBlock, hcsyn, hcsyn', Option.toList_some, List.flatMap_singleton] using hcomm

end Orders

theorem Sample.commute_stored : VersionsCommute stored proxy.key := by constructor <;> decide +kernel

end EnvoyMesh
