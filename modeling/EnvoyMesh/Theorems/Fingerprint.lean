import EnvoyMesh.ApiServer
import EnvoyMesh.Theorems.Version

/-! # The version as a fingerprint

A resource version names one state of one object. So the sequence of versions that enters the hash
determines the objects, and with them the content of the snapshot. The text that is hashed determines the
sequence if no version of the one moment is the beginning of another one of the other moment. -/

namespace EnvoyMesh
open Prog

/-! ### Objects -/

/-- The objects whose versions enter the text, in the order of the text. -/
def Selected.objects (s : Selected) : List Object :=
  s.listeners.map .listener ++ (s.clusters.map .cluster ++ (s.routes.map .routeConfiguration ++
    (s.scopedRoutes.map .scopedRouteConfiguration ++ (s.manual.map .clusterLoadAssignment ++
      (s.synthesised.flatMap (·.slices)).map .endpointSlice))))

theorem objects_versions (s : Selected) : s.objects.map (·.metadata.resourceVersion) = s.versions.flatten := by
  simp only [Selected.objects, Selected.versions, List.map_append, List.map_map, List.map_flatMap, List.flatten_cons,
    List.flatten_nil, List.append_nil]
  rfl

section Objects
variable {a : API} {key : NamespacedName} {s s' : Selected}

theorem holds_of_mem_objects (hs : Selects a key s) {x : Object} (hx : x ∈ s.objects) : a.Holds x := by
  have hmem {α : Type} {k : α → NamespacedName} {st : Store k} {p : α → Bool} {l : List α}
      (hp : l.Perm (st.items.filter p)) {y : α} (hy : y ∈ l) : st.get? (k y) = some y :=
    Store.get?_eq_some.mpr ⟨(List.mem_filter.mp (hp.mem_iff.mp hy)).1, rfl⟩
  simp only [Selected.objects, List.mem_append, List.mem_map, List.mem_flatMap] at hx
  rcases hx with ⟨y, hy, rfl⟩ | ⟨y, hy, rfl⟩ | ⟨y, hy, rfl⟩ | ⟨y, hy, rfl⟩ | ⟨y, hy, rfl⟩ | ⟨y, ⟨x, hx, hy⟩, rfl⟩
  · exact congrArg (Option.map _) (hmem hs.listeners hy)
  · exact congrArg (Option.map _) (hmem hs.clusters hy)
  · exact congrArg (Option.map _) (hmem hs.routes hy)
  · exact congrArg (Option.map _) (hmem hs.scopedRoutes hy)
  · exact congrArg (Option.map _) (hmem hs.manual hy)
  · exact congrArg (Option.map _) (hmem (hs.slices x hx) hy)

theorem objects_inj (h : s.objects = s'.objects) :
    s.listeners = s'.listeners ∧ s.clusters = s'.clusters ∧ s.routes = s'.routes ∧ s.scopedRoutes = s'.scopedRoutes ∧
      s.manual = s'.manual ∧ s.synthesised.flatMap (·.slices) = s'.synthesised.flatMap (·.slices) := by
  have hpart {α : Type} (f : Object → Option α) := congrArg (List.filterMap f) h
  refine ⟨?_, ?_, ?_, ?_, ?_, ?_⟩
  · simpa [Selected.objects, Function.comp_def] using
      hpart fun | .listener x => some x | _ => none
  · simpa [Selected.objects, Function.comp_def] using
      hpart fun | .cluster x => some x | _ => none
  · simpa [Selected.objects, Function.comp_def] using
      hpart fun | .routeConfiguration x => some x | _ => none
  · simpa [Selected.objects, Function.comp_def] using
      hpart fun | .scopedRouteConfiguration x => some x | _ => none
  · simpa [Selected.objects, Function.comp_def] using
      hpart fun | .clusterLoadAssignment x => some x | _ => none
  · simpa [Selected.objects, Function.comp_def] using
      hpart fun | .endpointSlice x => some x | _ => none

end Objects

theorem eq_of_map_eq {α β : Type} {f : α → β} {l l' : List α} (hinj : ∀ x ∈ l, ∀ y ∈ l', f x = f y → x = y)
    (h : l.map f = l'.map f) : l = l' := by
  induction l generalizing l' with
  | nil => exact (List.map_eq_nil_iff.mp h.symm).symm
  | cons x l ih =>
    obtain ⟨y, l', rfl, hy, hrest⟩ := List.map_eq_cons_iff.mp h.symm
    rw [hinj x List.mem_cons_self y List.mem_cons_self hy.symm,
      ih (fun z hz w hw => hinj z (List.mem_cons_of_mem _ hz) w (List.mem_cons_of_mem _ hw)) hrest.symm]

/-! ### Slices -/

section Slices
variable {a b : API} {key : NamespacedName} {s s' : Selected}

theorem mem_slices_iff (hs : Selects a key s) {x : Synthesised} (hx : x ∈ s.synthesised) {y : EndpointSlice} :
    y ∈ x.slices ↔ y ∈ s.synthesised.flatMap (·.slices) ∧ y.selected x.synthesis.svcNS x.synthesis.ref.name = true := by
  have hstored (z : Synthesised) (hz : z ∈ s.synthesised) (y : EndpointSlice) : y ∈ z.slices ↔
      y ∈ a.endpointSlices.items ∧ y.selected z.synthesis.svcNS z.synthesis.ref.name = true := by
    rw [(hs.slices z hz).mem_iff]
    exact List.mem_filter
  constructor
  · exact fun hy => ⟨List.mem_flatMap.mpr ⟨x, hx, hy⟩, ((hstored x hx y).mp hy).2⟩
  · intro h
    rcases h with ⟨hy, hsel⟩
    obtain ⟨z, hz, hyz⟩ := List.mem_flatMap.mp hy
    exact (hstored x hx y).mpr ⟨((hstored z hz y).mp hyz).1, hsel⟩

theorem slices_nodup (hs : Selects a key s) {x : Synthesised} (hx : x ∈ s.synthesised) : x.slices.Nodup :=
  (hs.slices x hx).nodup_iff.mpr (a.endpointSlices.items_nodup.filter _)

theorem synthesised_eq {xs xs' : List Synthesised} (hsyn : xs.map (·.synthesis) = xs'.map (·.synthesis))
    (hlen : ∀ x ∈ xs, ∀ x' ∈ xs', x.synthesis = x'.synthesis → x.slices.length = x'.slices.length)
    (h : xs.flatMap (·.slices) = xs'.flatMap (·.slices)) : xs = xs' := by
  induction xs generalizing xs' with
  | nil => exact (List.map_eq_nil_iff.mp hsyn.symm).symm
  | cons x xs ih =>
    obtain ⟨x', xs', rfl, hx, hrest⟩ := List.map_eq_cons_iff.mp hsyn.symm
    rw [List.flatMap_cons, List.flatMap_cons] at h
    obtain ⟨hslices, htail⟩ := List.append_inj h (hlen x List.mem_cons_self x' List.mem_cons_self hx.symm)
    have hxs := ih hrest.symm (fun y hy y' hy' => hlen y (List.mem_cons_of_mem _ hy) y' (List.mem_cons_of_mem _ hy')) htail
    obtain ⟨syn, slices⟩ := x
    obtain ⟨syn', slices'⟩ := x'
    cases hx
    cases hslices
    rw [hxs]

/-- Selections of the same objects, at any two moments, are the same. -/
theorem selected_eq (hs : Selects a key s) (hs' : Selects b key s') (h : s.objects = s'.objects) : s = s' := by
  obtain ⟨hl, hc, hr, hsr, hm, hslices⟩ := objects_inj h
  have hsyn : s.synthesised.map (·.synthesis) = s'.synthesised.map (·.synthesis) := by
    rw [hs.syntheses, hs'.syntheses, Selected.manualNames, Selected.manualNames, hc, hm]
  have hxs : s.synthesised = s'.synthesised := by
    refine synthesised_eq hsyn (fun x hx x' hx' heq => ?_) hslices
    refine ((List.perm_ext_iff_of_nodup (slices_nodup hs hx) (slices_nodup hs' hx')).mpr fun y => ?_).length_eq
    rw [mem_slices_iff hs hx, mem_slices_iff hs' hx', hslices, heq]
  obtain ⟨ls, cs, rs, srs, ms, xs⟩ := s
  obtain ⟨ls', cs', rs', srs', ms', xs'⟩ := s'
  simp only [Selected.mk.injEq]
  exact ⟨hl, hc, hr, hsr, hm, hxs⟩

theorem marshals_eq {pj : Protojson} {xs : List Synthesised} {raws raws' : List Raw} (h : Marshals pj xs raws)
    (h' : Marshals pj xs raws') : raws = raws' := by
  induction h generalizing raws' with
  | nil => cases h'; rfl
  | cons hraw _ ih =>
    cases h' with
    | cons hraw' hrest => rw [Except.ok.inj (hraw.symm.trans hraw'), ih hrest]

end Slices

/-! ### The text -/

def Collected.content (pj : Protojson) (c : Collected) : Except String Resources :=
  decodeAll pj c.listeners c.clusters c.routes c.scopedRoutes c.endpoints

section Moments
variable {pj : Protojson} {s t : ApiServer} {key : NamespacedName} {c c' : Collected}

/-- Every object that is stored has a version. -/
theorem versions_ne_nil (hs : ApiServer.empty.Run s) {x : Selected} (hx : Selects s.api key x) :
    ∀ w ∈ x.versions.flatten.map String.toList, w ≠ [] := by
  rw [← objects_versions, List.map_map, List.forall_mem_map]
  intro o ho hnil
  obtain ⟨n, -, hn⟩ := (ApiServer.versioned_empty.run hs).given o (holds_of_mem_objects hx ho)
  exact Nat.repr_ne_empty (hn.symm.trans (String.toList_eq_nil_iff.mp hnil))

/-- Equal texts at two moments come from the same objects, if the versions that enter them are separable. -/
theorem collected_eq (hs : ApiServer.empty.Run s) (hr : s.Run t)
    (hc : (collect pj key.ns key.name).run.Result s.api.Reads (.ok c))
    (hc' : (collect pj key.ns key.name).run.Result t.api.Reads (.ok c'))
    (hsep : Words.Separable (c.versions.flatten.map String.toList) (c'.versions.flatten.map String.toList))
    (h : fed c.versions = fed c'.versions) : c = c' := by
  obtain ⟨x, raws, hx, hm, rfl⟩ := (collect_iff s.api.listing).mp hc
  obtain ⟨x', raws', hx', hm', rfl⟩ := (collect_iff t.api.listing).mp hc'
  rw [fed_inj, List.flatMap_def, List.flatMap_def] at h
  have hwords := hsep.eq_of_flatten_eq (versions_ne_nil hs hx) (versions_ne_nil (hs.trans hr) hx') h
  have hversions : x.versions.flatten = x'.versions.flatten :=
    List.map_injective_iff.mpr (fun _ _ => String.toList_inj.mp) hwords
  rw [← objects_versions, ← objects_versions] at hversions
  have hobjects : x.objects = x'.objects := eq_of_map_eq (fun o ho o' ho' =>
    ApiServer.eq_of_resourceVersion hs hr (holds_of_mem_objects hx ho) (holds_of_mem_objects hx' ho')) hversions
  obtain rfl := selected_eq hx hx' hobjects
  rw [marshals_eq hm hm']

/-- The version text changes with the content: at any two moments of a run of the API server, if the
    content that a Reconcile of `key` collects differs, so do the bytes that are hashed, provided that no
    resource version that enters them at one moment is the beginning of another one that enters them at the
    other moment, or at neither moment more than one enters them. -/
theorem hashed_ne_of_content_ne (hs : ApiServer.empty.Run s) (hr : s.Run t)
    (hc : (collect pj key.ns key.name).run.Result s.api.Reads (.ok c))
    (hc' : (collect pj key.ns key.name).run.Result t.api.Reads (.ok c'))
    (hsep : Words.Separable (c.versions.flatten.map String.toList) (c'.versions.flatten.map String.toList))
    (hne : c.content pj ≠ c'.content pj) : (fed c.versions).toUTF8 ≠ (fed c'.versions).toUTF8 := by
  intro heq
  have hfed : fed c.versions = fed c'.versions := String.toByteArray_inj.mp heq
  exact hne (by rw [collected_eq hs hr hc hc' hsep hfed])

end Moments

namespace Sample

def started : ApiServer := ApiServer.empty.write (.envoyProxy proxy) 1

theorem run_started : ApiServer.empty.Run started := .single (.write _ _ 1 (by decide) rfl)

/-- A moment with two listeners, and a later one with another listener in their place. -/
def before : ApiServer := (started.write (.listener (listener "http" "2")) 2).write (.listener (listener "https" "3")) 3
def after : ApiServer :=
  ((before.delete (.listener ⟨"prod", "http"⟩)).delete (.listener ⟨"prod", "https"⟩)).write
    (.listener (listener "tcp" "23")) 23

theorem run_before : ApiServer.empty.Run before :=
  (run_started.tail (.write _ _ 2 (by decide) rfl)).tail (.write _ _ 3 (by decide) rfl)

theorem run_after : before.Run after :=
  ((Relation.ReflTransGen.single (.delete _ _)).tail (.delete _ _)).tail (.write _ _ 23 (by decide) rfl)

end Sample

/-- The text may stay: the versions `2` and `3` of two listeners spell the version `23` of a third. -/
theorem hashed_eq_of_content_ne : ¬∀ (pj : Protojson) (s t : ApiServer) (p : EnvoyProxy) (c c' : Collected), pj.Lawful →
    ApiServer.empty.Run s → s.Run t → s.api.envoyProxies.get? p.key = some p → t.api.envoyProxies.get? p.key = some p →
    (collect pj p.key.ns p.key.name).run.Result s.api.Reads (.ok c) →
    (collect pj p.key.ns p.key.name).run.Result t.api.Reads (.ok c') →
    c.content pj ≠ c'.content pj → (fed c.versions).toUTF8 ≠ (fed c'.versions).toUTF8 := by
  intro h
  have hc := collect_stored .reference Sample.before.api Sample.proxy.key .nil
  have hc' := collect_stored .reference Sample.after.api Sample.proxy.key .nil
  refine h _ _ _ Sample.proxy _ _ Protojson.reference_lawful Sample.run_before Sample.run_after rfl rfl hc hc' ?_ ?_
  · decide +kernel
  · decide +kernel

namespace Sample

/-- One of the two listeners is changed; and there is one listener, which is changed. -/
def updated : ApiServer := before.write (.listener (resource "http" "4" "\x7b\"name\": \"h2\"\x7d")) 4

def single : ApiServer := started.write (.listener (listener "http" "2")) 2
def renewed : ApiServer := single.write (.listener (resource "http" "23" "\x7b\"name\": \"h2\"\x7d")) 23

theorem run_updated : before.Run updated := .single (.write _ _ 4 (by decide) rfl)
theorem run_single : ApiServer.empty.Run single := run_started.tail (.write _ _ 2 (by decide) rfl)
theorem run_renewed : single.Run renewed := .single (.write _ _ 23 (by decide) rfl)

end Sample

/-- One of two listeners goes from version 2 to 4, and the only listener from 2 to 23. -/
theorem hashed_ne_of_update :
    (fed (Sample.before.api.stored Sample.proxy.key).versions).toUTF8 ≠
      (fed (Sample.updated.api.stored Sample.proxy.key).versions).toUTF8 ∧
    (fed (Sample.single.api.stored Sample.proxy.key).versions).toUTF8 ≠
      (fed (Sample.renewed.api.stored Sample.proxy.key).versions).toUTF8 := by
  constructor
  · exact hashed_ne_of_content_ne Sample.run_before Sample.run_updated
      (collect_stored .reference Sample.before.api Sample.proxy.key .nil)
      (collect_stored .reference Sample.updated.api Sample.proxy.key .nil) (by decide +kernel) (by decide +kernel)
  · exact hashed_ne_of_content_ne Sample.run_single Sample.run_renewed
      (collect_stored .reference Sample.single.api Sample.proxy.key .nil)
      (collect_stored .reference Sample.renewed.api Sample.proxy.key .nil) (by decide +kernel) (by decide +kernel)

end EnvoyMesh
