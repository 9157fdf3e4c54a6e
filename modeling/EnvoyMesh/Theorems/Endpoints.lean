import EnvoyMesh.Theorems.Succeeding
import EnvoyMesh.Undisturbed
import EnvoyMesh.Xds.Reference

/-! # Endpoints of a snapshot

Which assignments a snapshot holds: the synthesised ones win over the manual ones of the same name, and
the manual ones over nothing. Synthesis keeps away from the names it reads off the manual specs, but it
reads `name` where an assignment carries `cluster_name`. -/

namespace EnvoyMesh
open Prog

def API.manualNames (a : API) (key : NamespacedName) : List String :=
  (a.assignmentsOf key).map fun x => clusterName x.spec

/-- A manual assignment of the proxy decodes to one for cluster `n`. -/
def ManualFor (pj : Protojson) (a : API) (key : NamespacedName) (n : String) : Prop :=
  ∃ x ∈ a.assignmentsOf key, ∃ cla, decode? pj.clusterLoadAssignment x.spec = some cla ∧ cla.clusterName = n

/-- An assignment named `n` is synthesised from the reference of a cluster. -/
def Synthesises (a : API) (key : NamespacedName) (n : String) : Prop :=
  ∃ c ∈ a.clustersOf key, ∃ syn, synthesisOf (a.manualNames key) c = some syn ∧ syn.clusterName = n

section Entries
variable {pj : Protojson} {a : API} {key : NamespacedName} {s : Selected} {n : String}

theorem mem_manualNames (hs : Selects a key s) (n : String) : n ∈ s.manualNames ↔ n ∈ a.manualNames key := by
  simp only [Selected.manualNames, API.manualNames, List.mem_map, hs.manual.mem_iff]
  exact Iff.rfl

theorem synthesises_iff (hs : Selects a key s) :
    Synthesises a key n ↔ ∃ x ∈ s.synthesised, x.synthesis.clusterName = n := by
  have hsyn : (∃ x ∈ s.synthesised, x.synthesis.clusterName = n) ↔
      ∃ syn ∈ s.synthesised.map (·.synthesis), syn.clusterName = n := by simp
  rw [hsyn, hs.syntheses]
  simp only [Synthesises, List.mem_filterMap, hs.clusters.mem_iff, synthesisOf_congr (mem_manualNames hs)]
  constructor
  · intro h
    rcases h with ⟨c, hc, syn, hsyn, hn⟩
    exact ⟨syn, ⟨c, hc, hsyn⟩, hn⟩
  · intro h
    rcases h with ⟨syn, ⟨c, hc, hsyn⟩, hn⟩
    exact ⟨c, hc, syn, hsyn, hn⟩

theorem manualFor_iff (hs : Selects a key s) :
    ManualFor pj a key n ↔ ∃ cla ∈ resourcesOf pj.clusterLoadAssignment s.manual, cla.clusterName = n := by
  simp only [ManualFor, resourcesOf, List.mem_filterMap, hs.manual.mem_iff]
  constructor
  · intro h
    rcases h with ⟨x, hx, cla, hcla, hn⟩
    exact ⟨cla, ⟨x, hx, hcla⟩, hn⟩
  · intro h
    rcases h with ⟨cla, ⟨x, hx, hcla⟩, hn⟩
    exact ⟨x, hx, cla, hcla, hn⟩

theorem endpoints_eq {version : String} : (newSnapshot version (s.resources pj)).endpoints n =
    (Index.byName (·.clusterName) (s.synthesised.map (·.cla)) n).or
      (Index.byName (·.clusterName) (resourcesOf pj.clusterLoadAssignment s.manual) n) := Index.byName_append

/-- Where nothing is synthesised for a name, the entry is that of the manual assignments. -/
theorem endpoints_of_not_synthesises {version : String} (hs : Selects a key s) (h : ¬Synthesises a key n) :
    (newSnapshot version (s.resources pj)).endpoints n =
      Index.byName (·.clusterName) (resourcesOf pj.clusterLoadAssignment s.manual) n := by
  have hnone : Index.byName (·.clusterName) (s.synthesised.map (·.cla)) n = none := by
    rw [← Option.not_isSome_iff_eq_none, Index.byName_isSome]
    intro hgiven
    rcases hgiven with ⟨_, hmem, hn⟩
    obtain ⟨x, hx, rfl⟩ := List.mem_map.mp hmem
    exact h ((synthesises_iff hs).mpr ⟨x, hx, hn⟩)
  rw [endpoints_eq, hnone, Option.none_or]

/-- A name has an entry if an assignment for it is synthesised or is there by hand. -/
theorem endpoints_isSome {version : String} (hs : Selects a key s) :
    ((newSnapshot version (s.resources pj)).endpoints n).isSome ↔ Synthesises a key n ∨ ManualFor pj a key n := by
  have hmap : (∃ cla ∈ s.synthesised.map (·.cla), cla.clusterName = n) ↔
      ∃ x ∈ s.synthesised, x.synthesis.clusterName = n := by
    simp only [List.mem_map, exists_exists_and_eq_and]
    exact Iff.rfl
  rw [endpoints_eq, Option.isSome_or, Bool.or_eq_true, Index.byName_isSome, Index.byName_isSome, hmap,
    ← synthesises_iff hs, ← manualFor_iff hs]

end Entries

/-! ### Selections -/

def API.syntheses (a : API) (key : NamespacedName) (clusters : List Cluster) : List Synthesis :=
  clusters.filterMap (synthesisOf (a.manualNames key))

section Selections
variable {a : API} {key : NamespacedName} {s : Selected}

theorem syntheses_eq (hs : Selects a key s) : s.synthesised.map (·.synthesis) = a.syntheses key s.clusters := by
  rw [hs.syntheses, API.syntheses]
  exact List.filterMap_congr fun c _ => synthesisOf_congr (mem_manualNames hs)

theorem synthesis_mem (hs : Selects a key s) {x : Synthesised} (hx : x ∈ s.synthesised) :
    x.synthesis ∈ a.syntheses key (a.clustersOf key) := by
  have hx' : x.synthesis ∈ a.syntheses key s.clusters := syntheses_eq hs ▸ List.mem_map_of_mem hx
  exact (hs.clusters.filterMap _).mem_iff.mp hx'

/-- The objects in the given orders, with the slices of a synthesised assignment as `slices` says. -/
def API.select (a : API) (key : NamespacedName) (clusters : List Cluster) (slices : Synthesis → List EndpointSlice) :
    Selected where
  listeners := API.targeting key a.listeners.items
  clusters := clusters
  routes := API.targeting key a.routeConfigurations.items
  scopedRoutes := API.targeting key a.scopedRouteConfigurations.items
  manual := a.assignmentsOf key
  synthesised := (a.syntheses key clusters).map fun syn => ⟨syn, slices syn⟩

def API.storedSlices (a : API) (syn : Synthesis) : List EndpointSlice := a.endpointSlicesOf syn.svcNS syn.ref.name

theorem selects_select {clusters : List Cluster} (slices : Synthesis → List EndpointSlice)
    (hc : clusters.Perm (a.clustersOf key)) (hsl : ∀ syn, (slices syn).Perm (a.storedSlices syn)) :
    Selects a key (a.select key clusters slices) where
  listeners := List.Perm.refl _
  clusters := hc
  routes := List.Perm.refl _
  scopedRoutes := List.Perm.refl _
  manual := List.Perm.refl _
  syntheses := by
    simp only [API.select, List.map_map, Function.comp_def, List.map_id']
    rfl
  slices := by
    simp only [API.select, List.forall_mem_map]
    exact fun syn _ => hsl syn

def API.stored (a : API) (key : NamespacedName) : Selected := a.select key (a.clustersOf key) a.storedSlices

theorem selects_stored : Selects a key (a.stored key) :=
  selects_select _ (List.Perm.refl _) fun _ => List.Perm.refl _

theorem collect_stored (pj : Protojson) (a : API) (key : NamespacedName) {raws : List Raw}
    (hm : Marshals pj (a.stored key).synthesised raws) :
    (collect pj key.ns key.name).run.Result a.Reads (.ok ((a.stored key).collected raws)) :=
  (collect_iff a.listing).mpr ⟨_, raws, selects_stored, hm, rfl⟩

/-- The manual assignments can be listed in any order without a change to what is synthesised. -/
theorem selects_manual {m : List XDSResource} (hm : m.Perm (a.assignmentsOf key)) :
    Selects a key { a.stored key with manual := m } := by
  have hstored : Selects a key (a.stored key) := selects_stored
  refine { hstored with manual := hm, syntheses := ?_ }
  rw [hstored.syntheses]
  refine List.filterMap_congr fun c _ => synthesisOf_congr fun n => ?_
  simp only [Selected.manualNames, API.stored, API.select, List.mem_map, hm.mem_iff]

theorem exists_exec_ok {pj : Protojson} {w : World} (hpj : pj.Lawful) (p : EnvoyProxy)
    (hp : w.api.envoyProxies.get? p.key = some p) (hdec : Decodable pj w.api p.key) :
    ∃ w', (reconcile pj p.key).Exec World.Answers w w' (.ok ()) := by
  obtain ⟨w', hexec, -⟩ := exists_exec hpj hp hdec selects_stored
  exact ⟨w', hexec.mono fun _ _ _ _ hw => hw.1⟩

end Selections

namespace Sample

/-- The snapshot that a Reconcile of the proxy with its listener stores. -/
def snapshot : Snapshot :=
  newSnapshot (written.world.api.stored proxy.key).version ((written.world.api.stored proxy.key).resources .reference)

def cached : System where
  world := { written.world with cache := Function.update written.world.cache proxy.key.nodeID (some snapshot) }
  queue := written.queue.filter (· ≠ proxy.key)
  running := written.running

theorem decodable_written : Decodable .reference written.world.api proxy.key := by constructor <;> decide +kernel

theorem exec_cached : (reconcile .reference proxy.key).Exec World.Answers written.world cached.world (.ok ()) := by
  have hexec := exec_selected Protojson.reference_lawful (show _ = some proxy from rfl) decodable_written selects_stored
  exact hexec.mono fun _ _ _ _ hw => hw.1

theorem decodable_stored : Decodable .reference stored proxy.key := by constructor <;> decide +kernel

/-- The two listeners in the other order. -/
def swapped : Selected := { stored.stored proxy.key with listeners := [https, http] }

theorem selects_swapped : Selects stored proxy.key swapped :=
  have hstored : Selects stored proxy.key (stored.stored proxy.key) := selects_stored
  { hstored with listeners := List.Perm.swap .. }

end Sample

/-! ### Manual endpoints -/

/-- Manual endpoints win: under a name that a manual assignment is for stands one of the manual
    assignments and none is synthesised, and synthesis skips a cluster with a name only for a manual
    assignment of that name. -/
structure ManualWins (pj : Protojson) (a : API) (key : NamespacedName) (snap : Snapshot) : Prop where
  entry : ∀ n, n ≠ "" → ManualFor pj a key n →
    (∃ x ∈ a.assignmentsOf key, ∃ cla, decode? pj.clusterLoadAssignment x.spec = some cla ∧ cla.clusterName = n ∧
      snap.endpoints n = some cla) ∧ ¬Synthesises a key n
  skipped : ∀ c ∈ a.clustersOf key, c.kubernetesServiceRef.isSome → ∀ d, decode? pj.cluster c.spec = some d →
    d.name ≠ "" → synthesisOf (a.manualNames key) c = none → ManualFor pj a key d.name

/-- The name that is read off the spec of a cluster with a reference agrees with the manual assignments:
    if one of them is for that name, the name can be read off a manual spec, and if it is empty or can be
    read off a manual spec, a manual assignment is for the cluster. -/
def NamesAgree (pj : Protojson) (a : API) (key : NamespacedName) : Prop :=
  ∀ c ∈ a.clustersOf key, c.kubernetesServiceRef.isSome →
    (clusterName c.spec ≠ "" → ManualFor pj a key (clusterName c.spec) → clusterName c.spec ∈ a.manualNames key) ∧
    ∀ d, decode? pj.cluster c.spec = some d → d.name ≠ "" →
      (clusterName c.spec = "" ∨ clusterName c.spec ∈ a.manualNames key) → ManualFor pj a key d.name

section Manual
variable {pj : Protojson} {a : API} {key : NamespacedName} {snap : Snapshot}

theorem synthesises_iff_name {n : String} : Synthesises a key n ↔
    n ≠ "" ∧ n ∉ a.manualNames key ∧ ∃ c ∈ a.clustersOf key, c.kubernetesServiceRef.isSome ∧ clusterName c.spec = n := by
  constructor
  · intro hgiven
    rcases hgiven with ⟨c, hc, syn, hsyn, rfl⟩
    obtain ⟨href, -, hname, hne, hmem⟩ := synthesisOf_eq_some hsyn
    exact ⟨hne, hmem, c, hc, by rw [href]; rfl, hname.symm⟩
  · intro hgiven
    rcases hgiven with ⟨hne, hmem, c, hc, href, rfl⟩
    cases hsyn : synthesisOf (a.manualNames key) c with
    | none =>
      rcases (synthesisOf_eq_none href).mp hsyn with h | h
      · exact absurd h hne
      · exact absurd h hmem
    | some syn => exact ⟨c, hc, syn, hsyn, (synthesisOf_eq_some hsyn).2.2.1⟩

theorem manualWins_iff (hpj : pj.Lawful) (h : Pipeline pj a key snap) : ManualWins pj a key snap ↔ NamesAgree pj a key := by
  obtain ⟨-, s, hs, rfl⟩ := (pipeline_iff hpj).mp h
  constructor
  · intro hw c hc href
    refine ⟨fun hne hman => ?_, fun d hd hne hskip => ?_⟩
    · by_contra hmem
      exact (hw.entry _ hne hman).2 (synthesises_iff_name.mpr ⟨hne, hmem, c, hc, href, rfl⟩)
    · exact hw.skipped c hc href d hd hne ((synthesisOf_eq_none href).mpr hskip)
  · intro hagree
    refine ⟨fun n hne hman => ?_, fun c hc href d hd hne hskip => ?_⟩
    · have hnot : ¬Synthesises a key n := by
        intro hsyn
        obtain ⟨-, hmem, c, hc, href, rfl⟩ := synthesises_iff_name.mp hsyn
        exact hmem ((hagree c hc href).1 hne hman)
      refine ⟨?_, hnot⟩
      have hsome := Index.byName_isSome.mpr ((manualFor_iff hs).mp hman)
      obtain ⟨cla, hcla⟩ := Option.isSome_iff_exists.mp hsome
      obtain ⟨hmem, hname⟩ := Index.name_of_byName hcla
      obtain ⟨x, hx, hdec⟩ := List.mem_filterMap.mp hmem
      exact ⟨x, hs.manual.mem_iff.mp hx, cla, hdec, hname, (endpoints_of_not_synthesises hs hnot).trans hcla⟩
    · exact (hagree c hc href).2 d hd hne ((synthesisOf_eq_none href).mp hskip)

/-- Manual endpoints win in the snapshot of a successful Reconcile exactly if the names agree. -/
theorem manual_endpoints_win_iff (hpj : pj.Lawful) {w w' : World} (p : EnvoyProxy)
    (hp : w.api.envoyProxies.get? p.key = some p) (h : (reconcile pj p.key).Exec World.Answers w w' (.ok ())) :
    (∃ snap, w'.cache p.key.nodeID = some snap ∧ ManualWins pj w.api p.key snap) ↔ NamesAgree pj w.api p.key := by
  obtain ⟨snap, hcache, hpipe⟩ := exec_reconcile_ok hp h
  have hsnap : w'.cache p.key.nodeID = some snap := by rw [hcache, Function.update_self]
  constructor
  · intro hgiven
    rcases hgiven with ⟨snap', hsnap', hw⟩
    obtain rfl : snap = snap' := Option.some.inj (hsnap.symm.trans hsnap')
    exact (manualWins_iff hpj hpipe).mp hw
  · exact fun hagree => ⟨snap, hsnap, (manualWins_iff hpj hpipe).mpr hagree⟩

end Manual

namespace Sample

theorem decode_web : decode? Protojson.reference.cluster web = some ⟨"web", some .eds, none, web⟩ := by decide +kernel

theorem decode_manual : decode? Protojson.reference.clusterLoadAssignment manual = some ⟨"web", [], ""⟩ := by decide +kernel

theorem decode_named : decode? Protojson.reference.clusterLoadAssignment named = some ⟨"web", [], ""⟩ := by decide +kernel

/-- The cluster and the assignment are all there is to decode. -/
theorem decodable_assigned {spec : Raw} (h : Decodes Protojson.reference.clusterLoadAssignment spec) :
    Decodable .reference (assigned spec).api proxy.key where
  listeners _ hx := nomatch hx
  clusters x hx := by
    obtain rfl := List.mem_singleton.mp hx
    exact decodes_of_decode? decode_web
  routes _ hx := nomatch hx
  scopedRoutes _ hx := nomatch hx
  assignments x hx := by
    obtain rfl := List.mem_singleton.mp hx
    exact h

end Sample

/-- They do not always: a manual assignment that carries its name under `cluster_name` only is replaced by
    the one that is synthesised for the cluster. -/
theorem manual_endpoints_replaced : ¬∀ (pj : Protojson) (w w' : World) (p : EnvoyProxy), pj.Lawful →
    w.api.envoyProxies.get? p.key = some p → (reconcile pj p.key).Exec World.Answers w w' (.ok ()) →
    ∃ snap, w'.cache p.key.nodeID = some snap ∧ ManualWins pj w.api p.key snap := by
  intro h
  have hpj := Protojson.reference_lawful
  have hdec := Sample.decodable_assigned (decodes_of_decode? Sample.decode_manual)
  obtain ⟨w', hexec⟩ := exists_exec_ok hpj Sample.proxy rfl hdec
  obtain ⟨snap, -, hwins⟩ := h _ _ w' Sample.proxy hpj rfl hexec
  have hman : ManualFor .reference (Sample.assigned Sample.manual).api Sample.proxy.key "web" :=
    ⟨Sample.resource "web" "4" Sample.manual, List.mem_singleton_self _, _, Sample.decode_manual, rfl⟩
  refine (hwins.entry "web" (by decide) hman).2 (synthesises_iff_name.mpr ⟨by decide, by decide +kernel, ?_⟩)
  exact ⟨Sample.cluster "web" "3" Sample.web, List.mem_singleton_self _, rfl, by decide +kernel⟩

theorem manual_endpoints_win_named : ∃ w',
    (reconcile .reference Sample.proxy.key).Exec World.Answers (Sample.assigned Sample.named) w' (.ok ()) ∧
    ∃ snap, w'.cache Sample.proxy.key.nodeID = some snap ∧
      ManualWins .reference (Sample.assigned Sample.named).api Sample.proxy.key snap := by
  have hpj := Protojson.reference_lawful
  have hdec := Sample.decodable_assigned (decodes_of_decode? Sample.decode_named)
  obtain ⟨w', hexec⟩ := exists_exec_ok hpj Sample.proxy rfl hdec
  refine ⟨w', hexec, (manual_endpoints_win_iff hpj Sample.proxy rfl hexec).mpr fun c hc _ => ?_⟩
  obtain rfl := List.mem_singleton.mp hc
  refine ⟨fun _ _ => by decide +kernel, fun d hd _ _ => ?_⟩
  obtain rfl := Option.some.inj (Sample.decode_web.symm.trans hd)
  exact ⟨Sample.resource "web" "4" Sample.named, List.mem_singleton_self _, _, Sample.decode_named, rfl⟩

/-! ### Endpoint closure -/

/-- The name of the assignment Envoy subscribes to for an EDS cluster. -/
def Envoy.Cluster.subscribed (d : Envoy.Cluster) : String :=
  match d.edsClusterConfig with
  | some config => if config.serviceName ≠ "" then config.serviceName else d.name
  | none => d.name

/-- The EDS clusters with a name that a Reconcile of `key` serves and that have a reference. -/
def EdsCluster (pj : Protojson) (a : API) (key : NamespacedName) (d : Envoy.Cluster) : Prop :=
  ∃ c ∈ a.clustersOf key, c.kubernetesServiceRef.isSome ∧ decode? pj.cluster c.spec = some d ∧
    d.type = some .eds ∧ d.name ≠ ""

/-- Every such cluster finds the assignment it subscribes to. -/
def EndpointClosure (pj : Protojson) (a : API) (key : NamespacedName) (snap : Snapshot) : Prop :=
  ∀ d, EdsCluster pj a key d → (snap.endpoints d.subscribed).isSome

/-- A manual assignment is for the name each such cluster subscribes to, or the name is that of a cluster
    with a reference and is not read off a manual spec. -/
def SubscribedNamed (pj : Protojson) (a : API) (key : NamespacedName) : Prop :=
  ∀ d, EdsCluster pj a key d → ManualFor pj a key d.subscribed ∨
    (d.subscribed ≠ "" ∧ d.subscribed ∉ a.manualNames key ∧
      ∃ c ∈ a.clustersOf key, c.kubernetesServiceRef.isSome ∧ clusterName c.spec = d.subscribed)

/-- The snapshot of a successful Reconcile is closed exactly if the names that its clusters subscribe to
    are named by assignments or by clusters with a reference. -/
theorem endpoint_closure_iff {pj : Protojson} (hpj : pj.Lawful) {w w' : World} (p : EnvoyProxy)
    (hp : w.api.envoyProxies.get? p.key = some p) (h : (reconcile pj p.key).Exec World.Answers w w' (.ok ())) :
    (∃ snap, w'.cache p.key.nodeID = some snap ∧ EndpointClosure pj w.api p.key snap) ↔
      SubscribedNamed pj w.api p.key := by
  obtain ⟨snap, hcache, hpipe⟩ := exec_reconcile_ok hp h
  have hsnap : w'.cache p.key.nodeID = some snap := by rw [hcache, Function.update_self]
  obtain ⟨-, s, hs, rfl⟩ := (pipeline_iff hpj).mp hpipe
  have hentry (n : String) : ((newSnapshot s.version (s.resources pj)).endpoints n).isSome ↔
      ManualFor pj w.api p.key n ∨ (n ≠ "" ∧ n ∉ w.api.manualNames p.key ∧
        ∃ c ∈ w.api.clustersOf p.key, c.kubernetesServiceRef.isSome ∧ clusterName c.spec = n) := by
    rw [endpoints_isSome hs, synthesises_iff_name, or_comm]
  constructor
  · rintro ⟨snap', hsnap', hclosed⟩ d hd
    obtain rfl := Option.some.inj (hsnap.symm.trans hsnap')
    exact (hentry _).mp (hclosed d hd)
  · exact fun hnamed => ⟨_, hsnap, fun d hd => (hentry _).mpr (hnamed d hd)⟩

namespace Sample

def serviceNamed : Raw :=
  "\x7b\"name\": \"web\", \"type\": \"EDS\", \"edsClusterConfig\": \x7b\"serviceName\": \"prod/web\"\x7d\x7d"

def edsWorld (spec : Raw) : World := world [.cluster (cluster "web" "3" spec)]

theorem decode_serviceNamed : decode? Protojson.reference.cluster serviceNamed =
    some ⟨"web", some .eds, some ⟨"prod/web", ""⟩, serviceNamed⟩ := by decide +kernel

/-- The cluster is all there is to decode. -/
theorem decodable_edsWorld {spec : Raw} (h : Decodes Protojson.reference.cluster spec) :
    Decodable .reference (edsWorld spec).api proxy.key where
  listeners _ hx := nomatch hx
  clusters x hx := by
    obtain rfl := List.mem_singleton.mp hx
    exact h
  routes _ hx := nomatch hx
  scopedRoutes _ hx := nomatch hx
  assignments _ hx := nomatch hx

end Sample

/-- It is not always closed: Envoy subscribes to the `service_name` of a cluster, but the assignment is
    synthesised under its `name`. -/
theorem endpoints_not_closed : ¬∀ (pj : Protojson) (w w' : World) (p : EnvoyProxy), pj.Lawful →
    w.api.envoyProxies.get? p.key = some p → (reconcile pj p.key).Exec World.Answers w w' (.ok ()) →
    ∃ snap, w'.cache p.key.nodeID = some snap ∧ EndpointClosure pj w.api p.key snap := by
  intro h
  have hpj := Protojson.reference_lawful
  have hdec := Sample.decodable_edsWorld (decodes_of_decode? Sample.decode_serviceNamed)
  obtain ⟨w', hexec, hcache⟩ := exists_exec hpj (show _ = some Sample.proxy from rfl) hdec selects_stored
  obtain ⟨snap, hsnap, hclosed⟩ := h _ _ w' Sample.proxy hpj rfl (hexec.mono fun _ _ _ _ hw => hw.1)
  obtain rfl := Option.some.inj (hcache.symm.trans hsnap)
  have hentry := hclosed _ ⟨_, List.mem_singleton_self _, rfl, Sample.decode_serviceNamed, rfl, by decide⟩
  rcases (endpoints_isSome selects_stored).mp hentry with hsyn | ⟨x, hx, -⟩
  · obtain ⟨-, -, c, hc, -, hname⟩ := synthesises_iff_name.mp hsyn
    obtain rfl := List.mem_singleton.mp hc
    revert hname
    decide +kernel
  · cases hx

/-- Without an EDS configuration the cluster finds its assignment. -/
theorem endpoint_closure_web : ∃ w',
    (reconcile .reference Sample.proxy.key).Exec World.Answers (Sample.edsWorld Sample.web) w' (.ok ()) ∧
    ∃ snap, w'.cache Sample.proxy.key.nodeID = some snap ∧
      EndpointClosure .reference (Sample.edsWorld Sample.web).api Sample.proxy.key snap := by
  have hpj := Protojson.reference_lawful
  have hdec := Sample.decodable_edsWorld (decodes_of_decode? Sample.decode_web)
  obtain ⟨w', hexec⟩ := exists_exec_ok hpj Sample.proxy rfl hdec
  refine ⟨w', hexec, (endpoint_closure_iff hpj Sample.proxy rfl hexec).mpr ?_⟩
  rintro d ⟨c, hc, href, hd, -, -⟩
  obtain rfl := List.mem_singleton.mp hc
  obtain rfl := Option.some.inj (Sample.decode_web.symm.trans hd)
  exact Or.inr ⟨by decide, by decide +kernel, _, hc, href, by decide +kernel⟩

end EnvoyMesh
