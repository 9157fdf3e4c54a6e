import EnvoyMesh.Theorems.Endpoints

/-! # Listing order and served content

The lists come in any order and the last resource of a name wins. So the content that is served depends
on the order exactly where names meet: where resources of one kind share a name and differ. -/

namespace EnvoyMesh
open Prog

/-- Two snapshots hold the same resources under the name `n`. A synthesised assignment may list its
    endpoints in another order. -/
structure SameContent (a : API) (key : NamespacedName) (n : String) (snap snap' : Snapshot) : Prop where
  listeners : snap.listeners n = snap'.listeners n
  clusters : snap.clusters n = snap'.clusters n
  routes : snap.routes n = snap'.routes n
  scopedRoutes : snap.scopedRoutes n = snap'.scopedRoutes n
  manual : ¬Synthesises a key n → snap.endpoints n = snap'.endpoints n
  synthesised : Synthesises a key n → ∃ l l', l.Perm l' ∧
    snap.endpoints n = some (assignment n l) ∧ snap'.endpoints n = some (assignment n l')

/-- The specs that decode to a resource named `n` all decode to the same one. -/
def Agree {α : Type} (unmarshal : Raw → Except String α) (name : α → String) (specs : List Raw) (n : String) : Prop :=
  ∀ raw ∈ specs, ∀ raw' ∈ specs, ∀ msg msg', decode? unmarshal raw = some msg → decode? unmarshal raw' = some msg' →
    name msg = n → name msg' = n → msg = msg'

def API.lbEndpoints (a : API) (syn : Synthesis) : List Envoy.LbEndpoint :=
  (a.storedSlices syn).flatMap (sliceEndpoints syn.ref.port)

/-- Resources of one kind that share the name `n` are the same. Manual assignments count where none is
    synthesised; synthesised ones have to give the same endpoints in some order. -/
structure NameUnambiguous (pj : Protojson) (a : API) (key : NamespacedName) (n : String) : Prop where
  listeners : Agree pj.listener (·.name) ((API.targeting key a.listeners.items).map (·.spec)) n
  clusters : Agree pj.cluster (·.name) ((a.clustersOf key).map (·.spec)) n
  routes : Agree pj.routeConfiguration (·.name) ((API.targeting key a.routeConfigurations.items).map (·.spec)) n
  scopedRoutes : Agree pj.scopedRouteConfiguration (·.name)
    ((API.targeting key a.scopedRouteConfigurations.items).map (·.spec)) n
  manual : ¬Synthesises a key n → Agree pj.clusterLoadAssignment (·.clusterName) ((a.assignmentsOf key).map (·.spec)) n
  synthesised : ∀ syn ∈ a.syntheses key (a.clustersOf key), ∀ syn' ∈ a.syntheses key (a.clustersOf key),
    syn.clusterName = n → syn'.clusterName = n → (a.lbEndpoints syn).Perm (a.lbEndpoints syn')

section Content
variable {pj : Protojson} {a : API} {key : NamespacedName} {s s' : Selected} {n : String}

theorem agree_iff {α β : Type} {unmarshal : Raw → Except String α} {name : α → String} {spec : β → Raw} {items : List β} :
    (∀ l l' : List β, l.Perm items → l'.Perm items →
      Index.byName name (l.filterMap fun x => decode? unmarshal (spec x)) n =
        Index.byName name (l'.filterMap fun x => decode? unmarshal (spec x)) n) ↔
      Agree unmarshal name (items.map spec) n := by
  rw [Index.byName_filterMap_const_iff]
  simp only [Agree, List.forall_mem_map]

theorem agree_of_nodup {α : Type} {unmarshal : Raw → Except String α} {name : α → String} {specs : List Raw}
    (h : (specs.map fun raw => (decode? unmarshal raw).map name).Nodup) : Agree unmarshal name specs n := by
  intro raw hraw raw' hraw' msg msg' hmsg hmsg' hname hname'
  obtain rfl : raw = raw' := List.inj_on_of_nodup_map h hraw hraw'
    (by rw [hmsg, hmsg', Option.map_some, hname, ← hname']; rfl)
  exact Option.some.inj (hmsg.symm.trans hmsg')

theorem resourcesOf_clusters (l : List Cluster) : resourcesOf pj.cluster (l.map (·.toXDSResource)) =
    l.filterMap fun c => decode? pj.cluster c.spec := by
  rw [resourcesOf, List.filterMap_map]
  rfl

theorem endpoints_of_synthesises (pj : Protojson) (version : String) (hs : Selects a key s) (h : Synthesises a key n) :
    ∃ x ∈ s.synthesised, x.synthesis.clusterName = n ∧
      (newSnapshot version (s.resources pj)).endpoints n = some x.cla := by
  obtain ⟨x, hx, hn⟩ := (synthesises_iff hs).mp h
  have hsome : (Index.byName (·.clusterName) (s.synthesised.map (·.cla)) n).isSome :=
    Index.byName_isSome.mpr ⟨x.cla, List.mem_map_of_mem hx, hn⟩
  obtain ⟨cla, hcla⟩ := Option.isSome_iff_exists.mp hsome
  obtain ⟨hmem, hname⟩ := Index.name_of_byName hcla
  obtain ⟨y, hy, rfl⟩ := List.mem_map.mp hmem
  exact ⟨y, hy, hname, by rw [endpoints_eq, hcla, Option.some_or]⟩

theorem cla_perm (hs : Selects a key s) {x : Synthesised} (hx : x ∈ s.synthesised) :
    ∃ l, l.Perm (a.lbEndpoints x.synthesis) ∧ x.cla = assignment x.synthesis.clusterName l :=
  ⟨_, (hs.slices x hx).flatMap_right _, rfl⟩

theorem sameContent_of_unambiguous {version version' : String} (h : NameUnambiguous pj a key n) (hs : Selects a key s)
    (hs' : Selects a key s') :
    SameContent a key n (newSnapshot version (s.resources pj)) (newSnapshot version' (s'.resources pj)) where
  listeners := agree_iff.mpr h.listeners _ _ hs.listeners hs'.listeners
  clusters := by
    simp only [newSnapshot, Selected.resources, resourcesOf_clusters]
    exact agree_iff.mpr h.clusters _ _ hs.clusters hs'.clusters
  routes := agree_iff.mpr h.routes _ _ hs.routes hs'.routes
  scopedRoutes := agree_iff.mpr h.scopedRoutes _ _ hs.scopedRoutes hs'.scopedRoutes
  manual hn := by
    rw [endpoints_of_not_synthesises hs hn, endpoints_of_not_synthesises hs' hn]
    exact agree_iff.mpr (h.manual hn) _ _ hs.manual hs'.manual
  synthesised hn := by
    obtain ⟨x, hx, hname, hent⟩ := endpoints_of_synthesises pj version hs hn
    obtain ⟨x', hx', hname', hent'⟩ := endpoints_of_synthesises pj version' hs' hn
    obtain ⟨l, hl, hcla⟩ := cla_perm hs hx
    obtain ⟨l', hl', hcla'⟩ := cla_perm hs' hx'
    have hperm := h.synthesised _ (synthesis_mem hs hx) _ (synthesis_mem hs' hx') hname hname'
    refine ⟨l, l', hl.trans (hperm.trans hl'.symm), ?_, ?_⟩
    · rw [hent, hcla, hname]
    · rw [hent', hcla', hname']

theorem assignment_inj {l l' : List Envoy.LbEndpoint} (h : assignment n l = assignment n l') : l = l' := by
  cases l <;> cases l' <;> simp_all [assignment]

/-- With a cluster listed last, its synthesised assignment is the one that is served. -/
theorem endpoints_of_last {version : String} {c : Cluster} {rest : List Cluster} {syn : Synthesis}
    (hsyn : synthesisOf (a.manualNames key) c = some syn) :
    (newSnapshot version ((a.select key (rest ++ [c]) a.storedSlices).resources pj)).endpoints syn.clusterName =
      some (assignment syn.clusterName (a.lbEndpoints syn)) := by
  rw [endpoints_eq]
  simp only [API.select, API.syntheses, List.filterMap_append, List.filterMap_cons_some hsyn, List.filterMap_nil,
    List.map_append, List.map_cons, List.map_nil]
  exact congrArg (Option.or · _) (Index.byName_concat_self (fun cla : Envoy.ClusterLoadAssignment => cla.clusterName) _
    (assignment syn.clusterName (a.lbEndpoints syn)))

theorem unambiguous_of_sameContent (h : ∀ s s', Selects a key s → Selects a key s' →
    SameContent a key n (newSnapshot s.version (s.resources pj)) (newSnapshot s'.version (s'.resources pj))) :
    NameUnambiguous pj a key n := by
  have hstored : Selects a key (a.stored key) := selects_stored
  have hclusters (l : List Cluster) (hl : l.Perm (a.clustersOf key)) : Selects a key (a.select key l a.storedSlices) :=
    selects_select _ hl fun _ => List.Perm.refl _
  refine ⟨?_, ?_, ?_, ?_, fun hn => ?_, fun syn hsyn syn' hsyn' hname hname' => ?_⟩
  · refine agree_iff.mp fun l l' hl hl' => ?_
    exact (h { a.stored key with listeners := l } { a.stored key with listeners := l' }
      { hstored with listeners := hl } { hstored with listeners := hl' }).listeners
  · refine agree_iff.mp fun l l' hl hl' => ?_
    rw [← resourcesOf_clusters, ← resourcesOf_clusters]
    exact (h _ _ (hclusters l hl) (hclusters l' hl')).clusters
  · refine agree_iff.mp fun l l' hl hl' => ?_
    exact (h { a.stored key with routes := l } { a.stored key with routes := l' }
      { hstored with routes := hl } { hstored with routes := hl' }).routes
  · refine agree_iff.mp fun l l' hl hl' => ?_
    exact (h { a.stored key with scopedRoutes := l } { a.stored key with scopedRoutes := l' }
      { hstored with scopedRoutes := hl } { hstored with scopedRoutes := hl' }).scopedRoutes
  · refine agree_iff.mp fun l l' hl hl' => ?_
    have heq := (h _ _ (selects_manual hl) (selects_manual hl')).manual hn
    rwa [endpoints_of_not_synthesises (selects_manual hl) hn, endpoints_of_not_synthesises (selects_manual hl') hn] at heq
  · -- list the cluster of the one last, then that of the other
    classical
    obtain ⟨c, hc, hcsyn⟩ := List.mem_filterMap.mp hsyn
    obtain ⟨c', hc', hcsyn'⟩ := List.mem_filterMap.mp hsyn'
    have hlast (d : Cluster) (hd : d ∈ a.clustersOf key) : ((a.clustersOf key).erase d ++ [d]).Perm (a.clustersOf key) :=
      (List.perm_append_singleton d _).trans (List.perm_cons_erase hd).symm
    subst hname
    obtain ⟨l, l', hperm, hent, hent'⟩ := (h _ _ (hclusters _ (hlast c hc)) (hclusters _ (hlast c' hc'))).synthesised
      ⟨c, hc, syn, hcsyn, rfl⟩
    rw [endpoints_of_last hcsyn] at hent
    rw [← hname', endpoints_of_last hcsyn'] at hent'
    rwa [assignment_inj (Option.some.inj hent), assignment_inj (Option.some.inj hent')]

end Content

/-! ### Reconciles -/

/-- Any two Reconciles of `key` from this world in which no call fails both succeed or both fail. -/
def SameOutcome (pj : Protojson) (w : World) (key : NamespacedName) : Prop :=
  ∀ w₁ w₂ r₁ r₂, (reconcile pj key).Exec World.AnswersWell w w₁ r₁ → (reconcile pj key).Exec World.AnswersWell w w₂ r₂ →
    (r₁ = .ok () ↔ r₂ = .ok ())

def OrderIndependent (pj : Protojson) (w : World) (key : NamespacedName) (n : String) : Prop :=
  ∀ w₁ w₂, (reconcile pj key).Exec World.AnswersWell w w₁ (.ok ()) →
    (reconcile pj key).Exec World.AnswersWell w w₂ (.ok ()) →
    ∃ snap₁ snap₂, w₁.cache key.nodeID = some snap₁ ∧ w₂.cache key.nodeID = some snap₂ ∧
      SameContent w.api key n snap₁ snap₂

/-- Whether a Reconcile succeeds does not depend on the listing order. The content that is served under a
    name does not, exactly if the resources of one kind that share the name are the same, unless no order
    gives a snapshot. -/
theorem order_independent_iff {pj : Protojson} (hpj : pj.Lawful) {w : World} (p : EnvoyProxy)
    (hp : w.api.envoyProxies.get? p.key = some p) :
    SameOutcome pj w p.key ∧
    ∀ n, OrderIndependent pj w p.key n ↔ (Decodable pj w.api p.key → NameUnambiguous pj w.api p.key n) := by
  refine ⟨fun w₁ w₂ r₁ r₂ hexec hexec' => ?_, fun n => ⟨fun h hdec => ?_, fun h w₁ w₂ hexec hexec' => ?_⟩⟩
  · exact (exec_reconcile_well hpj hp hexec).1.trans (exec_reconcile_well hpj hp hexec').1.symm
  · refine unambiguous_of_sameContent fun s s' hs hs' => ?_
    obtain ⟨w₁, hexec, hcache⟩ := exists_exec hpj hp hdec hs
    obtain ⟨w₂, hexec', hcache'⟩ := exists_exec hpj hp hdec hs'
    obtain ⟨snap, snap', hsnap, hsnap', hsame⟩ := h w₁ w₂ hexec hexec'
    obtain rfl := Option.some.inj (hcache.symm.trans hsnap)
    obtain rfl := Option.some.inj (hcache'.symm.trans hsnap')
    exact hsame
  · obtain ⟨hiff, hstore⟩ := exec_reconcile_well hpj hp hexec
    obtain ⟨s, hs, hsnap⟩ := hstore rfl
    obtain ⟨s', hs', hsnap'⟩ := (exec_reconcile_well hpj hp hexec').2 rfl
    exact ⟨_, _, hsnap, hsnap', sameContent_of_unambiguous (h (hiff.mp rfl)) hs hs'⟩

namespace Sample

def sameName : XDSResource := resource "https" "4" "\x7b\"name\": \"http\", \"stat_prefix\": \"https\"\x7d"

def ambiguous : World := world [.listener (listener "http" "3"), .listener sameName]

end Sample

/-- It can depend on the order: of two listeners with the same name, the one that is listed last is served. -/
theorem order_dependent : ¬∀ (pj : Protojson) (w : World) (p : EnvoyProxy), pj.Lawful →
    w.api.envoyProxies.get? p.key = some p → SameOutcome pj w p.key ∧ ∀ n, OrderIndependent pj w p.key n := by
  intro h
  have hpj := Protojson.reference_lawful
  have hp : Sample.ambiguous.api.envoyProxies.get? Sample.proxy.key = some Sample.proxy := rfl
  have hdec : Decodable .reference Sample.ambiguous.api Sample.proxy.key := by constructor <;> decide +kernel
  have hstored : Selects Sample.ambiguous.api Sample.proxy.key (Sample.ambiguous.api.stored _) :=
    selects_stored
  have hswapped : Selects Sample.ambiguous.api Sample.proxy.key
      { Sample.ambiguous.api.stored Sample.proxy.key with listeners := [Sample.sameName, Sample.listener "http" "3"] } :=
    { hstored with listeners := List.Perm.swap .. }
  obtain ⟨w₁, hexec₁, hcache₁⟩ := exists_exec hpj hp hdec hstored
  obtain ⟨w₂, hexec₂, hcache₂⟩ := exists_exec hpj hp hdec hswapped
  obtain ⟨snap₁, snap₂, hsnap₁, hsnap₂, hsame⟩ := (h _ _ Sample.proxy hpj hp).2 "http" w₁ w₂ hexec₁ hexec₂
  obtain rfl := Option.some.inj (hcache₁.symm.trans hsnap₁)
  obtain rfl := Option.some.inj (hcache₂.symm.trans hsnap₂)
  have hentry := hsame.listeners
  revert hentry
  decide +kernel

/-- Two listeners and two clusters, each with a name of its own. -/
def Sample.distinct : World := world [.listener http, .listener https, .cluster (cluster "web" "3" web),
  .cluster (cluster "api" "4" "\x7b\"name\": \"api\", \"type\": \"EDS\"\x7d")]

theorem order_independent_distinct : SameOutcome .reference Sample.distinct Sample.proxy.key ∧
    ∀ n, OrderIndependent .reference Sample.distinct Sample.proxy.key n := by
  obtain ⟨houtcome, hcontent⟩ := order_independent_iff (w := Sample.distinct) Protojson.reference_lawful Sample.proxy rfl
  refine ⟨houtcome, fun n => (hcontent n).mpr fun _ => ?_⟩
  have hsyn : ((Sample.distinct.api.syntheses Sample.proxy.key (Sample.distinct.api.clustersOf Sample.proxy.key)).map
      (·.clusterName)).Nodup := by decide +kernel
  refine ⟨agree_of_nodup (by decide +kernel), agree_of_nodup (by decide +kernel), agree_of_nodup (by decide +kernel),
    agree_of_nodup (by decide +kernel), fun _ => agree_of_nodup (by decide +kernel), fun syn hmem syn' hmem' hn hn' => ?_⟩
  rw [List.inj_on_of_nodup_map hsyn hmem hmem' (hn.trans hn'.symm)]

end EnvoyMesh
