import EnvoyMesh.Theorems.Succeeding
import EnvoyMesh.Theorems.Stable

/-! # What a failed build says

A Reconcile that reads everything and still fails has met a spec that does not decode. The error and the Ready
condition point to it: the resource type, its index among the objects that were collected, and what `protojson`
says about it. -/

namespace EnvoyMesh
open Prog

/-- The resource types, in the order in which `BuildSnapshot` decodes them. -/
inductive ResourceType where
  | listeners | clusters | routes | scopedRoutes | endpoints

namespace ResourceType

/-- What an error about a resource of this type starts with. -/
def context : ResourceType → String
  | listeners => "listeners"
  | clusters => "clusters"
  | routes => "routes"
  | scopedRoutes => "scoped routes"
  | endpoints => "endpoints"

/-- The types that are decoded before. -/
def earlier : ResourceType → List ResourceType
  | listeners => []
  | clusters => [listeners]
  | routes => [listeners, clusters]
  | scopedRoutes => [listeners, clusters, routes]
  | endpoints => [listeners, clusters, routes, scopedRoutes]

/-- What `BuildSnapshot` says about the object at index `i` of those of this type. -/
def complaint (t : ResourceType) (i : Nat) (err : String) : String := t.context ++ ": " ++ s!"item {i}: {err}"

end ResourceType

/-- The error of decoding the spec. -/
def malformed? {α : Type} (unmarshal : Raw → Except String α) (raw : Raw) : Option String :=
  if raw = "" then none
  else
    match unmarshal raw with
    | .error e => some e
    | .ok _ => none

def Protojson.malformed? (pj : Protojson) : ResourceType → Raw → Option String
  | .listeners => EnvoyMesh.malformed? pj.listener
  | .clusters => EnvoyMesh.malformed? pj.cluster
  | .routes => EnvoyMesh.malformed? pj.routeConfiguration
  | .scopedRoutes => EnvoyMesh.malformed? pj.scopedRouteConfiguration
  | .endpoints => EnvoyMesh.malformed? pj.clusterLoadAssignment

/-- The objects of a type that were collected, in listing order. -/
def Selected.items (s : Selected) : ResourceType → List XDSResource
  | .listeners => s.listeners
  | .clusters => s.clusters.map (·.toXDSResource)
  | .routes => s.routes
  | .scopedRoutes => s.scopedRoutes
  | .endpoints => s.manual

/-- The object `x` of type `t` is the first one in the order of decoding that does not decode, for the reason `err`;
    its index among the objects of its type is `i`. -/
structure Culprit (pj : Protojson) (s : Selected) (t : ResourceType) (i : Nat) (x : XDSResource) (err : String) : Prop where
  item : (s.items t)[i]? = some x
  error : pj.malformed? t x.spec = some err
  before : ∀ y ∈ (s.items t).take i, pj.malformed? t y.spec = none
  earlier : ∀ t' ∈ t.earlier, ∀ y ∈ s.items t', pj.malformed? t' y.spec = none

/-! ### The first failure -/

section Decoding
variable {α : Type} {unmarshal : Raw → Except String α}

theorem malformed?_eq_none {raw : Raw} : malformed? unmarshal raw = none ↔ Decodes unmarshal raw := by
  unfold malformed? Decodes
  by_cases hraw : raw = ""
  · simp [hraw]
  · rw [if_neg hraw]
    cases unmarshal raw <;> simp [hraw]

/-- Decoding fails at the first spec that does not decode. -/
theorem go_eq_error {raws : List Raw} {i : Nat} {e : String} (h : unmarshalAll.go unmarshal i raws = .error e) :
    ∃ front raw back err, raws = front ++ raw :: back ∧ (∀ r ∈ front, malformed? unmarshal r = none) ∧
      malformed? unmarshal raw = some err ∧ e = s!"item {i + front.length}: {err}" := by
  induction raws generalizing i with
  | nil => cases h
  | cons raw raws ih =>
    rw [unmarshalAll.go] at h
    -- a spec that yields no error shifts the index of the others by one
    have hlater (hraw : malformed? unmarshal raw = none) (h : unmarshalAll.go unmarshal (i + 1) raws = .error e) :
        ∃ front raw' back err, raw :: raws = front ++ raw' :: back ∧ (∀ r ∈ front, malformed? unmarshal r = none) ∧
          malformed? unmarshal raw' = some err ∧ e = s!"item {i + front.length}: {err}" := by
      obtain ⟨front, raw', back, err, rfl, hfront, herr, rfl⟩ := ih h
      refine ⟨raw :: front, raw', back, err, rfl, List.forall_mem_cons.mpr ⟨hraw, hfront⟩, herr, ?_⟩
      rw [List.length_cons, Nat.add_right_comm, Nat.add_assoc]
    by_cases hraw : raw = ""
    · rw [if_pos hraw] at h
      exact hlater (if_pos hraw) h
    rw [if_neg hraw] at h
    cases hmsg : unmarshal raw with
    | error err =>
      rw [hmsg] at h
      cases h
      exact ⟨[], raw, raws, err, rfl, List.forall_mem_nil _, by rw [malformed?, if_neg hraw, hmsg], rfl⟩
    | ok msg =>
      rw [hmsg] at h
      refine hlater (malformed?_eq_none.mpr (Or.inr ⟨msg, hmsg⟩)) ?_
      cases hgo : unmarshalAll.go unmarshal (i + 1) raws with
      | error err =>
        rw [hgo] at h
        exact h
      | ok rest =>
        rw [hgo] at h
        cases h

/-- In a list of objects: the first of them whose spec does not decode, or a spec that was added to theirs. -/
theorem unmarshalAll_eq_error {items : List XDSResource} {raws : List Raw} {e : String}
    (hraws : ∀ raw ∈ raws, Decodes unmarshal raw) (h : unmarshalAll unmarshal (items.map (·.spec) ++ raws) = .error e) :
    ∃ i x err, items[i]? = some x ∧ malformed? unmarshal x.spec = some err ∧
      (∀ y ∈ items.take i, malformed? unmarshal y.spec = none) ∧ e = s!"item {i}: {err}" := by
  obtain ⟨front, raw, back, err, hsplit, hfront, herr, rfl⟩ := go_eq_error h
  rcases List.append_eq_append_iff.mp hsplit with ⟨rest, -, hback⟩ | ⟨rest, hitems, hback⟩
  · -- the specs that were added all decode
    have hmem : raw ∈ raws := hback ▸ List.mem_append_right _ List.mem_cons_self
    rw [malformed?_eq_none.mpr (hraws raw hmem)] at herr
    cases herr
  · cases rest with
    | nil =>
      have hmem : raw ∈ raws := List.mem_of_mem_head? (by rw [← List.nil_append raws, ← hback]; rfl)
      rw [malformed?_eq_none.mpr (hraws raw hmem)] at herr
      cases herr
    | cons raw' rest =>
      obtain ⟨rfl, -⟩ := List.cons.inj hback
      obtain ⟨front', back', rfl, rfl, hrest⟩ := List.map_eq_append_iff.mp hitems
      obtain ⟨x, back'', rfl, rfl, -⟩ := List.map_eq_cons_iff.mp hrest
      refine ⟨front'.length, x, err, by simp, herr, fun y hy => hfront _ ?_, by simp⟩
      rw [List.take_left] at hy
      exact List.mem_map_of_mem hy

end Decoding

/-! ### The first failure of a build -/

theorem wrap_eq_error {α : Type} {context e : String} {x : Except String α} (h : wrap context x = .error e) :
    ∃ e', x = .error e' ∧ e = context ++ ": " ++ e' := by
  cases x with
  | error e' => exact ⟨e', rfl, (Except.error.inj h).symm⟩
  | ok a => cases h

theorem bind_eq_error {α β : Type} {x : Except String α} {f : α → Except String β} {e : String} (h : x >>= f = .error e) :
    x = .error e ∨ ∃ a, x = .ok a ∧ f a = .error e := by
  cases x with
  | error e' => exact Or.inl (congrArg Except.error (Except.error.inj h))
  | ok a => exact Or.inr ⟨a, rfl, h⟩

section Build
variable {pj : Protojson} {s : Selected} {t : ResourceType} {raws : List Raw} {e : String}

theorem culprit_of_error {α : Type} {unmarshal : Raw → Except String α} (ht : pj.malformed? t = malformed? unmarshal)
    (hearlier : ∀ t' ∈ t.earlier, ∀ y ∈ s.items t', pj.malformed? t' y.spec = none)
    (hraws : ∀ raw ∈ raws, Decodes unmarshal raw)
    (h : wrap t.context (unmarshalAll unmarshal ((s.items t).map (·.spec) ++ raws)) = .error e) :
    ∃ t i x err, Culprit pj s t i x err ∧ e = t.complaint i err := by
  obtain ⟨_, hall, rfl⟩ := wrap_eq_error h
  obtain ⟨i, x, err, hx, herr, hbefore, rfl⟩ := unmarshalAll_eq_error hraws hall
  exact ⟨t, i, x, err, ⟨hx, ht ▸ herr, ht ▸ hbefore, hearlier⟩, rfl⟩

theorem decoded_of_ok {α : Type} {unmarshal : Raw → Except String α} {out : List α}
    (ht : pj.malformed? t = malformed? unmarshal)
    (h : wrap t.context (unmarshalAll unmarshal ((s.items t).map (·.spec) ++ [])) = .ok out) :
    ∀ y ∈ s.items t, pj.malformed? t y.spec = none := by
  rw [List.append_nil, wrap_eq_ok, unmarshalAll_eq_ok] at h
  intro y hy
  rw [ht]
  exact malformed?_eq_none.mpr (h.1 _ (List.mem_map_of_mem hy))

/-- The types are decoded one after the other; the assignments that were synthesised decode. -/
theorem build_eq_error (hpj : pj.Lawful) (hm : Marshals pj s.synthesised raws)
    (h : (s.collected raws).build pj = .error e) :
    ∃ t i x err, Culprit pj s t i x err ∧ e = t.complaint i err := by
  have hall : decodeAll pj (s.listeners.map (·.spec)) (s.clusters.map (·.spec)) (s.routes.map (·.spec))
      (s.scopedRoutes.map (·.spec)) (s.manual.map (·.spec) ++ raws) = .error e := by
    unfold Collected.build buildSnapshot at h
    change (decodeAll pj (s.listeners.map (·.spec)) (s.clusters.map (·.spec)) (s.routes.map (·.spec))
      (s.scopedRoutes.map (·.spec)) (s.manual.map (·.spec) ++ raws)).map _ = _ at h
    revert h
    cases decodeAll pj (s.listeners.map (·.spec)) (s.clusters.map (·.spec)) (s.routes.map (·.spec))
      (s.scopedRoutes.map (·.spec)) (s.manual.map (·.spec) ++ raws) with
    | error e' => exact fun h => congrArg Except.error (Except.error.inj h)
    | ok r => nofun
  have hclusters : s.clusters.map (·.spec) = (s.items .clusters).map (·.spec) ++ [] := by
    simp [Selected.items, Function.comp_def]
  rw [hclusters, ← List.append_nil (s.listeners.map _), ← List.append_nil (s.routes.map _),
    ← List.append_nil (s.scopedRoutes.map _)] at hall
  rcases bind_eq_error hall with hl | ⟨_, hl, hall⟩
  · exact culprit_of_error (t := .listeners) rfl nofun (List.forall_mem_nil _) hl
  have hl : ∀ y ∈ s.items .listeners, pj.malformed? .listeners y.spec = none := decoded_of_ok rfl hl
  rcases bind_eq_error hall with hc | ⟨_, hc, hall⟩
  · exact culprit_of_error (t := .clusters) rfl (by simpa [ResourceType.earlier] using hl) (List.forall_mem_nil _) hc
  have hc : ∀ y ∈ s.items .clusters, pj.malformed? .clusters y.spec = none := decoded_of_ok rfl hc
  rcases bind_eq_error hall with hr | ⟨_, hr, hall⟩
  · exact culprit_of_error (t := .routes) rfl (by simpa [ResourceType.earlier] using ⟨hl, hc⟩) (List.forall_mem_nil _) hr
  have hr : ∀ y ∈ s.items .routes, pj.malformed? .routes y.spec = none := decoded_of_ok rfl hr
  rcases bind_eq_error hall with hs | ⟨_, hs, hall⟩
  · exact culprit_of_error (t := .scopedRoutes) rfl (by simpa [ResourceType.earlier] using ⟨hl, hc, hr⟩)
      (List.forall_mem_nil _) hs
  have hs : ∀ y ∈ s.items .scopedRoutes, pj.malformed? .scopedRoutes y.spec = none := decoded_of_ok rfl hs
  rcases bind_eq_error hall with he | ⟨_, -, hall⟩
  · exact culprit_of_error (t := .endpoints) rfl (by simpa [ResourceType.earlier] using ⟨hl, hc, hr, hs⟩)
      (hm.decodes hpj) he
  cases hall

end Build

/-- A write of the status stores the status of the proxy at hand, or fails and changes nothing. -/
theorem exec_setCondition_stored {ep ep' : EnvoyProxy} {condType : String} {status : ConditionStatus} {reason msg : String}
    {w w' : World} (h : (setCondition ep condType status reason msg).Exec World.Answers w w' ep') :
    w' = w ∨ ∃ stored, w'.api.envoyProxies.get? ep.key = some stored ∧
      stored.status = (ep.withCondition condType status reason msg).status := by
  obtain ⟨r, w₁, hw, h⟩ := h
  rcases hw with ⟨e, rfl, rfl⟩ | ⟨old, hold, -, ⟨hst, rfl, rfl⟩ | ⟨hst, rv, rfl, rfl⟩⟩
  · exact Or.inl h.1
  · exact Or.inl h.1
  · obtain ⟨rfl, -⟩ := h
    have hkey : (old.withStatus (ep.withCondition condType status reason msg).status rv).key = ep.key :=
      (Store.get?_eq_some.mp hold).2
    exact Or.inr ⟨_, (Store.get?_put ..).trans (if_pos hkey), rfl⟩

/-- A Reconcile of an existing proxy that reads everything, where some spec it collects does not decode, returns an error
    that points to the first such spec; the cache stays as it is, and the status that it writes says the same. -/
theorem malformed_spec_reported {pj : Protojson} (hpj : pj.Lawful) {key : NamespacedName} {w w' : World} {ep : EnvoyProxy}
    (hep : w.api.envoyProxies.get? key = some ep) (hbad : ¬Decodable pj w.api key) {r : Except String Unit}
    (h : (reconcile pj key).Exec World.AnswersWell w w' r) :
    ∃ s t i x err, Selects w.api key s ∧ Culprit pj s t i x err ∧
      r = .error ("build snapshot: " ++ t.complaint i err) ∧ w'.cache = w.cache ∧ SameLists w.api w'.api ∧
      (w' = w ∨ ∃ stored, w'.api.envoyProxies.get? key = some stored ∧
        stored.status = (ep.withCondition conditionReady .false "SnapshotBuildFailed" (t.complaint i err)).status) := by
  obtain ⟨p, u, hp, hf⟩ := exec_bind.mp h
  obtain ⟨rfl, hres⟩ := exec_prepare_well hp
  have hreads : (prepare pj key).run.Result u.api.Reads p := hres.mono fun _ _ hr => hr.1
  obtain ⟨x, rfl⟩ := total_prepare hpj p hres
  match x with
  | none =>
    rw [result_prepare_none hreads] at hep
    cases hep
  | some (ep', version, built) =>
    obtain ⟨hep', rfl, c, hc, rfl, rfl⟩ := result_prepare_found hreads
    obtain rfl : ep' = ep := Option.some.inj (hep'.symm.trans hep)
    obtain ⟨s, raws, hs, hm, rfl⟩ := (collect_iff u.api.listing).mp hc
    cases hbuild : (s.collected raws).build pj with
    | ok snap => exact absurd ((build_iff hpj hs hm).mp hbuild).1 hbad
    | error e =>
      obtain ⟨t, i, x, err, hculprit, rfl⟩ := build_eq_error hpj hm hbuild
      rw [hbuild, finish, publish_error, exec_bind] at hf
      obtain ⟨ep₁, w₁, hset, rfl, rfl⟩ := hf
      have hset : (setCondition ep' conditionReady .false "SnapshotBuildFailed" (t.complaint i err)).Exec
          World.Answers u w' ep₁ := hset.mono fun _ _ _ _ hw => hw.1
      exact ⟨s, t, i, x, err, hs, hculprit, rfl, exec_setCondition_cache (hset.mono fun s c r s' hs => ⟨s, rfl, hs⟩),
        (exec_setCondition hset).1, exec_setCondition_stored hset⟩

/-- The second listener and the cluster cannot be decoded. -/
def Sample.malformed : World :=
  world [.listener (listener "http" "3"), .listener (resource "broken" "4" "["), .cluster (cluster "web" "5" "[")]

theorem broken_listener_reported : ∃ s t i x err, Selects Sample.malformed.api Sample.proxy.key s ∧
    Culprit .reference s t i x err ∧
    (Sample.malformed.reconciled .reference Sample.proxy.key).1 = .error ("build snapshot: " ++ t.complaint i err) ∧
    "build snapshot: " ++ t.complaint i err = "build snapshot: listeners: item 1: syntax error" := by
  have hbad : ¬Decodable .reference Sample.malformed.api Sample.proxy.key := by
    intro hdec
    have hlisteners := hdec.listeners
    revert hlisteners
    decide +kernel
  have hep : Sample.malformed.api.envoyProxies.get? Sample.proxy.key = some Sample.proxy := rfl
  obtain ⟨s, t, i, x, err, hs, hculprit, hr, -⟩ :=
    malformed_spec_reported Protojson.reference_lawful hep hbad (exec_reconciled ..)
  refine ⟨s, t, i, x, err, hs, hculprit, hr, ?_⟩
  have htext : (Sample.malformed.reconciled .reference Sample.proxy.key).1 =
      .error "build snapshot: listeners: item 1: syntax error" := by decide +kernel
  exact Except.error.inj (hr.symm.trans htext)

end EnvoyMesh
