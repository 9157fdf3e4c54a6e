import EnvoyMesh.Theorems.Version

/-! # Stable versions

The status of a proxy shows the version of its snapshot. If the version depends on the order of the
lists, the next Reconcile can change it with nothing else changed, and the status write that follows
starts another one. -/

namespace EnvoyMesh
open Prog

/-! ### Conditions -/

theorem find?_setStatusCondition (conditions : List Condition) (new : Condition) (t : String) :
    (setStatusCondition conditions new).find? (·.type = t) =
      if new.type = t then some new else conditions.find? (·.type = t) := by
  induction conditions with
  | nil =>
    rw [setStatusCondition]
    by_cases ht : new.type = t <;> simp [ht]
  | cons c conditions ih =>
    rw [setStatusCondition]
    split
    · next hc =>
      rw [List.find?_cons, List.find?_cons, hc]
      by_cases ht : new.type = t <;> simp [ht]
    · next hc =>
      rw [List.find?_cons, List.find?_cons, ih]
      by_cases ht : c.type = t
      · have hne : new.type ≠ t := fun h => hc (ht.trans h.symm)
        simp [hne, ht]
      · simp [ht]

def EnvoyProxy.condition? (condType : String) (p : EnvoyProxy) : Option Condition :=
  p.status.conditions.find? (·.type = condType)

theorem condition?_withCondition {ep : EnvoyProxy} {condType t : String} {status : ConditionStatus} {reason msg : String} :
    (ep.withCondition condType status reason msg).condition? t =
      if condType = t then some ⟨condType, status, reason, msg, ep.generation⟩ else ep.condition? t :=
  find?_setStatusCondition ..

theorem condition?_of_status {p q : EnvoyProxy} (h : p.status = q.status) (t : String) :
    p.condition? t = q.condition? t := by
  rw [EnvoyProxy.condition?, h, EnvoyProxy.condition?]

def EnvoyProxy.readyMessage (ep : EnvoyProxy) : Option String :=
  (ep.status.conditions.find? (·.type = conditionReady)).map (·.message)

def World.readyMessage (w : World) (key : NamespacedName) : Option String :=
  (w.api.envoyProxies.get? key).bind (·.readyMessage)

theorem readyMessage_withCondition {ep : EnvoyProxy} {condType : String} {status : ConditionStatus} {reason msg : String} :
    (ep.withCondition condType status reason msg).readyMessage =
      if condType = conditionReady then some msg else ep.readyMessage := by
  simp only [EnvoyProxy.readyMessage, EnvoyProxy.withCondition, find?_setStatusCondition]
  split <;> rfl

def SameLists (a b : API) : Prop := ∃ ps, b = { a with envoyProxies := ps }

theorem SameLists.refl (a : API) : SameLists a a := ⟨_, rfl⟩

theorem SameLists.symm {a b : API} (h : SameLists a b) : SameLists b a := by
  obtain ⟨ps, rfl⟩ := h
  exact ⟨a.envoyProxies, rfl⟩

theorem SameLists.trans {a b c : API} (h : SameLists a b) (h' : SameLists b c) : SameLists a c := by
  obtain ⟨ps, rfl⟩ := h
  obtain ⟨ps', rfl⟩ := h'
  exact ⟨ps', rfl⟩

theorem SameLists.selects {a b : API} {key : NamespacedName} {s : Selected} (h : SameLists a b) (hs : Selects b key s) :
    Selects a key s := by
  obtain ⟨ps, rfl⟩ := h
  exact ⟨hs.listeners, hs.clusters, hs.routes, hs.scopedRoutes, hs.manual, hs.syntheses, hs.slices⟩

section Exec
variable {w w' : World} {ep ep' : EnvoyProxy}

/-- What a write of the status can do: nothing, or store the status of the proxy at hand. Either way the
    proxy that comes back shows the status that was to be written. -/
theorem exec_setCondition {condType : String} {status : ConditionStatus} {reason msg : String}
    (h : (setCondition ep condType status reason msg).Exec World.Answers w w' ep') :
    SameLists w.api w'.api ∧ ep'.key = ep.key ∧
      ep'.readyMessage = (ep.withCondition condType status reason msg).readyMessage ∧
      (w'.readyMessage ep.key = w.readyMessage ep.key ∨ w'.readyMessage ep.key = ep'.readyMessage) := by
  obtain ⟨r, w₁, hw, h⟩ := h
  rcases hw with ⟨e, rfl, rfl⟩ | ⟨old, hold, -, ⟨hst, rfl, rfl⟩ | ⟨hst, rv, rfl, rfl⟩⟩
  · obtain ⟨rfl, rfl⟩ := h
    exact ⟨SameLists.refl _, rfl, rfl, Or.inl rfl⟩
  · obtain ⟨rfl, rfl⟩ := h
    refine ⟨SameLists.refl _, (Store.get?_eq_some.mp hold).2, ?_, Or.inl rfl⟩
    rw [EnvoyProxy.readyMessage, hst]
    rfl
  · obtain ⟨rfl, rfl⟩ := h
    have hkey : (old.withStatus (ep.withCondition condType status reason msg).status rv).key = ep.key :=
      (Store.get?_eq_some.mp hold).2
    refine ⟨⟨_, rfl⟩, hkey, rfl, Or.inr ?_⟩
    simp only [World.readyMessage, API.put, Store.get?_put, hkey, ite_true]
    rfl

theorem exec_report_ok {version : String} (hep : w.readyMessage ep.key = ep.readyMessage)
    (h : (report ep version (.ok ())).Exec World.Answers w w' (.ok ())) :
    SameLists w.api w'.api ∧
      (w'.readyMessage ep.key = w.readyMessage ep.key ∨ w'.readyMessage ep.key = some ("version=" ++ version)) := by
  rw [report_ok] at h
  simp only [exec_call, exec_bind] at h
  obtain ⟨connected, w₀, ⟨-, rfl⟩, ep₁, w₁, h₁, ep₂, w₂, h₂, rfl, -⟩ := h
  obtain ⟨hsame₁, hkey₁, hmsg₁, hready₁⟩ := exec_setCondition h₁
  obtain ⟨hsame₂, -, hmsg₂, hready₂⟩ := exec_setCondition h₂
  rw [readyMessage_withCondition] at hmsg₁ hmsg₂
  rw [if_neg (by decide)] at hmsg₁
  rw [if_pos rfl] at hmsg₂
  rw [hkey₁] at hready₂
  -- the first write does not touch the Ready condition
  have hready : w₁.readyMessage ep.key = w₀.readyMessage ep.key := by
    rcases hready₁ with hr | hr
    · exact hr
    · rw [hr, hmsg₁, hep]
  refine ⟨hsame₁.trans hsame₂, ?_⟩
  rcases hready₂ with hr | hr
  · exact Or.inl (hr.trans hready)
  · exact Or.inr (hr.trans hmsg₂)

end Exec

theorem version_of_build {pj : Protojson} {c : Collected} {snap : Snapshot} (h : c.build pj = .ok snap) :
    snap.version = c.version := by
  obtain ⟨r, -, rfl⟩ := Collected.build_eq_ok.mp h
  rfl

/-- What a successful Reconcile of an existing proxy leaves: the version it computed in the cache, and a
    Ready message that shows it or is the one from before. -/
theorem exec_reconcile_version {pj : Protojson} {key : NamespacedName} {w w' : World} {ep : EnvoyProxy}
    (hep : w.api.envoyProxies.get? key = some ep) (h : (reconcile pj key).Exec World.Answers w w' (.ok ())) :
    ∃ c, (collect pj key.ns key.name).run.Result w.api.Reads (.ok c) ∧
      (w'.cache key.nodeID).map (·.version) = some c.version ∧ SameLists w.api w'.api ∧
      (w'.readyMessage key = w.readyMessage key ∨ w'.readyMessage key = some ("version=" ++ c.version)) := by
  obtain ⟨p, u, hp, hf⟩ := exec_bind.mp h
  obtain ⟨rfl, hres⟩ := exec_prepare hp
  rcases exec_ok_finish hf with rfl | ⟨ep', version, snap, rfl⟩
  · rw [result_prepare_none hres] at hep
    cases hep
  · obtain ⟨hget, rfl, c, hc, rfl, hbuild⟩ := result_prepare_found hres
    refine ⟨c, hc, ?_⟩
    rw [finish, publish_ok, exec_call] at hf
    obtain ⟨set, w₁, rfl, hf⟩ := hf
    have hcache := exec_report_cache (hf.mono fun s c r s' hs => ⟨s, rfl, hs⟩)
    cases set with
    | error e =>
      rw [report_error, exec_bind] at hf
      obtain ⟨_, _, -, -, hret⟩ := hf
      cases hret
    | ok _ =>
      obtain ⟨hsame, hready⟩ := exec_report_ok (by simp only [World.readyMessage, hget, Option.bind_some]) hf
      refine ⟨?_, hsame, hready⟩
      simp only [hcache, Function.update_self, Option.map_some, version_of_build hbuild.symm]

theorem exec_reconcile_none {pj : Protojson} {key : NamespacedName} {w w' : World}
    (hep : w.api.envoyProxies.get? key = none) (h : (reconcile pj key).Exec World.Answers w w' (.ok ())) : w' = w := by
  obtain ⟨p, u, hp, hf⟩ := exec_bind.mp h
  obtain ⟨rfl, hres⟩ := exec_prepare hp
  rcases exec_ok_finish hf with rfl | ⟨ep', version, snap, rfl⟩
  · exact hf.1
  · rw [(result_prepare_found hres).1] at hep
    cases hep

/-! ### Stability -/

/-- The version does not depend on the order of the lists, and a second Reconcile with nothing changed
    leaves the cached version, and a Ready message that shows it, as they are. -/
structure VersionStable (pj : Protojson) (w : World) (key : NamespacedName) : Prop where
  orders : ∀ c c', (collect pj key.ns key.name).run.Result w.api.Reads (.ok c) →
    (collect pj key.ns key.name).run.Result w.api.Reads (.ok c') → c.version = c'.version
  again : ∀ w₁ w₂, (reconcile pj key).Exec World.Answers w w₁ (.ok ()) →
    (reconcile pj key).Exec World.Answers w₁ w₂ (.ok ()) →
    (w₂.cache key.nodeID).map (·.version) = (w₁.cache key.nodeID).map (·.version) ∧
    (w₁.readyMessage key = (w₁.cache key.nodeID).map ("version=" ++ ·.version) →
      w₂.readyMessage key = w₁.readyMessage key)

/-- No two texts that a Reconcile of `key` can feed to the hash have the same truncated hash. -/
def HashDistinguishes (pj : Protojson) (a : API) (key : NamespacedName) : Prop :=
  ∀ c c', (collect pj key.ns key.name).run.Result a.Reads (.ok c) →
    (collect pj key.ns key.name).run.Result a.Reads (.ok c') → c.version = c'.version → fed c.versions = fed c'.versions

section Stable
variable {pj : Protojson} {w : World} {key : NamespacedName}

theorem version_eq_of_commute {a b : API} (h : VersionsCommute a key) (hab : SameLists a b) {c c' : Collected}
    (hc : (collect pj key.ns key.name).run.Result a.Reads (.ok c))
    (hc' : (collect pj key.ns key.name).run.Result b.Reads (.ok c')) : c.version = c'.version := by
  obtain ⟨s, raws, hs, -, rfl⟩ := (collect_iff a.listing).mp hc
  obtain ⟨s', raws', hs', -, rfl⟩ := (collect_iff b.listing).mp hc'
  have hfed := fed_eq_of_commute h hs (hab.selects hs')
  show computeVersion s.versions = computeVersion s'.versions
  rw [computeVersion, computeVersion, hfed]

theorem stable_of_commute (h : VersionsCommute w.api key) : VersionStable pj w key where
  orders _ _ hc hc' := version_eq_of_commute h (SameLists.refl _) hc hc'
  again w₁ w₂ h₁ h₂ := by
    cases hep : w.api.envoyProxies.get? key with
    | none =>
      obtain rfl := exec_reconcile_none hep h₁
      obtain rfl := exec_reconcile_none hep h₂
      exact ⟨rfl, fun _ => rfl⟩
    | some ep =>
      obtain ⟨c, hc, hv, hsame, -⟩ := exec_reconcile_version hep h₁
      cases hep₁ : w₁.api.envoyProxies.get? key with
      | none =>
        obtain rfl := exec_reconcile_none hep₁ h₂
        exact ⟨rfl, fun _ => rfl⟩
      | some ep₁ =>
        obtain ⟨c', hc', hv', -, hready⟩ := exec_reconcile_version hep₁ h₂
        have heq : c.version = c'.version := version_eq_of_commute h hsame hc hc'
        refine ⟨by rw [hv, hv', heq], fun hshown => ?_⟩
        rcases hready with hr | hr
        · exact hr
        · have hmap : (w₁.cache key.nodeID).map ("version=" ++ ·.version) =
              ((w₁.cache key.nodeID).map (·.version)).map ("version=" ++ ·) := by
            rw [Option.map_map]
            rfl
          rw [hr, hshown, hmap, hv, heq]
          rfl

theorem commute_of_stable (hpj : pj.Lawful) (hhash : HashDistinguishes pj w.api key) (h : VersionStable pj w key) :
    VersionsCommute w.api key := by
  refine commute_of_fed_eq fun s s' hs hs' => ?_
  obtain ⟨raws, hm⟩ := exists_marshals hpj s.synthesised
  obtain ⟨raws', hm'⟩ := exists_marshals hpj s'.synthesised
  have hc := (collect_iff w.api.listing).mpr ⟨s, raws, hs, hm, rfl⟩
  have hc' := (collect_iff w.api.listing).mpr ⟨s', raws', hs', hm', rfl⟩
  exact hhash _ _ hc hc' (h.orders _ _ hc hc')

/-- The version of a proxy is stable if the resource versions that enter it commute, and as far as the
    hash has no collision there, only then. -/
theorem version_stable_iff (hpj : pj.Lawful) (w : World) (key : NamespacedName) :
    (VersionsCommute w.api key → VersionStable pj w key) ∧
    (HashDistinguishes pj w.api key → VersionStable pj w key → VersionsCommute w.api key) :=
  ⟨stable_of_commute, commute_of_stable hpj⟩

end Stable

def Sample.twoListeners : World := world [.listener (listener "http" "3"), .listener (listener "https" "4")]

/-- With two listeners it is not stable: the text is `34` in the one order and `43` in the other. -/
theorem version_not_stable : ¬∀ (pj : Protojson) (w : World) (key : NamespacedName), pj.Lawful →
    VersionStable pj w key := by
  intro h
  have hpj := Protojson.reference_lawful
  have hstored : Selects Sample.twoListeners.api Sample.proxy.key (Sample.twoListeners.api.stored _) := selects_stored
  have hswapped : Selects Sample.twoListeners.api Sample.proxy.key
      { Sample.twoListeners.api.stored Sample.proxy.key with
        listeners := [Sample.listener "https" "4", Sample.listener "http" "3"] } :=
    { hstored with listeners := List.Perm.swap .. }
  obtain ⟨raws, hm⟩ := exists_marshals hpj (Sample.twoListeners.api.stored Sample.proxy.key).synthesised
  have hversion := (h _ _ _ hpj).orders _ _ (collect_stored _ _ _ hm)
    ((collect_iff (API.listing _)).mpr ⟨_, raws, hswapped, hm, rfl⟩)
  have hne : computeVersion [["3", "4"], [], [], [], []] ≠ computeVersion [["4", "3"], [], [], [], []] := by
    decide +kernel
  exact hne hversion

/-- With two listeners it can be: the text is `121212` in both orders. -/
theorem version_stable_secured : Sample.secured.world.api.listeners.items = [Sample.http, Sample.https] ∧
    VersionStable .reference Sample.secured.world Sample.proxy.key :=
  ⟨rfl, (version_stable_iff Protojson.reference_lawful _ _).1 Sample.commute_stored⟩

end EnvoyMesh
