import EnvoyMesh.Theorems.Rollback
import EnvoyMesh.Theorems.Stages

/-! # Status writes

A Reconcile writes the status of its proxy up to three times, each time from the proxy at hand: as it was
read, or as the last write returned it, or as it was to be where that write failed. So a status that is written
holds what was read and what this Reconcile found out, and the API server refuses it if the stored proxy has
become another one. -/

namespace EnvoyMesh
open Prog

/-! ### What a Reconcile reports -/

/-- The conditions that a Reconcile of `key` reports, if its calls are answered as `v` admits: their type, status,
    reason and message. -/
inductive Reports (pj : Protojson) (v : (c : Call) → c.Answer → Prop) (key : NamespacedName) :
    String → ConditionStatus → String → String → Prop where
  | notBuilt {c : Collected} {e : String} (hc : (collect pj key.ns key.name).run.Result v (.ok c))
      (he : c.build pj = .error e) : Reports pj v key conditionReady .false "SnapshotBuildFailed" e
  | notSet {snap : Snapshot} {e : String} (h : v (.setSnapshot key.nodeID snap) (.error e)) :
      Reports pj v key conditionReady .false "SnapshotSetFailed" e
  | connected {b : Bool} (h : v (.isConnected key.nodeID) b) :
      Reports pj v key conditionConnected (if b then .true else .false) "StreamStatus" ""
  | ready {snap : Snapshot} (h : v (.setSnapshot key.nodeID snap) (.ok ())) :
      Reports pj v key conditionReady .true "SnapshotReady" ("version=" ++ snap.version)

/-- The proxies that a Reconcile of `key` has at hand. -/
inductive Draft (pj : Protojson) (v : (c : Call) → c.Answer → Prop) (key : NamespacedName) : EnvoyProxy → Prop where
  | read {ep : EnvoyProxy} (h : v (.get key) (.ok (some ep))) : Draft pj v key ep
  | saved {ep stored : EnvoyProxy} (hep : Draft pj v key ep) (h : v (.updateStatus ep) (.ok stored)) : Draft pj v key stored
  | set {ep : EnvoyProxy} {condType : String} {status : ConditionStatus} {reason msg : String} (hep : Draft pj v key ep)
      (h : Reports pj v key condType status reason msg) : Draft pj v key (ep.withCondition condType status reason msg)

section Drafts
variable {pj : Protojson} {v : (c : Call) → c.Answer → Prop} {key : NamespacedName} {ep : EnvoyProxy}

theorem Draft.afterWrite {r : Except String EnvoyProxy} (h : Draft pj v key ep) (hr : v (.updateStatus ep) r) :
    Draft pj v key (ep.afterWrite r) := by
  cases r with
  | error e => exact h
  | ok stored => exact h.saved hr

/-- What follows a single status write calls nothing more. -/
theorem reaches_setCondition {ep' : EnvoyProxy} {condType : String} {status : ConditionStatus} {reason msg : String}
    {r : Except String Unit} {k : Except String EnvoyProxy → Calls (Except String Unit)}
    (h : Reaches v (setCondition ep' condType status reason msg >>= fun _ => ret r) (call (.updateStatus ep) k)) :
    ep = ep'.withCondition condType status reason msg := by
  rw [setCondition_bind] at h
  rcases h.of_call with heq | ⟨_, -, h⟩
  · injection heq with hc
    injection hc
  · exact (h.uses (φ := fun _ => False) trivial).1.elim

theorem report_ok_eq (ep : EnvoyProxy) (version : String) :
    report ep version (.ok ()) = call (.isConnected ep.key.nodeID) (reportConnected ep version) := rfl

/-- Every status that a Reconcile writes is that of a proxy it has at hand. -/
theorem reaches_updateStatus {k : Except String EnvoyProxy → Calls (Except String Unit)}
    (hkey : ∀ ep, v (.get key) (.ok (some ep)) → ep.key = key)
    (h : Reaches v (reconcile pj key) (call (.updateStatus ep) k)) : Draft pj v key ep := by
  rcases reaches_call h with hread | ⟨p, hp, hf⟩
  · exact hread.elim
  match p, hp, hf with
  | .error e, _, hf => exact (hf.uses (φ := fun _ => False) trivial).1.elim
  | .ok none, _, hf => exact (hf.uses (φ := fun _ => False) trivial).1.elim
  | .ok (some (ep₀, version, .error e)), hp, hf =>
    obtain ⟨hget, -, c, hc, -, hbuild⟩ := prepared_found hkey hp
    rw [finish, publish_error] at hf
    exact reaches_setCondition hf ▸ .set (.read hget) (.notBuilt hc hbuild.symm)
  | .ok (some (ep₀, version, .ok snap)), hp, hf =>
    obtain ⟨hget, rfl, c, -, rfl, hbuild⟩ := prepared_found hkey hp
    rw [finish, publish_ok] at hf
    rcases hf.of_call with heq | ⟨r, hset, hf⟩
    · cases heq
    cases r with
    | error e =>
      rw [report_error] at hf
      exact reaches_setCondition hf ▸ .set (.read hget) (.notSet hset)
    | ok _ =>
      rw [report_ok_eq] at hf
      rcases hf.of_call with heq | ⟨b, hb, hf⟩
      · cases heq
      have hconn : Draft pj v ep₀.key
        (ep₀.withCondition conditionConnected (if b then .true else .false) "StreamStatus" "") :=
        .set (.read hget) (.connected hb)
      rw [reportConnected_eq] at hf
      rcases hf.of_call with heq | ⟨r, hr, hf⟩
      · cases heq
        exact hconn
      · rw [← version_of_build hbuild.symm] at hf
        exact reaches_setCondition hf ▸ .set (hconn.afterWrite hr) (.ready hset)

end Drafts

/-! ### Answers to status writes -/

section Answers
variable {w w' : World}

def Call.isStatusWrite : Call → Prop
  | .updateStatus _ => True
  | _ => False

theorem answers_api {c : Call} {r : c.Answer} (h : w.Answers c r w') (hc : ¬c.isStatusWrite) :
    w'.api = w.api ∧ w'.events = w.events := by
  cases c with
  | updateStatus ep => exact absurd trivial hc
  | setSnapshot nodeID snap =>
    obtain rfl : w' = _ := h
    exact ⟨rfl, rfl⟩
  | _ =>
    obtain ⟨-, rfl⟩ := h
    exact ⟨rfl, rfl⟩

/-- A status write that changes the objects stores the proxy it found with the new status. -/
theorem answers_status {ep : EnvoyProxy} {r : Except String EnvoyProxy} (h : w.Answers (.updateStatus ep) r w') :
    w'.api = w.api ∨ ∃ old rv, w.api.envoyProxies.get? ep.key = some old ∧
      old.metadata.resourceVersion = ep.metadata.resourceVersion ∧
      w'.api = { w.api with envoyProxies := w.api.envoyProxies.put (old.withStatus ep.status rv) } := by
  rcases h with ⟨e, -, rfl⟩ | ⟨old, hold, hrv, ⟨-, -, rfl⟩ | ⟨-, rv, -, rfl⟩⟩
  · exact Or.inl rfl
  · exact Or.inl rfl
  · exact Or.inr ⟨old, rv, hold, hrv, rfl⟩

theorem answers_sameLists {c : Call} {r : c.Answer} (h : w.Answers c r w') : SameLists w.api w'.api := by
  cases c with
  | updateStatus ep =>
    rcases answers_status h with heq | ⟨old, rv, -, -, heq⟩
    · exact heq ▸ .refl _
    · exact heq ▸ ⟨_, rfl⟩
  | _ => exact (answers_api h id).1 ▸ .refl _

/-- What a successful status write returns is stored: before it, or after it with the status that was written. -/
theorem answers_saved {ep stored : EnvoyProxy} (h : w.Answers (.updateStatus ep) (.ok stored) w') :
    w.api.envoyProxies.get? ep.key = some stored ∨
      (w'.api.envoyProxies.get? ep.key = some stored ∧ stored.status = ep.status) := by
  rcases h with ⟨e, he, -⟩ | ⟨old, hold, -, ⟨-, hr, -⟩ | ⟨-, rv, hr, rfl⟩⟩
  · cases he
  · cases hr
    exact Or.inl hold
  · cases hr
    have hkey : (old.withStatus ep.status rv).key = ep.key := key_of_stored (p := old) hold
    exact Or.inr ⟨by rw [API.put, Store.get?_put, if_pos hkey], rfl⟩

end Answers

theorem mem_setStatusCondition {conditions : List Condition} {new c : Condition}
    (h : c ∈ setStatusCondition conditions new) : c ∈ conditions ∨ c = new := by
  induction conditions with
  | nil => exact Or.inr (List.mem_singleton.mp h)
  | cons d conditions ih =>
    rw [setStatusCondition] at h
    split at h
    · rcases List.mem_cons.mp h with rfl | h
      · exact Or.inr rfl
      · exact Or.inl (List.mem_cons_of_mem _ h)
    · rcases List.mem_cons.mp h with rfl | h
      · exact Or.inl List.mem_cons_self
      · exact (ih h).imp_left (List.mem_cons_of_mem _)

/-! ### Reported conditions -/

namespace Timeline
variable {pj : Protojson} {τ : Timeline pj} {key : NamespacedName} {a i j : Nat}

def stored (τ : Timeline pj) (key : NamespacedName) (i : Nat) : Option EnvoyProxy := (τ.world i).api.envoyProxies.get? key

/-- One Reconcile of the proxy has reported the condition before moment `i`, by the answers that it got itself. -/
def Witnessed (τ : Timeline pj) (key : NamespacedName) (i : Nat) (c : Condition) : Prop :=
  ∃ a b, τ.Busy key a b ∧ b ≤ i ∧ Reports pj (τ.Between key a b) key c.type c.status c.reason c.message

/-- Other parties do not write a status: it is a subresource of its own. -/
def StatusKept (τ : Timeline pj) : Prop :=
  ∀ i, (τ.state (i + 1)).running = (τ.state i).running → ∀ key q, τ.stored key (i + 1) = some q →
    q.status.conditions = [] ∨ ∃ p, τ.stored key i = some p ∧ q.status = p.status

theorem Witnessed.mono {c : Condition} (h : τ.Witnessed key i c) (hij : i ≤ j) : τ.Witnessed key j c := by
  obtain ⟨a, b, hbusy, hb, hc⟩ := h
  exact ⟨a, b, hbusy, hb.trans hij, hc⟩

theorem stored_of_get {ep : EnvoyProxy} (h : τ.Between key a i (.get key) (.ok (some ep))) :
    ∃ j, j < i ∧ τ.stored key j = some ep := by
  obtain ⟨j, -, hj, hans⟩ := h
  have hget : (τ.world j).api.envoyProxies.get? key = some ep := by
    simpa [API.Reads, eq_comm] using answered_reads (c := .get key) trivial hans
  exact ⟨j, hj, hget⟩

theorem key_of_draft {ep : EnvoyProxy} (h : Draft pj (τ.Between key a i) key ep) : ep.key = key := by
  induction h with
  | read h =>
    obtain ⟨j, -, hget⟩ := stored_of_get h
    exact key_of_stored hget
  | saved hep h ih =>
    obtain ⟨j, -, -, hans⟩ := h
    obtain ⟨k, -, hw, -⟩ := answer_cases hans
    exact (key_afterWrite hw).trans ih
  | set hep h ih => exact ih

theorem draft_of_call {ep : EnvoyProxy} {k : Except String EnvoyProxy → Calls (Except String Unit)}
    (h : (τ.state i).running key = some (.call (.updateStatus ep) k)) :
    ∃ a, τ.Busy key a i ∧ Draft pj (τ.Between key a i) key ep := by
  obtain ⟨a, ha⟩ := τ.began key i h
  refine ⟨a, ha.busy, reaches_updateStatus (fun ep hget => ?_) ha.reaches⟩
  obtain ⟨j, -, hget⟩ := stored_of_get hget
  exact key_of_stored hget

/-- What a Reconcile has at hand holds conditions that were stored, and those it reports itself. -/
theorem draft_witnessed {ep : EnvoyProxy}
    (ih : ∀ j, j ≤ i → ∀ p, τ.stored key j = some p → ∀ c ∈ p.status.conditions, τ.Witnessed key j c)
    (hbusy : τ.Busy key a i) (h : Draft pj (τ.Between key a i) key ep) :
      ∀ c ∈ ep.status.conditions, τ.Witnessed key i c := by
  induction h with
  | read h =>
    intro c hc
    obtain ⟨j, hj, hget⟩ := stored_of_get h
    exact (ih j (Nat.le_of_lt hj) _ hget c hc).mono (Nat.le_of_lt hj)
  | @saved ep stored hep h ihd =>
    intro c hc
    obtain ⟨j, -, hj, hans⟩ := h
    obtain ⟨k, -, hw, -⟩ := answer_cases hans
    rcases answers_saved hw with hold | ⟨-, hst⟩
    · exact (ih j (Nat.le_of_lt hj) stored (key_of_draft hep ▸ hold) c hc).mono (Nat.le_of_lt hj)
    · exact ihd c (hst ▸ hc)
  | set hep h ihd =>
    intro c hc
    rcases mem_setStatusCondition hc with hc | rfl
    · exact ihd c hc
    · exact ⟨a, i, hbusy, le_rfl, h⟩

end Timeline

/-- A step that starts, answers or ends a Reconcile changes the objects by an answer only. -/
theorem step_objects {pj : Protojson} {s t : System} (hs : Step pj s t) (hr : t.running ≠ s.running) :
    t.world = s.world ∨ ∃ key c r, Does pj s (.answer key c r) t := by
  cases hs with
  | write | delete | deliver | stream => exact absurd rfl hr
  | start | done | failed => exact Or.inl rfl
  | call key c k r w hrun hw => exact Or.inr ⟨key, c, r, .answer key c k r w hrun hw⟩

/-- A proxy that is stored was stored before, comes from another party, or is the one before with the status that a
    Reconcile had at hand for the same resource version. -/
theorem Timeline.stored_cases {pj : Protojson} {τ : Timeline pj} {i : Nat} {key : NamespacedName} {p : EnvoyProxy}
    (hp : τ.stored key (i + 1) = some p) :
    τ.stored key i = some p ∨ (τ.state (i + 1)).running = (τ.state i).running ∨
      ∃ a ep old rv, τ.Busy key a i ∧ Draft pj (τ.Between key a i) key ep ∧ τ.stored key i = some old ∧
        old.metadata.resourceVersion = ep.metadata.resourceVersion ∧ p = old.withStatus ep.status rv := by
  have hapi (h : (τ.world (i + 1)).api = (τ.world i).api) : τ.stored key i = some p := by
    rwa [Timeline.stored, h] at hp
  rcases τ.next i with heq | hs
  · exact Or.inl (hapi (by rw [Timeline.world, heq, Timeline.world]))
  by_cases hr : (τ.state (i + 1)).running = (τ.state i).running
  · exact Or.inr (Or.inl hr)
  rcases step_objects hs hr with hw | ⟨key', c', r, hans⟩
  · exact Or.inl (hapi (congrArg World.api hw))
  obtain ⟨k, hrun, hw, -⟩ := answer_cases hans
  cases c' with
  | updateStatus ep =>
    rcases answers_status hw with h | ⟨old, rv, hold, hrv, hnew⟩
    · exact Or.inl (hapi h)
    have hput : τ.stored key (i + 1) = if old.key = key then some (old.withStatus ep.status rv) else τ.stored key i := by
      rw [Timeline.stored, Timeline.world, hnew, Store.get?_put]
      rfl
    by_cases hk : old.key = key
    · obtain ⟨a, hbusy, hdraft⟩ := Timeline.draft_of_call hrun
      have hkey : key' = key := by rw [← Timeline.key_of_draft hdraft, ← key_of_stored hold, hk]
      subst hkey
      rw [hput, if_pos hk] at hp
      cases hp
      exact Or.inr (Or.inr ⟨a, ep, old, rv, hbusy, hdraft, Timeline.key_of_draft hdraft ▸ hold, hrv, rfl⟩)
    · exact Or.inl ((hput.trans (if_neg hk)).symm.trans hp)
  | _ => exact Or.inl (hapi (answers_api hw id).1)

/-- The rule for what holds of all proxies that are ever stored: it need be shown for those that other parties store and for
    those that a Reconcile writes. -/
theorem Timeline.stored_rule {pj : Protojson} {τ : Timeline pj} {P : Nat → NamespacedName → EnvoyProxy → Prop}
    (hmono : ∀ i key p, P i key p → P (i + 1) key p)
    (hother : ∀ i, (∀ j ≤ i, ∀ key p, τ.stored key j = some p → P j key p) →
      (τ.state (i + 1)).running = (τ.state i).running → ∀ key p, τ.stored key (i + 1) = some p → P (i + 1) key p)
    (hwrite : ∀ i, (∀ j ≤ i, ∀ key p, τ.stored key j = some p → P j key p) → ∀ key a ep old rv, τ.Busy key a i →
      Draft pj (τ.Between key a i) key ep → τ.stored key i = some old →
      old.metadata.resourceVersion = ep.metadata.resourceVersion → P (i + 1) key (old.withStatus ep.status rv)) :
    ∀ i key p, τ.stored key i = some p → P i key p := by
  suffices hall : ∀ i, ∀ j ≤ i, ∀ key p, τ.stored key j = some p → P j key p from fun i => hall i i le_rfl
  intro i
  induction i with
  | zero =>
    intro j hj key p hp
    obtain rfl : j = 0 := by omega
    rw [Timeline.stored, Timeline.world, τ.start] at hp
    cases hp
  | succ i ih =>
    intro j hj key p hp
    rcases Nat.le_succ_iff.mp hj with hj | rfl
    · exact ih j hj key p hp
    rcases Timeline.stored_cases hp with hsame | hr | ⟨a, ep, old, rv, hbusy, hdraft, hold, hrv, rfl⟩
    · exact hmono i key p (ih i le_rfl key p hsame)
    · exact hother i ih hr key p hp
    · exact hwrite i ih key a ep old rv hbusy hdraft hold hrv

/-- What a status says has been found out: in every run in which no other party writes a status, each condition
    that is stored for a proxy was reported by a Reconcile of that proxy. If it is ready at a version, the snapshot
    of that version has been set for the proxy; if it is connected, the server said so to the Reconcile; and a
    failure is that of a build from lists it read, or of its `SetSnapshot`. -/
theorem stored_conditions_reported {pj : Protojson} (τ : Timeline pj) (hkept : τ.StatusKept) (i : Nat)
    {key : NamespacedName} {p : EnvoyProxy} (hp : τ.stored key i = some p) {c : Condition} (hc : c ∈ p.status.conditions) :
    τ.Witnessed key i c := by
  refine Timeline.stored_rule (P := fun i key p => ∀ c ∈ p.status.conditions, τ.Witnessed key i c)
    (fun i key p h c hc => (h c hc).mono (Nat.le_succ i)) ?_ ?_ i key p hp c hc
  · -- another party acted, and left the status alone
    intro i ih hr key p hp c hc
    rcases hkept i hr key p hp with hnone | ⟨q, hq, hst⟩
    · rw [hnone] at hc
      cases hc
    · exact (ih i le_rfl key q hq c (hst ▸ hc)).mono (Nat.le_succ i)
  · intro i ih key a ep old rv hbusy hdraft _ _ c hc
    exact (Timeline.draft_witnessed (fun j hj p hp => ih j hj key p hp) hbusy hdraft c hc).mono (Nat.le_succ i)

namespace Sample

/-- The proxy with a condition of another party. -/
def probed : EnvoyProxy := { proxy with status := ⟨1, [⟨"Probed", .true, "ProbeSucceeded", "", 1⟩]⟩ }

theorem mem_probed : probed ∈ [proxy, probed] := List.mem_cons_of_mem _ List.mem_cons_self

/-- A Reconcile of a new proxy, up to its first status write. -/
def reported (p : EnvoyProxy) : Timeline .reference := (opening .reference p).serving 3 p.key 9

def disconnected (p : EnvoyProxy) : EnvoyProxy :=
  p.withStatus ⟨1, p.status.conditions ++ [⟨conditionConnected, .false, "StreamStatus", "", 1⟩]⟩ "10"

theorem proxies_served : ∀ p ∈ [proxy, probed], ∀ n ≤ 9,
    ((System.serveCall p.key)^[n] (taken .reference p)).world.api.envoyProxies.items =
      if n ≤ 8 then [p] else [disconnected p] := by decide +kernel

section Reported
variable {p : EnvoyProxy} (hp : p ∈ [proxy, probed])
include hp

/-- The proxies of the run: none at first, then the one proxy, at last with its condition. -/
theorem reported_proxies (i : Nat) : ((reported p).world i).api.envoyProxies.items =
    if i = 0 then [] else if i ≤ 11 then [p] else [disconnected p] := by
  rcases i with _ | _ | _ | m
  · rfl
  · rfl
  · rfl
  · have hserved := proxies_served p hp (min m 9) (Nat.min_le_right _ _)
    rw [show m + 1 + 1 + 1 = 3 + m by omega, Timeline.world, reported, Timeline.serving_add, if_neg (by omega)]
    by_cases hm : m ≤ 8
    · rw [if_pos (by omega)]
      rwa [if_pos (by omega)] at hserved
    · rw [if_neg (by omega)]
      rwa [if_neg (by omega)] at hserved

theorem reported_stored {key : NamespacedName} {i : Nat} {q : EnvoyProxy} (h : (reported p).stored key i = some q) :
    q ∈ if i = 0 then [] else if i ≤ 11 then [p] else [disconnected p] := by
  rw [← reported_proxies hp]
  exact (Store.get?_eq_some.mp h).1

theorem reported_disconnected : (reported p).stored p.key 12 = some (disconnected p) := by
  refine Store.get?_eq_some.mpr ⟨?_, rfl⟩
  rw [reported_proxies hp]
  exact List.mem_cons_self

end Reported

theorem reported_statusKept : (reported proxy).StatusKept := by
  intro i hr key q hq
  have hsame (h : (reported proxy).stored key (i + 1) = (reported proxy).stored key i) :
      q.status.conditions = [] ∨ ∃ p, (reported proxy).stored key i = some p ∧ q.status = p.status :=
    Or.inr ⟨q, h ▸ hq, rfl⟩
  rcases i with _ | _ | _ | m
  · rw [List.mem_singleton.mp (reported_stored List.mem_cons_self hq)]
    exact Or.inl rfl
  · exact hsame rfl
  · exact hsame rfl
  · rw [show m + 1 + 1 + 1 = 3 + m by omega] at *
    rcases Timeline.serving_next m with heq | ⟨c, r, hans⟩
    · exact hsame (congrArg (fun s : System => s.world.api.envoyProxies.get? key) heq)
    · exact absurd (congrFun hr proxy.key) (running_of_answer hans)

end Sample

theorem disconnected_condition_reported : ∃ c ∈ (Sample.disconnected Sample.proxy).status.conditions,
    (Sample.reported Sample.proxy).stored Sample.proxy.key 12 = some (Sample.disconnected Sample.proxy) ∧
    (Sample.reported Sample.proxy).Witnessed Sample.proxy.key 12 c := by
  have hstored := Sample.reported_disconnected (p := Sample.proxy) List.mem_cons_self
  exact ⟨_, List.mem_cons_self, hstored,
    stored_conditions_reported _ Sample.reported_statusKept 12 hstored List.mem_cons_self⟩

/-! ### Foreign conditions -/

/-- The conditions that the controller does not own. -/
def EnvoyProxy.foreign (p : EnvoyProxy) : List Condition :=
  p.status.conditions.filter fun c => c.type ≠ conditionReady && c.type ≠ conditionConnected

theorem filter_setStatusCondition {p : Condition → Bool} (hp : ∀ c d : Condition, c.type = d.type → p c = p d)
    {conditions : List Condition} {new : Condition} (hnew : p new = false) :
    (setStatusCondition conditions new).filter p = conditions.filter p := by
  induction conditions with
  | nil => simp [setStatusCondition, hnew]
  | cons c conditions ih =>
    rw [setStatusCondition]
    split
    · next htype =>
      have hc : p c = false := (hp c new htype).trans hnew
      rw [List.filter_cons_of_neg (by simp [hnew]), List.filter_cons_of_neg (by simp [hc])]
    · rw [List.filter_cons, List.filter_cons, ih]

theorem foreign_withCondition {pj : Protojson} {v : (c : Call) → c.Answer → Prop} {key : NamespacedName} {ep : EnvoyProxy}
    {condType : String} {status : ConditionStatus} {reason msg : String} (h : Reports pj v key condType status reason msg) :
    (ep.withCondition condType status reason msg).foreign = ep.foreign := by
  refine filter_setStatusCondition (fun c d htype => by rw [htype]) ?_
  cases h <;> rfl

/-- From `a` to `b` nothing changes but the proxy `key`, and of that only the resource version and the status, the
    conditions of others excepted. -/
structure OwnConditionsOnly (key : NamespacedName) (a b : API) : Prop where
  lists : SameLists a b
  others : ∀ key', key' ≠ key → b.envoyProxies.get? key' = a.envoyProxies.get? key'
  own : b.envoyProxies.get? key = a.envoyProxies.get? key ∨ ∃ p status rv, a.envoyProxies.get? key = some p ∧
    b.envoyProxies.get? key = some (p.withStatus status rv) ∧ (p.withStatus status rv).foreign = p.foreign

theorem OwnConditionsOnly.refl (key : NamespacedName) (a : API) : OwnConditionsOnly key a a :=
  ⟨.refl a, fun _ _ => rfl, Or.inl rfl⟩

namespace Timeline
variable {pj : Protojson} {τ : Timeline pj} {key : NamespacedName} {a i : Nat}

/-- The API server gives every state of a proxy a resource version of its own. -/
def Versioned (τ : Timeline pj) : Prop :=
  ∀ i j key p q, τ.stored key i = some p → τ.stored key j = some q →
    p.metadata.resourceVersion = q.metadata.resourceVersion → p = q

/-- A proxy at hand stems from one that was stored under its resource version, with the same generation and the same
    conditions of others. -/
theorem draft_origin {ep : EnvoyProxy} (h : Draft pj (τ.Between key a i) key ep) :
    ∃ j o, τ.stored key j = some o ∧ o.metadata.resourceVersion = ep.metadata.resourceVersion ∧
      o.generation = ep.generation ∧ o.foreign = ep.foreign := by
  induction h with
  | @read ep h =>
    obtain ⟨j, -, hget⟩ := stored_of_get h
    exact ⟨j, ep, hget, rfl, rfl, rfl⟩
  | @saved ep stored hep h _ =>
    obtain ⟨j, -, -, hans⟩ := h
    obtain ⟨k, -, hw, -⟩ := answer_cases hans
    rcases answers_saved hw with hold | ⟨hnew, -⟩
    · exact ⟨j, stored, key_of_draft hep ▸ hold, rfl, rfl, rfl⟩
    · exact ⟨j + 1, stored, key_of_draft hep ▸ hnew, rfl, rfl, rfl⟩
  | set hep h ih =>
    obtain ⟨j, o, ho, hrv, hgen, hforeign⟩ := ih
    exact ⟨j, o, ho, hrv, hgen, hforeign.trans (foreign_withCondition h).symm⟩

end Timeline

/-- The controller overwrites nobody: in every run in which resource versions are not reused, a Reconcile changes
    no object but the proxy it reconciles, and of that nothing but the status, where it leaves every condition
    as it is that is not its own, whoever wrote it and whenever. -/
theorem only_own_conditions_written {pj : Protojson} (τ : Timeline pj) (hversions : τ.Versioned) {key : NamespacedName}
    {c : Call} {r : c.Answer} {i : Nat} (h : τ.Answered key c r i) :
    OwnConditionsOnly key (τ.world i).api (τ.world (i + 1)).api := by
  have hsame (hapi : (τ.world (i + 1)).api = (τ.world i).api) :
      OwnConditionsOnly key (τ.world i).api (τ.world (i + 1)).api := hapi ▸ .refl key _
  obtain ⟨k, hr, hw, -⟩ := answer_cases h
  cases c with
  | updateStatus ep =>
    rcases answers_status hw with hapi | ⟨old, rv, hold, hrv, hapi⟩
    · exact hsame hapi
    obtain ⟨a, -, hdraft⟩ := Timeline.draft_of_call hr
    obtain rfl := Timeline.key_of_draft hdraft
    obtain ⟨j, o, ho, horv, -, hforeign⟩ := Timeline.draft_origin hdraft
    -- the stored proxy is the one that the status was made from
    obtain rfl : o = old := hversions j i ep.key o old ho hold (horv.trans hrv.symm)
    have hkey : (o.withStatus ep.status rv).key = ep.key := key_of_stored (p := o) hold
    have hget (key' : NamespacedName) : (τ.world (i + 1)).api.envoyProxies.get? key' =
        if ep.key = key' then some (o.withStatus ep.status rv) else (τ.world i).api.envoyProxies.get? key' := by
      rw [Timeline.world, hapi, Store.get?_put, hkey]
      rfl
    refine ⟨⟨_, hapi⟩, fun key' hne => (hget key').trans (if_neg hne.symm), Or.inr ⟨o, ep.status, rv, hold, ?_, ?_⟩⟩
    · exact (hget ep.key).trans (if_pos rfl)
    · exact hforeign.symm
  | _ => exact hsame (answers_api hw id).1

namespace Sample
variable {p : EnvoyProxy} (hp : p ∈ [proxy, probed])
include hp

theorem reported_cases {key : NamespacedName} {i : Nat} {q : EnvoyProxy} (h : (reported p).stored key i = some q) :
    q = p ∨ q = disconnected p := by
  have hq := reported_stored hp h
  split at hq
  · cases hq
  · split at hq
    · exact Or.inl (List.mem_singleton.mp hq)
    · exact Or.inr (List.mem_singleton.mp hq)

theorem reported_versioned : (reported p).Versioned := by
  have hne : p.metadata.resourceVersion ≠ "10" := by
    have hall : ∀ p ∈ [proxy, probed], p.metadata.resourceVersion ≠ "10" := by decide
    exact hall p hp
  intro i j key q q' hq hq' hrv
  rcases reported_cases hp hq with rfl | rfl
  · rcases reported_cases hp hq' with rfl | rfl
    · rfl
    · exact absurd hrv hne
  · rcases reported_cases hp hq' with rfl | rfl
    · exact absurd hrv.symm hne
    · rfl

end Sample

/-- The proxy has a condition of another party when its Reconcile writes the first of its own. -/
theorem disconnected_only_written : Sample.probed.foreign ≠ [] ∧
    (Sample.reported Sample.probed).stored Sample.proxy.key 11 = some Sample.probed ∧
    (Sample.reported Sample.probed).stored Sample.proxy.key 12 = some (Sample.disconnected Sample.probed) ∧
    OwnConditionsOnly Sample.proxy.key ((Sample.reported Sample.probed).world 11).api
      ((Sample.reported Sample.probed).world 12).api := by
  have hbefore : (Sample.reported Sample.probed).stored Sample.proxy.key 11 = some Sample.probed := by
    refine Store.get?_eq_some.mpr ⟨?_, rfl⟩
    rw [Sample.reported_proxies Sample.mem_probed]
    exact List.mem_cons_self
  have hafter : (Sample.reported Sample.probed).stored Sample.proxy.key 12 = some (Sample.disconnected Sample.probed) :=
    Sample.reported_disconnected Sample.mem_probed
  refine ⟨by decide, hbefore, hafter, ?_⟩
  rcases Timeline.serving_next 8 with heq | ⟨c, r, hans⟩
  · have hsame : (Sample.reported Sample.probed).stored Sample.proxy.key 12 =
        (Sample.reported Sample.probed).stored Sample.proxy.key 11 :=
      congrArg (fun s : System => s.world.api.envoyProxies.get? Sample.proxy.key) heq
    rw [hbefore, hafter] at hsame
    exact absurd hsame (by decide)
  · exact only_own_conditions_written _ (Sample.reported_versioned Sample.mem_probed) hans

end EnvoyMesh
