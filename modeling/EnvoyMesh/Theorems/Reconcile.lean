import EnvoyMesh.Theorems.Collect

/-! # What a Reconcile does

The first half of a Reconcile only reads; the second half writes at most one snapshot, under the node ID
of the proxy that was found. -/

namespace EnvoyMesh
open Prog

def Call.isRead : Call → Prop
  | .setSnapshot _ _ | .isConnected _ | .updateStatus _ => False
  | _ => True

theorem answers_of_isRead {w w' : World} {c : Call} {r : c.Answer} (hc : c.isRead) (h : w.Answers c r w') :
    w' = w ∧ w.api.Reads c r := by
  cases c <;> first | exact hc.elim | exact ⟨h.2, h.1⟩

/-! ### The first half -/

section Uses
variable {φ : Call → Prop}

theorem uses_ask {c : Call} (h : φ c) : (ask c : Calls c.Answer).Uses φ := ⟨h, fun _ => trivial⟩

theorem uses_wrap {α : Type} {context : String} {x : M α} (h : x.run.Uses φ) : (M.wrap context x).run.Uses φ :=
  h.bind fun _ => trivial

theorem synthesize_uses {pj : Protojson} {names : List String} {clusters : List Cluster} :
    (synthesize pj names clusters).run.Uses Call.isRead := by
  induction clusters with
  | nil => trivial
  | cons cluster clusters ih =>
    rw [synthesize]
    cases synthesisOf names cluster with
    | none => exact ih
    | some syn =>
      refine Uses.run_bind (uses_wrap (uses_ask trivial)) fun _ => ?_
      exact Uses.run_bind (uses_wrap trivial) fun _ => Uses.run_bind ih fun _ => trivial

theorem collect_uses {pj : Protojson} {ns name : String} : (collect pj ns name).run.Uses Call.isRead := by
  refine Uses.run_bind (uses_wrap (Uses.run_bind (uses_ask trivial) fun _ => trivial)) fun _ => ?_
  refine Uses.run_bind (uses_wrap (Uses.run_bind (uses_ask trivial) fun _ => trivial)) fun _ => ?_
  refine Uses.run_bind (uses_wrap (Uses.run_bind (uses_ask trivial) fun _ => trivial)) fun _ => ?_
  refine Uses.run_bind (uses_wrap (Uses.run_bind (uses_ask trivial) fun _ => trivial)) fun _ => ?_
  refine Uses.run_bind (uses_wrap (Uses.run_bind (uses_ask trivial) fun _ => ?_)) fun _ => trivial
  exact Uses.run_bind synthesize_uses fun _ => trivial

theorem prepare_uses {pj : Protojson} {key : NamespacedName} : (prepare pj key).run.Uses Call.isRead := by
  refine Uses.run_bind (uses_ask trivial) fun found => ?_
  cases found with
  | none => trivial
  | some ep => exact Uses.run_bind collect_uses fun _ => trivial

end Uses

theorem exec_prepare {pj : Protojson} {key : NamespacedName} {w w' : World} {r : Prepared}
    (h : (prepare pj key).run.Exec World.Answers w w' r) : w' = w ∧ (prepare pj key).run.Result w.api.Reads r :=
  h.result_of_uses id prepare_uses fun _ _ _ _ hu hc ha => by
    obtain rfl : _ = w := hu
    exact answers_of_isRead hc ha

/-- While others act, the first half still leaves the cache alone, and each answer is one that some API
    state gives. -/
theorem exec_prepare_amid {pj : Protojson} {key : NamespacedName} {w w' : World} {r : Prepared}
    (h : (prepare pj key).run.Exec World.AnswersAmid w w' r) :
    w'.cache = w.cache ∧ (prepare pj key).run.Result (fun c r => ∃ a : API, a.Reads c r) r :=
  h.result_of_uses World.cache prepare_uses fun _ _ _ _ hu hc ⟨u, hcache, ha⟩ => by
    obtain ⟨rfl, hr⟩ := answers_of_isRead hc ha
    exact ⟨hcache.trans hu, _, hr⟩

/-- Whatever happens in between, the proxy that was found has the requested key, if Get returns such a
    proxy only. -/
theorem key_of_found {pj : Protojson} {key : NamespacedName} {ep : EnvoyProxy} {version : String}
    {built : Except String Snapshot} {v : (c : Call) → c.Answer → Prop}
    (hv : ∀ ep, v (.get key) (.ok (some ep)) → ep.key = key)
    (h : (prepare pj key).run.Result v (.ok (some (ep, version, built)))) : ep.key = key := by
  rw [prepare, result_run_bind] at h
  obtain ⟨found, ⟨_, hget, rfl⟩, h⟩ := h
  cases found with
  | none => cases h
  | some ep' =>
    obtain ⟨c, hc, hret⟩ := result_run_bind.mp h
    simp only [ExceptT.run_pure, pure_eq_ret, result_ret, Except.ok.injEq, Option.some.injEq, Prod.mk.injEq] at hret
    rw [← hret.1]
    exact hv ep' hget

theorem key_of_reads {a : API} {key : NamespacedName} {ep : EnvoyProxy} (h : a.Reads (.get key) (.ok (some ep))) :
    ep.key = key := by
  have hget : a.envoyProxies.get? key = some ep := by simpa [API.Reads, eq_comm] using h
  exact (Store.get?_eq_some.mp hget).2

/-- The pipeline of a Reconcile, from the stored objects to the snapshot it builds. -/
def Pipeline (pj : Protojson) (a : API) (key : NamespacedName) (snap : Snapshot) : Prop :=
  ∃ c, (collect pj key.ns key.name).run.Result a.Reads (.ok c) ∧ c.build pj = .ok snap

theorem result_prepare_found {pj : Protojson} {key : NamespacedName} {a : API} {ep : EnvoyProxy} {version : String}
    {built : Except String Snapshot} (h : (prepare pj key).run.Result a.Reads (.ok (some (ep, version, built)))) :
    a.envoyProxies.get? key = some ep ∧ ep.key = key ∧
      ∃ c, (collect pj key.ns key.name).run.Result a.Reads (.ok c) ∧ version = c.version ∧ built = c.build pj := by
  rw [prepare, result_run_bind] at h
  obtain ⟨found, hfound, h⟩ := h
  have hget : a.envoyProxies.get? key = found := by
    simpa [Client.get, ask, API.Reads, eq_comm] using hfound
  cases found with
  | none => cases h
  | some ep' =>
    obtain ⟨c, hc, hret⟩ := result_run_bind.mp h
    simp only [ExceptT.run_pure, pure_eq_ret, result_ret, Except.ok.injEq, Option.some.injEq, Prod.mk.injEq] at hret
    obtain ⟨rfl, rfl, rfl⟩ := hret
    have hkey : ep'.key = key := (Store.get?_eq_some.mp hget).2
    refine ⟨hget, hkey, c, ?_, rfl, rfl⟩
    rw [← hkey]
    exact hc

theorem result_prepare_none {pj : Protojson} {key : NamespacedName} {a : API}
    (h : (prepare pj key).run.Result a.Reads (.ok none)) : a.envoyProxies.get? key = none := by
  rw [prepare, result_run_bind] at h
  obtain ⟨found, hfound, h⟩ := h
  have hget : a.envoyProxies.get? key = found := by
    simpa [Client.get, ask, API.Reads, eq_comm] using hfound
  cases found with
  | none => exact hget
  | some ep' =>
    obtain ⟨c, hc, hret⟩ := result_run_bind.mp h
    simp only [ExceptT.run_pure, pure_eq_ret, result_ret, Except.ok.injEq, reduceCtorEq] at hret

/-! ### The second half -/

def Prepared.built : Prepared → Option Snapshot
  | .ok (some (_, _, .ok snap)) => some snap
  | _ => none

theorem answersAmid_updateStatus_cache {w w' : World} {ep : EnvoyProxy} {r : Except String EnvoyProxy}
    (h : w.AnswersAmid (.updateStatus ep) r w') : w'.cache = w.cache := by
  obtain ⟨u, hu, ⟨e, -, rfl⟩ | ⟨old, -, -, ⟨-, -, rfl⟩ | ⟨-, rv, -, rfl⟩⟩⟩ := h <;> exact hu

theorem exec_setCondition_cache {ep ep' : EnvoyProxy} {condType : String} {status : ConditionStatus} {reason msg : String}
    {w w' : World} (h : (setCondition ep condType status reason msg).Exec World.AnswersAmid w w' ep') :
    w'.cache = w.cache := by
  obtain ⟨r, w₁, hw₁, h⟩ := h
  have hw' : w' = w₁ := by cases r <;> exact h.1
  rw [hw']
  exact answersAmid_updateStatus_cache hw₁

theorem report_error (ep : EnvoyProxy) (version e : String) : report ep version (.error e) =
    setCondition ep conditionReady .false "SnapshotSetFailed" e >>= fun _ => ret (.error ("set snapshot: " ++ e)) := rfl

theorem report_ok (ep : EnvoyProxy) (version : String) : report ep version (.ok ()) =
    call (.isConnected ep.key.nodeID) fun (connected : Bool) =>
      setCondition ep conditionConnected (if connected then .true else .false) "StreamStatus" "" >>= fun ep =>
        setCondition ep conditionReady .true "SnapshotReady" ("version=" ++ version) >>= fun _ => ret (.ok ()) := rfl

theorem publish_error (ep : EnvoyProxy) (version e : String) : publish ep version (.error e) =
    setCondition ep conditionReady .false "SnapshotBuildFailed" e >>= fun _ => ret (.error ("build snapshot: " ++ e)) :=
  rfl

theorem publish_ok (ep : EnvoyProxy) (version : String) (snap : Snapshot) :
    publish ep version (.ok snap) = call (.setSnapshot ep.key.nodeID snap) (report ep version) := rfl

theorem exec_report_cache {ep : EnvoyProxy} {version : String} {set : Except String Unit} {w w' : World}
    {r : Except String Unit} (h : (report ep version set).Exec World.AnswersAmid w w' r) : w'.cache = w.cache := by
  cases set with
  | error e =>
    rw [report_error, exec_bind] at h
    obtain ⟨_, w₁, h₁, rfl, -⟩ := h
    exact exec_setCondition_cache h₁
  | ok u =>
    rw [report_ok] at h
    simp only [exec_call, exec_bind] at h
    obtain ⟨connected, w₁, ⟨u, hu, -, rfl⟩, _, w₂, h₂, _, w₃, h₃, rfl, -⟩ := h
    rw [exec_setCondition_cache h₃, exec_setCondition_cache h₂, hu]

theorem setCondition_uses {φ : Call → Prop} (hφ : ∀ ep, φ (.updateStatus ep)) {ep : EnvoyProxy} {condType : String}
    {status : ConditionStatus} {reason msg : String} : (setCondition ep condType status reason msg).Uses φ :=
  ⟨hφ _, fun r => by cases r <;> trivial⟩

theorem report_uses {φ : Call → Prop} (hφ : ∀ ep, φ (.updateStatus ep)) (hconn : ∀ n, φ (.isConnected n))
    {ep : EnvoyProxy} {version : String} {set : Except String Unit} : (report ep version set).Uses φ := by
  cases set with
  | error e =>
    rw [report_error]
    exact (setCondition_uses hφ).bind fun _ => trivial
  | ok u =>
    rw [report_ok]
    exact ⟨hconn _, fun _ => (setCondition_uses hφ).bind fun _ => (setCondition_uses hφ).bind fun _ => trivial⟩

theorem finish_uses {p : Prepared} : (finish p).Uses fun c => ¬c.isRead := by
  match p with
  | .error e => trivial
  | .ok none => trivial
  | .ok (some (ep, version, .error e)) =>
    rw [finish, publish_error]
    exact (setCondition_uses fun _ => id).bind fun _ => trivial
  | .ok (some (ep, version, .ok snap)) =>
    rw [finish, publish_ok]
    exact ⟨id, fun _ => report_uses (fun _ => id) fun _ => id⟩

/-- The cache after the second half: the snapshot that was built is stored under the node ID of the
    proxy, and nothing else changes. -/
theorem exec_finish_cache {p : Prepared} {w w' : World} {r : Except String Unit}
    (h : (finish p).Exec World.AnswersAmid w w' r) :
    (p.built = none ∧ w'.cache = w.cache) ∨
    ∃ ep version snap, p = .ok (some (ep, version, .ok snap)) ∧
      w'.cache = Function.update w.cache ep.key.nodeID (some snap) := by
  match p, h with
  | .error e, h => exact Or.inl ⟨rfl, congrArg World.cache h.1⟩
  | .ok none, h => exact Or.inl ⟨rfl, congrArg World.cache h.1⟩
  | .ok (some (ep, version, .error e)), h =>
    rw [finish, publish_error, exec_bind] at h
    obtain ⟨_, w₁, h₁, rfl, -⟩ := h
    exact Or.inl ⟨rfl, exec_setCondition_cache h₁⟩
  | .ok (some (ep, version, .ok snap)), h =>
    rw [finish, publish_ok, exec_call] at h
    obtain ⟨set, w₁, ⟨u, hu, hset⟩, h⟩ := h
    refine Or.inr ⟨ep, version, snap, rfl, ?_⟩
    rw [exec_report_cache h, show w₁ = _ from hset, hu]

end EnvoyMesh
