import EnvoyMesh.Theorems.Kept
import EnvoyMesh.Theorems.Stable

/-! # Stages of a Reconcile

Where a running Reconcile is: it still reads, it is bound to return an error, or it has set its snapshot
and reports that in the status, first whether the proxy is connected, then that it is ready. -/

namespace EnvoyMesh
open Prog

def reportReady (ep : EnvoyProxy) (version : String) : Calls (Except String Unit) :=
  setCondition ep conditionReady .true "SnapshotReady" ("version=" ++ version) >>= fun _ => ret (.ok ())

def reportConnected (ep : EnvoyProxy) (version : String) (connected : Bool) : Calls (Except String Unit) :=
  setCondition ep conditionConnected (if connected then .true else .false) "StreamStatus" "" >>= fun ep =>
    reportReady ep version

/-- The proxy at hand after a status write: as it is stored, or as it was if the write failed. -/
def EnvoyProxy.afterWrite (ep : EnvoyProxy) : Except String EnvoyProxy → EnvoyProxy
  | .ok stored => stored
  | .error _ => ep

theorem setCondition_bind {α : Type} (ep : EnvoyProxy) (condType : String) (status : ConditionStatus)
    (reason msg : String) (f : EnvoyProxy → Calls α) : setCondition ep condType status reason msg >>= f =
      call (.updateStatus (ep.withCondition condType status reason msg)) fun r =>
        f ((ep.withCondition condType status reason msg).afterWrite r) :=
  congrArg (call _) (funext fun r => by cases r <;> rfl)

theorem reportConnected_eq (ep : EnvoyProxy) (version : String) (connected : Bool) :
    reportConnected ep version connected =
      call (.updateStatus (ep.withCondition conditionConnected (if connected then .true else .false) "StreamStatus" ""))
        fun r => reportReady ((ep.withCondition conditionConnected (if connected then .true else .false) "StreamStatus"
          "").afterWrite r) version := setCondition_bind ..

theorem reportReady_eq (ep : EnvoyProxy) (version : String) : reportReady ep version =
    call (.updateStatus (ep.withCondition conditionReady .true "SnapshotReady" ("version=" ++ version)))
      fun _ => ret (.ok ()) := setCondition_bind ..

theorem key_of_stored {a : API} {key : NamespacedName} {p : EnvoyProxy} (h : a.envoyProxies.get? key = some p) :
    p.key = key := (Store.get?_eq_some.mp h).2

theorem key_afterWrite {ep : EnvoyProxy} {r : Except String EnvoyProxy} {w w' : World}
    (h : w.Answers (.updateStatus ep) r w') : (ep.afterWrite r).key = ep.key := by
  rcases h with ⟨e, rfl, -⟩ | ⟨old, hold, -, ⟨-, rfl, -⟩ | ⟨-, rv, rfl, -⟩⟩
  · rfl
  · exact key_of_stored hold
  · exact key_of_stored (p := old) hold

/-- The answer to a status write that changed nothing: it failed, or the status was as it is to be. -/
def LeftAsIs (a : API) (ep : EnvoyProxy) (r : Except String EnvoyProxy) : Prop :=
  (∃ e, r = .error e) ∨ ∃ old, r = .ok old ∧ a.envoyProxies.get? ep.key = some old ∧ old.status = ep.status

inductive Stage where
  | reading
  | failing
  | asking (ep : EnvoyProxy) (version : String)
  | connecting (ep : EnvoyProxy) (version : String) (connected : Bool)
  | writing (ep : EnvoyProxy) (version : String)
  | ended

/-- `P` is what remains of a Reconcile of `key` at the stage. A reading one got only answers that the stored
    objects give. -/
def Stage.At (pj : Protojson) (key : NamespacedName) (a : API) : Stage → Calls (Except String Unit) → Prop
  | .reading, P => ∃ Q, Reaches a.Reads (prepare pj key).run Q ∧ P = Q >>= finish
  | .failing, P => (P.Uses fun c => ¬c.isSet) ∧ ∀ r, P.Result (fun _ _ => True) r → ∃ e, r = .error e
  | .asking ep version, P => ep.key = key ∧ P = report ep version (.ok ())
  | .connecting ep version connected, P => ep.key = key ∧ P = reportConnected ep version connected
  | .writing ep version, P => ep.key = key ∧ P = reportReady ep version
  | .ended, P => P = ret (.ok ())

section Stages
variable {pj : Protojson} {key : NamespacedName} {a b : API} {P : Calls (Except String Unit)}

theorem Stage.At.of_sameView {σ : Stage} (h : σ.At pj key a P) (hv : SameView key a b) : σ.At pj key b P := by
  cases σ with
  | reading =>
    obtain ⟨Q, hQ, rfl⟩ := h
    exact ⟨Q, (hv.reads.sim_prepare.reaches hQ).1, rfl⟩
  | _ => exact h

theorem at_start : Stage.At pj key a .reading (reconcile pj key) := ⟨_, .refl, rfl⟩

/-- From which stage to which the answer to a call takes a Reconcile of `key`, where its status writes leave
    no notification. -/
inductive Stage.Next (key : NamespacedName) (w : World) : Stage → (c : Call) → c.Answer → World → Stage → Prop where
  | read {c : Call} {r : c.Answer} (hc : c.isRead) : Next key w .reading c r w .reading
  | notBuilt {ep : EnvoyProxy} {r : Except String EnvoyProxy} {w' : World} :
      Next key w .reading (.updateStatus ep) r w' .failing
  | notSet {snap : Snapshot} {e : String} {w' : World} :
      Next key w .reading (.setSnapshot key.nodeID snap) (.error e) w' .failing
  | set {snap : Snapshot} {ep : EnvoyProxy} : Next key w .reading (.setSnapshot key.nodeID snap) (.ok ())
      { w with cache := Function.update w.cache key.nodeID (some snap) } (.asking ep snap.version)
  | fail {c : Call} {r : c.Answer} {w' : World} (hc : ¬c.isSet) : Next key w .failing c r w' .failing
  | ask {ep : EnvoyProxy} {version : String} : Next key w (.asking ep version) (.isConnected key.nodeID)
      (w.streams.connected.isConnected key.nodeID) w
      (.connecting ep version (w.streams.connected.isConnected key.nodeID))
  | connect {ep ep' : EnvoyProxy} {version : String} {connected : Bool} {r : Except String EnvoyProxy} (hkey : ep.key = key)
      (h : LeftAsIs w.api (ep.withCondition conditionConnected (if connected then .true else .false) "StreamStatus" "") r) :
      Next key w (.connecting ep version connected)
        (.updateStatus (ep.withCondition conditionConnected (if connected then .true else .false) "StreamStatus" "")) r w
        (.writing ep' version)
  | write {ep : EnvoyProxy} {version : String} {r : Except String EnvoyProxy} (hkey : ep.key = key)
      (h : LeftAsIs w.api (ep.withCondition conditionReady .true "SnapshotReady" ("version=" ++ version)) r) :
      Next key w (.writing ep version)
        (.updateStatus (ep.withCondition conditionReady .true "SnapshotReady" ("version=" ++ version))) r w .ended

section Next
variable {w w' : World} {c : Call} {k : c.Answer → Calls (Except String Unit)} {r : c.Answer}

theorem next_of_reading (h : Stage.At pj key w.api .reading (call c k)) (hw : w.Answers c r w') :
    ∃ σ, Stage.Next key w .reading c r w' σ ∧ σ.At pj key w'.api (k r) := by
  obtain ⟨Q, hQ, heq⟩ := h
  cases Q with
  | call c' k' =>
    injection heq with hc hk
    subst hc
    rw [eq_of_heq hk]
    have hread := (hQ.uses prepare_uses).1
    obtain ⟨rfl, hr⟩ := answers_of_isRead hread hw
    exact ⟨.reading, .read hread, k' r, hQ.answer hr, rfl⟩
  | ret p =>
    have hres : (prepare pj key).run.Result w.api.Reads p := hQ.result rfl
    rw [ret_bind] at heq
    match p, heq, hres with
    | .ok (some (ep, version, .error e)), heq, _ =>
      rw [finish, publish_error, setCondition_bind] at heq
      cases heq
      exact ⟨.failing, .notBuilt, trivial, fun b hb => ⟨_, hb.symm⟩⟩
    | .ok (some (ep, version, .ok snap)), heq, hres =>
      obtain ⟨-, rfl, c, -, rfl, hbuild⟩ := result_prepare_found hres
      rw [finish, publish_ok] at heq
      cases heq
      obtain rfl : w' = _ := hw
      cases r with
      | error e =>
        rw [report_error, setCondition_bind]
        refine ⟨.failing, .notSet, ⟨id, fun _ => trivial⟩, fun b hb => ?_⟩
        obtain ⟨_, -, hb⟩ := hb
        exact ⟨_, hb.symm⟩
      | ok _ =>
        rw [← version_of_build hbuild.symm]
        exact ⟨.asking ep _, .set, rfl, rfl⟩

theorem ended_or_missing {σ : Stage} (h : σ.At pj key a (ret (.ok ()))) :
    σ = .ended ∨ a.envoyProxies.get? key = none := by
  cases σ with
  | ended => exact Or.inl rfl
  | reading =>
    obtain ⟨Q, hQ, heq⟩ := h
    cases Q with
    | call c k => cases heq
    | ret p =>
      have hres : (prepare pj key).run.Result a.Reads p := hQ.result rfl
      rw [ret_bind] at heq
      match p, heq, hres with
      | .ok none, _, hres => exact Or.inr (result_prepare_none hres)
      | .ok (some (ep, version, .error e)), heq, _ =>
        rw [finish, publish_error, setCondition_bind] at heq
        cases heq
      | .ok (some (ep, version, .ok snap)), heq, _ =>
        rw [finish, publish_ok] at heq
        cases heq
  | failing =>
    obtain ⟨e, he⟩ := h.2 _ rfl
    cases he
  | asking ep version => cases h.2
  | connecting ep version connected => cases h.2
  | writing ep version => cases h.2

/-- A status write of the proxy fails, finds the status as it is to be, or leaves a notification. -/
theorem write_cases {s : System} {w : World} {ep : EnvoyProxy} {r : Except String EnvoyProxy}
    {running : NamespacedName → Option (Calls (Except String Unit))} (hw : s.world.Answers (.updateStatus ep) r w) :
    System.Outstanding ⟨w, s.queue, running⟩ ep.key ∨ (w = s.world ∧ LeftAsIs s.world.api ep r) := by
  rcases hw with ⟨e, rfl, rfl⟩ | ⟨old, hold, -, ⟨hst, rfl, rfl⟩ | ⟨-, rv, rfl, rfl⟩⟩
  · exact Or.inr ⟨rfl, Or.inl ⟨e, rfl⟩⟩
  · exact Or.inr ⟨rfl, Or.inr ⟨old, rfl, hold, hst⟩⟩
  · refine Or.inl (Or.inr ⟨_, List.mem_append_right _ List.mem_cons_self, .envoyProxy old, List.mem_cons_self, ?_⟩)
    exact (Store.get?_eq_some.mp hold).2

/-- The answer to the next call of a Reconcile leads to the next stage, or leaves a notification. -/
theorem next_of_answer {s : System} {σ : Stage} {running : NamespacedName → Option (Calls (Except String Unit))}
    (h : σ.At pj key s.world.api (call c k)) (hw : s.world.Answers c r w') :
    System.Outstanding ⟨w', s.queue, running⟩ key ∨ ∃ σ', Stage.Next key s.world σ c r w' σ' ∧
      σ'.At pj key w'.api (k r) := by
  cases σ with
  | reading => exact Or.inr (next_of_reading h hw)
  | failing => exact Or.inr ⟨.failing, .fail h.1.1, h.1.2 r, fun b hb => h.2 b ⟨r, trivial, hb⟩⟩
  | asking ep version =>
    obtain ⟨rfl, heq⟩ := h
    cases heq
    obtain ⟨rfl, rfl⟩ := hw
    exact Or.inr ⟨.connecting ep version _, .ask, rfl, rfl⟩
  | connecting ep version connected =>
    obtain ⟨rfl, heq⟩ := h
    rw [reportConnected_eq] at heq
    cases heq
    have hkey := key_afterWrite hw
    rcases write_cases hw with hout | ⟨rfl, hres⟩
    · exact Or.inl hout
    · exact Or.inr ⟨.writing _ version, .connect rfl hres, hkey, rfl⟩
  | writing ep version =>
    obtain ⟨rfl, heq⟩ := h
    rw [reportReady_eq] at heq
    cases heq
    rcases write_cases hw with hout | ⟨rfl, hres⟩
    · exact Or.inl hout
    · exact Or.inr ⟨.ended, .write rfl hres, rfl⟩
  | ended => cases h

end Next

end Stages

end EnvoyMesh
