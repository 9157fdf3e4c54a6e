import EnvoyMesh.System
import EnvoyMesh.Theorems.Reconcile

/-! # Running Reconciles

What a Reconcile that runs in the system is about to do, whatever the other parties did between its
calls. -/

namespace EnvoyMesh
open Prog

/-- All that is sure about an answer: Get finds an object under the key it was asked for. -/
def Possible : (c : Call) → c.Answer → Prop
  | .get key, r => ∀ ep, r = .ok (some ep) → ep.key = key
  | _, _ => True

theorem possible_of_answers {w w' : World} {c : Call} {r : c.Answer} (h : w.Answers c r w') : Possible c r := by
  cases c with
  | get key =>
    rintro ep rfl
    exact key_of_reads h.1
  | _ => trivial

def Call.isSet : Call → Prop
  | .setSnapshot _ _ => True
  | _ => False

section Reaches
variable {pj : Protojson} {key : NamespacedName} {v : (c : Call) → c.Answer → Prop}

theorem reaches_call {c : Call} {k : c.Answer → Calls (Except String Unit)} (h : Reaches v (reconcile pj key) (call c k)) :
    c.isRead ∨ ∃ p, (prepare pj key).run.Result v p ∧ Reaches v (finish p) (call c k) := by
  rcases h.bind with ⟨P, hP, heq⟩ | hfinish
  · cases P with
    | ret p => exact Or.inr ⟨p, hP.result rfl, heq ▸ .refl⟩
    | call c' k' =>
      injection heq with hc
      subst hc
      exact Or.inl (hP.uses prepare_uses).1
  · exact Or.inr hfinish

theorem reaches_finish_set {p : Prepared} {nodeID : String} {snap : Snapshot}
    {k : Except String Unit → Calls (Except String Unit)} (h : Reaches v (finish p) (call (.setSnapshot nodeID snap) k)) :
    ∃ ep version, p = .ok (some (ep, version, .ok snap)) ∧ nodeID = ep.key.nodeID ∧ k = report ep version := by
  match p, h with
  | .error e, h => exact (h.uses (φ := fun _ => False) trivial).1.elim
  | .ok none, h => exact (h.uses (φ := fun _ => False) trivial).1.elim
  | .ok (some (ep, version, .error e)), h =>
    rw [finish, publish_error] at h
    have hu := h.uses (φ := fun c => ¬c.isSet) ((setCondition_uses fun _ => id).bind fun _ => trivial)
    exact absurd trivial hu.1
  | .ok (some (ep, version, .ok snap')), h =>
    rw [finish, publish_ok] at h
    rcases h.of_call with heq | ⟨r, -, h⟩
    · injection heq with hc hk
      injection hc with hn hs
      subst hn hs
      exact ⟨ep, version, rfl, rfl, hk⟩
    · have hu := h.uses (φ := fun c => ¬c.isSet) (report_uses (fun _ => id) fun _ => id)
      exact absurd trivial hu.1

/-- A running Reconcile that is about to set a snapshot has found its proxy and built the snapshot. -/
theorem reaches_set {nodeID : String} {snap : Snapshot} {k : Except String Unit → Calls (Except String Unit)}
    (h : Reaches v (reconcile pj key) (call (.setSnapshot nodeID snap) k)) :
    ∃ ep version, (prepare pj key).run.Result v (.ok (some (ep, version, .ok snap))) ∧ nodeID = ep.key.nodeID ∧
      k = report ep version := by
  rcases reaches_call h with hread | ⟨p, hp, hf⟩
  · exact hread.elim
  · obtain ⟨ep, version, rfl, hn, hk⟩ := reaches_finish_set hf
    exact ⟨ep, version, hp, hn, hk⟩

end Reaches

section Step
variable {pj : Protojson} {s t : System}

def System.Runs (pj : Protojson) (s : System) : Prop :=
  ∀ key P, s.running key = some P → Reaches Possible (reconcile pj key) P

theorem mem_enqueue {reqs : List NamespacedName} {key : NamespacedName} :
    key ∈ (s.enqueue reqs).queue ↔ key ∈ s.queue ∨ key ∈ reqs := by
  unfold System.enqueue
  generalize s.queue = q
  induction reqs generalizing q with
  | nil => simp
  | cons r reqs ih =>
    simp only [List.foldl_cons] at ih ⊢
    rw [ih, List.mem_cons]
    by_cases hr : r ∈ q
    · rw [if_pos hr]
      constructor
      · exact Or.imp_right Or.inr
      · intro hgiven
        rcases hgiven with h | rfl | h
        · exact Or.inl h
        · exact Or.inl hr
        · exact Or.inr h
    · rw [if_neg hr, List.mem_append, List.mem_singleton, or_assoc]

@[simp] theorem enqueue_world {reqs : List NamespacedName} : (s.enqueue reqs).world = s.world := rfl

theorem runs_update (key : NamespacedName) (P : Option (Calls (Except String Unit))) (h : s.Runs pj)
    (hP : ∀ Q, P = some Q → Reaches Possible (reconcile pj key) Q) (hr : t.running = Function.update s.running key P) :
    t.Runs pj := by
  intro key' Q hQ
  rw [hr] at hQ
  by_cases hk : key' = key
  · subst hk
    rw [Function.update_self] at hQ
    exact hP Q hQ
  · rw [Function.update_of_ne hk] at hQ
    exact h key' Q hQ

theorem step_runs (h : s.Runs pj) (hs : Step pj s t) : t.Runs pj := by
  cases hs with
  | write | delete | deliver | stream => exact h
  | start key =>
    refine runs_update key (some (reconcile pj key)) h ?_ rfl
    intro Q hQ
    cases hQ
    exact .refl
  | call key c k r w hr hw =>
    refine runs_update key (some (k r)) h ?_ rfl
    intro Q hQ
    cases hQ
    exact (h key _ hr).answer (possible_of_answers hw)
  | done key => exact runs_update key none h (by rintro _ ⟨⟩) rfl
  | failed key => exact runs_update key none h (by rintro _ ⟨⟩) rfl

theorem reachable_runs (h : Reachable pj s) : s.Runs pj := by
  induction h with
  | empty => rintro key P ⟨⟩
  | step _ hs ih => exact step_runs ih hs

/-- A snapshot is set under the node ID of the key whose Reconcile runs, and that is a proxy's. -/
theorem running_set (h : s.Runs pj) {key : NamespacedName} {nodeID : String} {snap : Snapshot}
    {k : Except String Unit → Calls (Except String Unit)}
    (hr : s.running key = some (call (.setSnapshot nodeID snap) k)) :
    nodeID = key.nodeID ∧ isDNS1123Label key.ns = true := by
  obtain ⟨ep, version, hp, hn, -⟩ := reaches_set (h key _ hr)
  obtain rfl := key_of_found (fun ep (hv : Possible (.get key) (.ok (some ep))) => hv ep rfl) hp
  exact ⟨hn, ep.metadata.ns_label⟩

end Step

end EnvoyMesh
