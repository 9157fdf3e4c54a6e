import EnvoyMesh.Theorems.Replicas
import EnvoyMesh.Theorems.Restless

/-! # Contention

The Connected condition says what one process knows of its own streams, but the status is shared. Where the controllers
of two processes run and an Envoy is connected to one of them, each writes what the other has to correct. -/

namespace EnvoyMesh
open Prog

/-- What the process would write into the Connected condition. -/
def Replica.connectedStatus (r : Replica) (key : NamespacedName) : ConditionStatus :=
  if r.streams.connected.isConnected key.nodeID then .true else .false

/-- What the stored proxy says. -/
def API.connectedStatus (a : API) (key : NamespacedName) : Option ConditionStatus :=
  ((a.envoyProxies.get? key).bind (·.condition? conditionConnected)).map (·.status)

/-- The process `i` reconciles the proxy and puts what its own streams say into the Connected condition, which said
    something else. -/
def Overwrites (pj : Protojson) (key : NamespacedName) (i : Nat) (d e : Deployment) : Prop :=
  ∃ r w, d.replicas i = some r ∧ (reconcile pj key).Exec World.AnswersWell (r.view d.api).world w (.ok ()) ∧ e.api = w.api ∧
    d.api.connectedStatus key ≠ some (r.connectedStatus key) ∧ e.api.connectedStatus key = some (r.connectedStatus key)

/-- The controllers of the process run, but no Reconcile of the proxy. -/
structure Replica.Idle (key : NamespacedName) (r : Replica) : Prop where
  active : r.active = true
  running : r.running key = none

/-- It is the turn of the process `i`: it has a request for the proxy and the Connected condition is not what it would
    write. -/
structure Contended (a : API) (key : NamespacedName) (i j : Nat) (d : Deployment) : Prop where
  lists : SameLists a d.api
  stored : ∃ p, d.api.envoyProxies.get? key = some p
  disagree : ∃ r r', d.replicas i = some r ∧ r.Idle key ∧ d.replicas j = some r' ∧ r'.Idle key ∧
    r.connectedStatus key ≠ r'.connectedStatus key ∧ key ∈ r.queue ∧
    d.api.connectedStatus key ≠ some (r.connectedStatus key)

section Contended
variable {pj : Protojson} {a : API} {key : NamespacedName} {i j : Nat} {d : Deployment}

theorem Replica.connectedStatus_told (r : Replica) (es : List Event) (key : NamespacedName) :
    (r.told es).connectedStatus key = r.connectedStatus key := by
  unfold Replica.told
  split <;> rfl

theorem Replica.Idle.told {r : Replica} (h : r.Idle key) (es : List Event) : (r.told es).Idle key := by
  unfold Replica.told
  split
  · exact ⟨h.active, h.running⟩
  · exact h

/-- A turn of one process makes it the turn of the other. -/
theorem Contended.turn (hpj : pj.Lawful) (hdec : Decodable pj a key) (hij : i ≠ j) (h : Contended a key i j d) :
    ∃ e, Relation.TransGen (Deployment.Works pj World.AnswersWell) d e ∧ Contended a key j i e ∧
      Overwrites pj key i d e := by
  obtain ⟨hlists, ⟨p, hp⟩, r, r', hi, hr, hj, hr', hdisagree, hqueue, hwrong⟩ := h
  obtain rfl := key_of_stored hp
  obtain ⟨w, q, hexec, hsaves, htold, -⟩ := exec_reconcile_saves (w := (r.view d.api).world) hpj hp (hlists.decodable hdec)
    selects_stored
  replace hexec := hexec.mono fun _ _ _ _ hw => hw.1
  have hright : w.api.connectedStatus p.key = some (r.connectedStatus p.key) := by
    rw [API.connectedStatus, hsaves.stored, Option.bind_some, condition?_of_told htold]
    rfl
  have hne : q ≠ p := by
    rintro rfl
    refine hwrong (Eq.trans ?_ hright)
    rw [API.connectedStatus, API.connectedStatus, hp, hsaves.stored]
  obtain ⟨es, hes, hsends⟩ := Sends.refl.exec (s := r.view d.api) hqueue hr.running hexec
  obtain ⟨d₁, hrun, hapi, hi₁, hothers⟩ := hsends.lift hi hr.active
  obtain ⟨r₁, hi₁, hr₁, hsame⟩ : ∃ r₁, d₁.replicas i = some r₁ ∧ r₁.Idle p.key ∧
      r₁.connectedStatus p.key = r.connectedStatus p.key := by
    refine ⟨_, hi₁, ⟨hr.active, hr.running⟩, ?_⟩
    change (if w.streams.connected.isConnected _ then _ else _) = _
    rw [hsaves.streams]
    rfl
  have hj₁ : d₁.replicas j = some (r'.told es) := by rw [hothers j (Ne.symm hij), hj]; rfl
  -- the notification that was left is one of those that the other process got
  obtain ⟨e, he, hreq⟩ : ∃ e ∈ es, ∀ clusters, p.key ∈ e.requests clusters := by
    obtain ⟨es', hes', hnotified⟩ := hsaves.events
    obtain rfl : es' = es := List.append_cancel_left (hes'.symm.trans hes)
    exact hnotified.resolve_left hne
  have hevents : (r'.told es).events = r'.events ++ es := by rw [Replica.told, if_pos hr'.active]
  obtain ⟨front, back, hsplit⟩ := List.append_of_mem (List.mem_append_right r'.events he)
  obtain ⟨d₂, hdeliver, hapi₂, hj₂, hothers₂⟩ := Deployment.exists_works hj₁ (hr'.told es).active
    (.deliver _ front back e d₁.api.clusters.items (hevents.trans hsplit) (List.Perm.refl _))
  have hi₂ := (hothers₂ i hij).trans (congrArg (Option.map _) hi₁)
  have hapi₂ : d₂.api = w.api := hapi₂.trans hapi
  refine ⟨d₂, .tail' hrun hdeliver, ⟨?_, ⟨q, ?_⟩, _, _, hj₂, ?_, hi₂, ?_, ?_, ?_, ?_⟩, r, w, hi, hexec, hapi₂, hwrong, ?_⟩
  · exact hapi₂ ▸ hlists.trans hsaves.lists
  · exact hapi₂ ▸ hsaves.stored
  · exact ⟨(hr'.told es).active, (hr'.told es).running⟩
  · exact hr₁.told _
  · rw [Replica.connectedStatus_told, hsame]
    exact fun heq => hdisagree (heq.symm.trans (r'.connectedStatus_told es p.key))
  · exact mem_enqueue.mpr (Or.inr (hreq _))
  · rw [hapi₂, hright]
    exact fun heq => hdisagree ((Option.some.inj heq).trans (r'.connectedStatus_told es p.key))
  · rw [hapi₂, hright]

end Contended

/-- Two processes whose controllers run, an Envoy that is connected to one of them only, and a request for its proxy in the
    process that would not write what the Connected condition says: there is a run in which nobody else acts, no read and
    no `SetSnapshot` fails, and that consists of turns in which one process after the other overwrites the condition. -/
theorem active_replicas_contend {pj : Protojson} (hpj : pj.Lawful) {d : Deployment} {i j : Nat} (hij : i ≠ j)
    {r r' : Replica} (hi : d.replicas i = some r) (hj : d.replicas j = some r')
    (ha : r.active = true) (ha' : r'.active = true)
    (p : EnvoyProxy) (hp : d.api.envoyProxies.get? p.key = some p) (hdec : Decodable pj d.api p.key)
    (hrunning : r.running p.key = none ∧ r'.running p.key = none)
    (hdisagree : r.connectedStatus p.key ≠ r'.connectedStatus p.key)
    (hqueue : p.key ∈ r.queue) (hwrong : d.api.connectedStatus p.key ≠ some (r.connectedStatus p.key)) :
    ∃ run start, Endless (Deployment.Works pj World.AnswersWell) d run ∧ start 0 = 0 ∧ StrictMono start ∧
      ∀ n, Overwrites pj p.key (if n % 2 = 0 then i else j) (run (start n)) (run (start (n + 1))) := by
  have hstart : Contended d.api p.key i j d :=
    ⟨.refl _, ⟨p, hp⟩, r, r', hi, ⟨ha, hrunning.1⟩, hj, ⟨ha', hrunning.2⟩, hdisagree, hqueue, hwrong⟩
  -- the turns alternate
  refine Endless.of_rounds (P := fun n => if n % 2 = 0 then Contended d.api p.key i j else Contended d.api p.key j i)
    (R := fun n => Overwrites pj p.key (if n % 2 = 0 then i else j)) (fun n e he => ?_) hstart
  rcases Nat.mod_two_eq_zero_or_one n with hn | hn
  · have hnext : (n + 1) % 2 = 1 := by omega
    simp only [hn, hnext, one_ne_zero, if_true, if_false] at he ⊢
    exact he.turn hpj hdec hij
  · have hnext : (n + 1) % 2 = 0 := by omega
    simp only [hn, hnext, one_ne_zero, if_true, if_false] at he ⊢
    exact he.turn hpj hdec (Ne.symm hij)

/-- Two processes without leader election, of which one has the stream of the proxy's Envoy. -/
theorem pair_contends : ∃ d : Deployment, d.Reachable .reference false ∧
    ∃ run start, Endless (Deployment.Works .reference World.AnswersWell) d run ∧ start 0 = 0 ∧ StrictMono start ∧
      ∀ n, Overwrites .reference Sample.proxy.key (if n % 2 = 0 then 0 else 1) (run (start n)) (run (start (n + 1))) := by
  have hwritten : Deployment.Reachable .reference false _ := .step .empty (.write _ (.envoyProxy Sample.proxy))
  have hbooted := (hwritten.step (.boot _ 0 rfl)).step (.boot _ 1 rfl)
  have hnotified := hbooted.step (.work _ _ (.step _ 0 _ _ rfl rfl (.deliver _ [] [] _ [] rfl (List.Perm.refl _))))
  have hopened := hnotified.step (.stream _ 0 _ (.opened 0 (some ⟨Sample.proxy.key.nodeID⟩)) _ rfl rfl)
  have hrequested := hopened.step (.stream _ 0 _ (.request 0) _ rfl rfl)
  have hdec : Decodable .reference (API.empty.put (.envoyProxy Sample.proxy)) Sample.proxy.key := by
    constructor <;> decide +kernel
  exact ⟨_, hrequested, active_replicas_contend Protojson.reference_lawful (i := 0) (j := 1) (by decide) rfl rfl rfl rfl
    Sample.proxy rfl hdec ⟨rfl, rfl⟩ (by decide +kernel) (by decide +kernel) (by decide +kernel)⟩

end EnvoyMesh
