import EnvoyMesh.Theorems.Settling

/-! # The Ready condition

A Reconcile that has installed its snapshot writes the condition last, and a failed write is only logged:
the Reconcile ends without an error and is not repeated. The condition is right at rest in the runs in
which no Reconcile ends so. -/

namespace EnvoyMesh
open Prog

/-- The Ready condition of the proxy says what its Reconcile came to. -/
def ReadyAgrees (s : System) (p : EnvoyProxy) : Outcome → Prop
  | .installed => ∃ snap c, s.world.cache p.key.nodeID = some snap ∧ p.condition? conditionReady = some c ∧
      c.status = .true ∧ c.message = "version=" ++ snap.version
  | .failed => ∃ c, p.condition? conditionReady = some c ∧ c.status = .false

/-- No Reconcile ends without an error after its last status write failed. -/
def WritesHeeded : List Act → System → Act → System → Prop
  | acts, _, .finish key (.ok ()), _ => lastWriteFailed key acts = false
  | _, _, _, _ => True

/-- What is known of a Reconcile of `key` at a stage. -/
def ReadyAt (key : NamespacedName) (acts : List Act) (s : System) : Stage → Prop
  | .reading => attempt key acts = none
  | .failing => attempt key acts = some .failed
  | .asking _ version | .connecting _ version _ | .writing _ version =>
    attempt key acts = some .installed ∧ ∃ snap, s.world.cache key.nodeID = some snap ∧ snap.version = version
  | .ended => attempt key acts = some .installed ∧ (lastWriteFailed key acts = false →
      ∀ p, s.world.api.envoyProxies.get? key = some p → ReadyAgrees s p .installed)

def ReadyKept (pj : Protojson) (key : NamespacedName) (acts : List Act) (s : System) : Prop :=
  match s.running key with
  | some P => ∃ σ : Stage, σ.At pj key s.world.api P ∧ ReadyAt key acts s σ
  | none => ∀ p, s.world.api.envoyProxies.get? key = some p →
      lastOutcome key acts = some .installed ∧ ReadyAgrees s p .installed

section Ready
variable {pj : Protojson} {key : NamespacedName} {acts : List Act} {s t : System}

theorem readyAgrees_of_cache {p : EnvoyProxy} {o : Outcome} (h : ReadyAgrees s p o)
    (hc : t.world.cache p.key.nodeID = s.world.cache p.key.nodeID) : ReadyAgrees t p o := by
  cases o with
  | installed =>
    obtain ⟨snap, c, hsnap, hready⟩ := h
    exact ⟨snap, c, hc.trans hsnap, hready⟩
  | failed => exact h

/-- Outside of a Reconcile of the proxy, only what it would see matters. -/
theorem readyKept_unseen {a : Act} (h : ReadyKept pj key acts s) (hne : a.key? ≠ some key) (hu : Unseen key s t) :
    ReadyKept pj key (a :: acts) t := by
  have hagrees {p : EnvoyProxy} (hp : t.world.api.envoyProxies.get? key = some p) (h : ReadyAgrees s p .installed) :
      ReadyAgrees t p .installed := readyAgrees_of_cache h (key_of_stored hp ▸ hu.cache)
  unfold ReadyKept at h ⊢
  rw [hu.running]
  cases hr : s.running key with
  | none =>
    simp only [hr] at h ⊢
    intro p hp
    obtain ⟨hlast, hready⟩ := h p (hu.view.proxy.trans hp)
    exact ⟨(lastOutcome_of_ne hne).trans hlast, hagrees hp hready⟩
  | some P =>
    simp only [hr] at h ⊢
    obtain ⟨σ, hat, hσ⟩ := h
    refine ⟨σ, hat.of_sameView hu.view, ?_⟩
    cases σ <;> simp only [ReadyAt, attempt, lastWriteFailed, since_of_ne hne, hu.cache] at hσ ⊢
    case ended => exact ⟨hσ.1, fun hw p hp => hagrees hp (hσ.2 hw p (hu.view.proxy.trans hp))⟩
    all_goals exact hσ

theorem outcome_of_isRead {c : Call} (hc : c.isRead) (r : c.Answer) (o : Option Outcome) : c.outcome r o = o := by
  cases c <;> first | exact hc.elim | rfl

theorem outcome_of_some {c : Call} (hc : ¬c.isSet) (r : c.Answer) (o : Outcome) : c.outcome r (some o) = some o := by
  cases c <;> first | exact absurd trivial hc | rfl

/-- What is known at a stage leads to what is known at the next one. -/
theorem readyKept_answer {c : Call} {k : c.Answer → Calls (Except String Unit)} {r : c.Answer} {w : World}
    (h : ReadyKept pj key acts s) (hr : s.running key = some (.call c k)) (hw : s.world.Answers c r w) :
    System.Outstanding ⟨w, s.queue, Function.update s.running key (some (k r))⟩ key ∨
      ReadyKept pj key (.answer key c r :: acts) ⟨w, s.queue, Function.update s.running key (some (k r))⟩ := by
  simp only [ReadyKept, hr] at h
  obtain ⟨σ, hat, hσ⟩ := h
  rcases next_of_answer hat hw with hout | ⟨σ', hnext, hat'⟩
  · exact Or.inl hout
  simp only [ReadyKept, Function.update_self]
  refine Or.inr ⟨σ', hat', ?_⟩
  cases hnext with
  | read hc => exact (attempt_answer.trans (outcome_of_isRead hc ..)).trans hσ
  | notBuilt =>
    replace hσ : attempt key acts = none := hσ
    exact attempt_answer.trans (by rw [hσ]; rfl)
  | notSet => exact attempt_answer
  | set => exact ⟨attempt_answer, _, Function.update_self .., rfl⟩
  | fail hc =>
    replace hσ : attempt key acts = some .failed := hσ
    exact attempt_answer.trans (by rw [hσ, outcome_of_some hc])
  | ask | connect => exact ⟨attempt_answer.trans (by rw [hσ.1]; rfl), hσ.2⟩
  | write hkey hres =>
    subst hkey
    obtain ⟨hatt, snap, hsnap, rfl⟩ := hσ
    refine ⟨attempt_answer.trans (by rw [hatt]; rfl), fun hwrite p hp => ?_⟩
    rcases hres with ⟨e, rfl⟩ | ⟨old, rfl, hold, hst⟩
    · rw [lastWriteFailed_answer] at hwrite
      cases hwrite
    · obtain rfl : old = p := Option.some.inj (hold.symm.trans hp)
      have hready := (condition?_of_status hst conditionReady).trans (condition?_withCondition.trans (if_pos rfl))
      exact ⟨snap, _, key_of_stored hp ▸ hsnap, hready, rfl, rfl⟩

theorem readyKept_done (h : ReadyKept pj key acts s) (hr : s.running key = some (.ret (.ok ())))
    (hwrite : lastWriteFailed key acts = false) : ReadyKept pj key (.finish key (.ok ()) :: acts)
      { s with running := Function.update s.running key none } := by
  simp only [ReadyKept, hr] at h
  obtain ⟨σ, hat, hσ⟩ := h
  simp only [ReadyKept, Function.update_self]
  intro p hp
  rcases ended_or_missing hat with rfl | hnone
  · exact ⟨by rw [lastOutcome_finish, hσ.1]; rfl, hσ.2 hwrite p hp⟩
  · rw [hnone] at hp
    cases hp

theorem readyKept_carried (pj : Protojson) (key : NamespacedName) :
    Carried pj WritesHeeded key (ReadyKept pj key) where
  empty := nofun
  start hr := by
    rw [ReadyKept, hr]
    exact ⟨.reading, at_start, since_start⟩
  answer h hr hw _ := readyKept_answer h hr hw
  done h hr hwrite := readyKept_done h hr hwrite
  unseen h _ _ hne hu := Or.inr (readyKept_unseen h hne hu)

end Ready

/-! ### A proxy at rest -/

theorem not_outstanding_of_idle {s : System} {key : NamespacedName} (hq : key ∉ s.queue) (he : s.world.events = []) :
    ¬s.Outstanding key := by
  rintro (hmem | ⟨e, hmem, -⟩)
  · exact hq hmem
  · rw [he] at hmem
    cases hmem

/-- What a proxy at rest is: it is stored, nothing is outstanding for it, and no Reconcile of it runs. -/
structure System.Rests (s : System) (p : EnvoyProxy) : Prop where
  stored : s.world.api.envoyProxies.get? p.key = some p
  settled : ¬s.Outstanding p.key
  running : s.running p.key = none

/-- A Reconcile that is queued brings its proxy to rest: it writes the conditions, and the one that its writes lead to finds
    nothing to write. -/
theorem Calm.rests {pj : Protojson} {ok : List Act → System → Act → System → Prop} {s : System} {p : EnvoyProxy}
    (hok : Calm ok p.key) (hpj : pj.Lawful) (h : ∃ acts, Recorded pj ok acts s)
    (hp : s.world.api.envoyProxies.get? p.key = some p) (hdec : Decodable pj s.world.api p.key) (hq : p.key ∈ s.queue)
    (hr : s.running p.key = none) : ∃ acts t q, Recorded pj ok acts t ∧
      Relation.ReflTransGen (Works pj World.AnswersWell) s t ∧ t.Rests q ∧ q.key = p.key ∧
      t.world.streams = s.world.streams ∧
      (q.toldConnected (s.world.streams.connected.isConnected p.key.nodeID)).status = q.status := by
  obtain ⟨w, q, hexec, hsaves, hconn, hready⟩ := exec_reconcile_saves hpj hp hdec selects_stored
  have hkey : q.key = p.key := key_of_stored hsaves.stored
  let t := System.drain ⟨w, s.queue.filter (· ≠ p.key), s.running⟩
  have ht : ∃ acts, Recorded pj ok acts t := kept_of_drain hok.kept (hok.exec h hq hr hexec)
  obtain ⟨es, -, hsends⟩ := Sends.refl.exec hq hr (hexec.mono fun _ _ _ _ hw => hw.1)
  have hstored : t.world.api.envoyProxies.get? q.key = some q := hkey ▸ hsaves.stored
  by_cases hmem : p.key ∈ t.queue
  · rw [← hkey, ← hsaves.streams] at hconn
    have hagain := exec_settled (w := t.world) hpj hstored (hkey ▸ hsaves.lists.decodable hdec)
      (hkey ▸ hsaves.lists.symm.selects selects_stored) hconn hready
    rw [hkey] at hagain
    obtain ⟨acts, hrec⟩ := hok.exec ht hmem hr hagain
    obtain ⟨_, -, hrest⟩ := hsends.drain.exec hmem hr (hagain.mono fun _ _ _ _ hw => hw.1)
    refine ⟨acts, _, q, hrec, hrest.works, ⟨hstored, not_outstanding_of_idle ?_ rfl, hkey ▸ hr⟩, hkey, hsaves.streams, ?_⟩
    · simp [hkey]
    · rwa [← hkey, ← hsaves.streams]
  · obtain ⟨acts, hrec⟩ := ht
    exact ⟨acts, t, q, hrec, hsends.drain.works, ⟨hstored, not_outstanding_of_idle (hkey ▸ hmem) rfl, hkey ▸ hr⟩, hkey,
      hsaves.streams, hconn⟩

theorem Sample.recorded_written (pj : Protojson) {ok : List Act → System → Act → System → Prop} {key : NamespacedName}
    (hok : Calm ok key) : ∃ acts, Recorded pj ok acts written :=
  kept_of_drain hok.kept (kept_of_writes hok.kept ⟨[], .empty⟩ _)

/-- In every run in which no Reconcile ends without an error after its last status write failed: while
    nothing is outstanding for an existing proxy and no Reconcile of it runs, its Ready condition agrees with
    the last completed Reconcile that reached `BuildSnapshot`. -/
theorem ready_not_stale_of_heeded {pj : Protojson} {acts : List Act} {s : System} (h : Recorded pj WritesHeeded acts s)
    (p : EnvoyProxy) (hp : s.world.api.envoyProxies.get? p.key = some p) (hout : ¬s.Outstanding p.key)
    (hrunning : s.running p.key = none) : ∃ o, lastOutcome p.key acts = some o ∧ ReadyAgrees s p o := by
  rcases (readyKept_carried pj p.key).of_recorded p.metadata.ns_label h with ho | hkept
  · exact absurd ho hout
  · rw [ReadyKept, hrunning] at hkept
    exact ⟨.installed, hkept p hp⟩

/-- A proxy without conditions and its listener are written, and the Reconciles that follow write the conditions. -/
theorem ready_not_stale_reported : Sample.written.world.api.envoyProxies.get? Sample.proxy.key = some Sample.proxy ∧
    Sample.proxy.condition? conditionReady = none ∧
    ∃ acts s p, Recorded .reference WritesHeeded acts s ∧
      Relation.ReflTransGen (Works .reference World.AnswersWell) Sample.written s ∧ s.Rests p ∧
      p.key = Sample.proxy.key ∧ ∃ o, lastOutcome p.key acts = some o ∧ ReadyAgrees s p o := by
  have hok : Calm WritesHeeded Sample.proxy.key :=
    ⟨fun _ _ _ _ => trivial, fun _ _ _ _ => trivial, fun _ _ _ _ _ _ _ _ => trivial, fun _ _ _ hw _ => hw⟩
  obtain ⟨acts, s, p, hrec, hrun, hrests, hkey, -⟩ := hok.rests Protojson.reference_lawful (Sample.recorded_written _ hok)
    rfl Sample.decodable_written (by decide +kernel) rfl
  exact ⟨rfl, rfl, acts, s, p, hrec, hrun, hrests, hkey,
    ready_not_stale_of_heeded hrec p hrests.stored hrests.settled hrests.running⟩

/-- It can be stale: both status writes of the only Reconcile of a proxy fail, and the Reconcile ends without
    an error. -/
theorem ready_stale : ¬∀ (pj : Protojson) (acts : List Act) (s : System) (p : EnvoyProxy), pj.Lawful →
    Recorded pj (fun _ _ _ _ => True) acts s → s.world.api.envoyProxies.get? p.key = some p → ¬s.Outstanding p.key →
    s.running p.key = none → ∃ o, lastOutcome p.key acts = some o ∧ ReadyAgrees s p o := by
  intro h
  have hreach := (Sample.reachable_written .reference).exec (by decide +kernel) rfl Sample.exec_cached
  obtain ⟨acts, hrec⟩ := hreach.recorded
  have hout : ¬Sample.cached.Outstanding Sample.proxy.key := not_outstanding_of_idle (by decide +kernel) rfl
  obtain ⟨o, -, hagrees⟩ := h _ acts _ Sample.proxy Protojson.reference_lawful hrec rfl hout rfl
  cases o with
  | installed =>
    obtain ⟨_, c, -, hc, -⟩ := hagrees
    cases hc
  | failed =>
    obtain ⟨c, hc, -⟩ := hagrees
    cases hc

end EnvoyMesh
