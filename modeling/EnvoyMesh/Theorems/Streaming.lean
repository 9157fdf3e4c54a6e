import EnvoyMesh.Theorems.Ready

/-! # The Connected condition

The condition is written by a Reconcile from the connection table of that moment, and no stream event
leads to another Reconcile. With every status write succeeding, it follows the streams in the runs in
which a change of the table comes only while a Reconcile is still to look. -/

namespace EnvoyMesh
open Prog

/-- The Connected condition of the proxy is True exactly if the xDS server says so. -/
def ConnectedAgrees (s : System) (p : EnvoyProxy) : Prop :=
  ∃ c, p.condition? conditionConnected = some c ∧
    (c.status = .true ↔ s.world.streams.connected.isConnected p.key.nodeID = true)

def Call.asks : (c : Call) → c.Answer → Bool → Bool
  | .isConnected _, _, _ => true
  | _, _, asked => asked

/-- The Reconcile of `key` has asked whether the proxy is connected. -/
def asked (key : NamespacedName) : List Act → Bool := since key false Call.asks

/-- Every status write succeeds. -/
def WritesSaved : List Act → System → Act → System → Prop
  | _, _, .answer _ c r, _ => c.writeFailed r false = false
  | _, _, _, _ => True

/-- `IsConnected` changes for `key` only while a request for it or a notification about it is outstanding, a
    Reconcile of it runs that has not asked yet, or there is no such proxy. -/
def ChangesAwaited (key : NamespacedName) (acts : List Act) (s t : System) : Prop :=
  t.world.streams.connected.isConnected key.nodeID ≠ s.world.streams.connected.isConnected key.nodeID →
    s.Outstanding key ∨ ((s.running key).isSome ∧ asked key acts = false) ∨ s.world.api.envoyProxies.get? key = none

/-- What is known of a Reconcile of `key` at a stage. -/
def ConnectedAt (key : NamespacedName) (acts : List Act) (s : System) : Stage → Prop
  | .reading | .failing | .asking _ _ => True
  | .connecting _ _ connected => asked key acts = true ∧ ∀ p, s.world.api.envoyProxies.get? key = some p →
      s.world.streams.connected.isConnected key.nodeID = connected
  | .writing _ _ | .ended => asked key acts = true ∧ ∀ p, s.world.api.envoyProxies.get? key = some p → ConnectedAgrees s p

def ConnectedKept (pj : Protojson) (key : NamespacedName) (acts : List Act) (s : System) : Prop :=
  match s.running key with
  | some P => ∃ σ : Stage, σ.At pj key s.world.api P ∧ ConnectedAt key acts s σ
  | none => ∀ p, s.world.api.envoyProxies.get? key = some p → ConnectedAgrees s p

section Connected
variable {pj : Protojson} {key : NamespacedName} {acts : List Act} {s t : System}

@[simp] theorem asked_answer {c : Call} {r : c.Answer} :
    asked key (.answer key c r :: acts) = c.asks r (asked key acts) := since_answer

theorem connectedAgrees_of_table {p : EnvoyProxy} (h : ConnectedAgrees s p)
    (ht : t.world.streams.connected.isConnected p.key.nodeID = s.world.streams.connected.isConnected p.key.nodeID) :
    ConnectedAgrees t p := by
  obtain ⟨c, hc, hiff⟩ := h
  exact ⟨c, hc, ht ▸ hiff⟩

/-- What is known stays so while neither the proxy nor its entry of the table changes. -/
theorem connectedKept_of_table {a : Act} (h : ConnectedKept pj key acts s) (hne : a.key? ≠ some key) (hu : Unseen key s t)
    (ht : ((s.running key).isSome → asked key acts = true) → ∀ p, s.world.api.envoyProxies.get? key = some p →
      t.world.streams.connected.isConnected key.nodeID = s.world.streams.connected.isConnected key.nodeID) :
    ConnectedKept pj key (a :: acts) t := by
  have hagrees (hask : (s.running key).isSome → asked key acts = true)
      (h : ∀ p, s.world.api.envoyProxies.get? key = some p → ConnectedAgrees s p) :
      ∀ p, t.world.api.envoyProxies.get? key = some p → ConnectedAgrees t p := by
    intro p hp
    have hp' := hu.view.proxy.trans hp
    exact connectedAgrees_of_table (h p hp') (key_of_stored hp ▸ ht hask p hp')
  have hask : asked key (a :: acts) = asked key acts := since_of_ne hne
  unfold ConnectedKept at h ⊢
  rw [hu.running]
  cases hr : s.running key with
  | none =>
    simp only [hr] at h ⊢
    exact hagrees (fun hsome => by rw [hr] at hsome; cases hsome) h
  | some P =>
    simp only [hr] at h ⊢
    obtain ⟨σ, hat, hσ⟩ := h
    refine ⟨σ, hat.of_sameView hu.view, ?_⟩
    cases σ with
    | reading | failing | asking => trivial
    | connecting ep version connected =>
      refine ⟨hask.trans hσ.1, fun p hp => ?_⟩
      have hp' := hu.view.proxy.trans hp
      exact (ht (fun _ => hσ.1) p hp').trans (hσ.2 p hp')
    | writing | ended => exact ⟨hask.trans hσ.1, hagrees (fun _ => hσ.1) hσ.2⟩

theorem connectedKept_unseen {a : Act} (h : ConnectedKept pj key acts s) (hd : Does pj s a t)
    (hok : ChangesAwaited key acts s t) (hne : a.key? ≠ some key) (hu : Unseen key s t) :
    t.Outstanding key ∨ ConnectedKept pj key (a :: acts) t := by
  by_cases hout : s.Outstanding key
  · exact Or.inl (outstanding_of_does hout hd fun ha => hne (ha ▸ rfl))
  refine Or.inr (connectedKept_of_table h hne hu fun hask p hp => ?_)
  by_contra hchange
  rcases hok hchange with hout' | ⟨hrun, hnot⟩ | hnone
  · exact hout hout'
  · rw [hask hrun] at hnot
    cases hnot
  · rw [hnone] at hp
    cases hp

/-- What is known at a stage leads to what is known at the next one. -/
theorem connectedKept_answer {c : Call} {k : c.Answer → Calls (Except String Unit)} {r : c.Answer} {w : World}
    (h : ConnectedKept pj key acts s) (hr : s.running key = some (.call c k)) (hw : s.world.Answers c r w)
    (hsaved : c.writeFailed r false = false) :
    System.Outstanding ⟨w, s.queue, Function.update s.running key (some (k r))⟩ key ∨
      ConnectedKept pj key (.answer key c r :: acts) ⟨w, s.queue, Function.update s.running key (some (k r))⟩ := by
  simp only [ConnectedKept, hr] at h
  obtain ⟨σ, hat, hσ⟩ := h
  rcases next_of_answer hat hw with hout | ⟨σ', hnext, hat'⟩
  · exact Or.inl hout
  simp only [ConnectedKept, Function.update_self]
  refine Or.inr ⟨σ', hat', ?_⟩
  cases hnext with
  | read | notBuilt | notSet | set | fail => trivial
  | ask => exact ⟨asked_answer, fun _ _ => rfl⟩
  | @connect ep _ version connected r hkey hres =>
    subst hkey
    refine ⟨asked_answer.trans hσ.1, fun p hp => ?_⟩
    rcases hres with ⟨e, rfl⟩ | ⟨old, rfl, hold, hst⟩
    · cases hsaved
    obtain rfl : old = p := Option.some.inj (hold.symm.trans hp)
    have hconn := (condition?_of_status hst conditionConnected).trans (condition?_withCondition.trans (if_pos rfl))
    refine ⟨_, hconn, ?_⟩
    rw [key_of_stored hp, hσ.2 old hp]
    cases connected <;> simp
  | write => exact ⟨asked_answer.trans hσ.1, hσ.2⟩

theorem connectedKept_done (h : ConnectedKept pj key acts s) (hr : s.running key = some (.ret (.ok ()))) :
    ConnectedKept pj key (.finish key (.ok ()) :: acts) { s with running := Function.update s.running key none } := by
  simp only [ConnectedKept, hr] at h
  obtain ⟨σ, hat, hσ⟩ := h
  simp only [ConnectedKept, Function.update_self]
  intro p hp
  rcases ended_or_missing hat with rfl | hnone
  · exact hσ.2 p hp
  · rw [hnone] at hp
    cases hp

theorem connectedKept_carried (pj : Protojson) (key : NamespacedName) :
    Carried pj (fun acts s a t => WritesSaved acts s a t ∧ ChangesAwaited key acts s t) key (ConnectedKept pj key) where
  empty := nofun
  start hr := by
    rw [ConnectedKept, hr]
    exact ⟨.reading, at_start, trivial⟩
  answer h hr hw hok := connectedKept_answer h hr hw hok.1
  done h hr _ := connectedKept_done h hr
  unseen h hd hok hne hu := connectedKept_unseen h hd hok.2 hne hu

end Connected

theorem changesAwaited_of_streams {key : NamespacedName} {acts : List Act} {s t : System}
    (h : t.world.streams = s.world.streams) : ChangesAwaited key acts s t :=
  fun hchange => absurd (by rw [h]) hchange

theorem calm_writesSaved (key : NamespacedName) : Calm WritesSaved key :=
  ⟨fun _ _ _ _ => trivial, fun _ _ _ _ => trivial, fun _ _ _ _ _ _ hw _ => hw.2, fun _ _ _ _ _ => trivial⟩

theorem calm_awaited (key : NamespacedName) :
    Calm (fun acts s a t => WritesSaved acts s a t ∧ ChangesAwaited key acts s t) key where
  other _ _ _ hst := ⟨trivial, changesAwaited_of_streams hst⟩
  start _ _ _ hw := ⟨trivial, changesAwaited_of_streams (congrArg World.streams hw)⟩
  answer _ _ _ _ _ _ hsaved hw := ⟨hsaved.2, changesAwaited_of_streams (hw ▸ answers_streams hsaved.1.1)⟩
  finish _ _ _ _ hw := ⟨trivial, changesAwaited_of_streams (congrArg World.streams hw)⟩

/-- With every status write succeeding, and in every run in which the connection table changes for the proxy
    only while a Reconcile of it is still to look: while nothing is outstanding for the existing proxy and no
    Reconcile of it runs, its Connected condition is True exactly if it is connected. -/
theorem connected_follows_streams_of_awaited {pj : Protojson} {acts : List Act} {s : System} (p : EnvoyProxy)
    (h : Recorded pj (fun acts s a t => WritesSaved acts s a t ∧ ChangesAwaited p.key acts s t) acts s)
    (hp : s.world.api.envoyProxies.get? p.key = some p) (hout : ¬s.Outstanding p.key)
    (hrunning : s.running p.key = none) : ConnectedAgrees s p := by
  rcases (connectedKept_carried pj p.key).of_recorded p.metadata.ns_label h with ho | hkept
  · exact absurd ho hout
  · rw [ConnectedKept, hrunning] at hkept
    exact hkept p hp

namespace Sample

/-- The proxy's Envoy opens a stream, and sends its first request. -/
def opened : Streams :=
  ⟨Function.update Streams.empty.opened 1 (some ⟨some ⟨proxy.key.nodeID⟩, false⟩), .empty⟩

def requested : Streams :=
  ⟨Function.update opened.opened 1 (some ⟨some ⟨proxy.key.nodeID⟩, true⟩),
    Connected.empty.streamRequest (some ⟨proxy.key.nodeID⟩)⟩

theorem connected_requested : requested.connected.isConnected proxy.key.nodeID = true := by decide +kernel

/-- They may do so at any moment of a run. -/
theorem recorded_requested {pj : Protojson} {ok : List Act → System → Act → System → Prop} {acts : List Act} {s : System}
    (h : Recorded pj ok acts s) (hs : s.world.streams = .empty)
    (hok : ∀ acts s' t, s'.queue = s.queue → ok acts s' .other t) :
    ∃ acts, Recorded pj ok acts { s with world := { s.world with streams := requested } } := by
  have hopened := h.step (.other (.stream _ (.opened 1 (some ⟨proxy.key.nodeID⟩)) opened (by rw [hs]; rfl)) rfl)
    (hok _ _ _ rfl)
  exact ⟨_, hopened.step (.other (.stream _ (.request 1) requested rfl) rfl) (hok _ _ _ rfl)⟩

/-- The first request is sent while the first Reconcile of the proxy is queued. -/
def awaited : System := { written with world := { written.world with streams := requested } }

theorem queue_awaited : proxy.key ∈ awaited.queue := by decide +kernel

end Sample

/-- The Reconcile that was queued then writes that the proxy is connected. -/
theorem connected_follows_streams_requested :
    Sample.awaited.world.api.envoyProxies.get? Sample.proxy.key = some Sample.proxy ∧
    Sample.proxy.condition? conditionConnected = none ∧
    ∃ acts s p c, Recorded .reference (fun acts s a t => WritesSaved acts s a t ∧ ChangesAwaited p.key acts s t) acts s ∧
      Relation.ReflTransGen (Works .reference World.AnswersWell) Sample.awaited s ∧ s.Rests p ∧
      p.key = Sample.proxy.key ∧ p.condition? conditionConnected = some c ∧ c.status = .true ∧
      s.world.streams.connected.isConnected p.key.nodeID = true := by
  have hok := calm_awaited Sample.proxy.key
  obtain ⟨acts, hwritten⟩ := Sample.recorded_written .reference hok
  have hawaited : ∃ acts, Recorded .reference _ acts Sample.awaited := Sample.recorded_requested hwritten rfl
    fun _ _ _ hq => ⟨trivial, fun _ => Or.inl (Or.inl (hq ▸ Sample.queue_awaited))⟩
  obtain ⟨acts, s, p, hrec, hrun, hrests, hkey, hstreams, -⟩ := hok.rests Protojson.reference_lawful hawaited
    (show _ = some Sample.proxy from rfl) Sample.decodable_written Sample.queue_awaited rfl
  rw [← hkey] at hrec
  have hconnected : s.world.streams.connected.isConnected p.key.nodeID = true := by
    rw [hstreams, hkey]
    exact Sample.connected_requested
  obtain ⟨c, hc, hiff⟩ := connected_follows_streams_of_awaited p hrec hrests.stored hrests.settled hrests.running
  exact ⟨rfl, rfl, acts, s, p, c, hrec, hrun, hrests, hkey, hc, hiff.mpr hconnected, hconnected⟩

/-- A stream that opens after the last Reconcile is not seen: the proxy streams, and its condition says it
    does not. -/
theorem connected_does_not_follow_streams : ¬∀ (pj : Protojson) (acts : List Act) (s : System) (p : EnvoyProxy),
    pj.Lawful → Recorded pj WritesSaved acts s → s.world.api.envoyProxies.get? p.key = some p → ¬s.Outstanding p.key →
    s.running p.key = none → ConnectedAgrees s p := by
  intro h
  have hok := calm_writesSaved Sample.proxy.key
  obtain ⟨acts, t, q, hrec, -, hrests, hkey, hstreams, htold⟩ := hok.rests Protojson.reference_lawful
    (Sample.recorded_written .reference hok) rfl Sample.decodable_written (by decide +kernel) rfl
  obtain ⟨acts, hstreaming⟩ := Sample.recorded_requested hrec hstreams fun _ _ _ _ => trivial
  obtain ⟨c, hc, hiff⟩ := h _ acts _ q Protojson.reference_lawful hstreaming hrests.stored hrests.settled hrests.running
  cases (condition?_of_told htold).symm.trans hc
  exact absurd (hiff.mpr (hkey ▸ Sample.connected_requested)) nofun

end EnvoyMesh
