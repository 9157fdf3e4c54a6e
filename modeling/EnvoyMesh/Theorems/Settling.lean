import EnvoyMesh.Theorems.StatusWrites
import EnvoyMesh.Theorems.Succeeding

/-! # Settling down

What a proxy is to be told does not change while nobody else acts. A Reconcile that reads the objects as they
are tells it, and once it has been told, telling it again changes nothing. -/

namespace EnvoyMesh
open Prog

/-! ### Conditions -/

/-- The condition is the first of its type. -/
def Holds (c : Condition) (conditions : List Condition) : Prop := conditions.find? (·.type = c.type) = some c

section Holds
variable {c d : Condition} {conditions : List Condition}

theorem holds_setStatusCondition : Holds c (setStatusCondition conditions c) := by
  rw [Holds, find?_setStatusCondition, if_pos rfl]

theorem setStatusCondition_eq_iff : setStatusCondition conditions c = conditions ↔ Holds c conditions := by
  refine ⟨fun h => h ▸ holds_setStatusCondition, fun h => ?_⟩
  induction conditions with
  | nil => cases h
  | cons d conditions ih =>
    rw [setStatusCondition]
    rw [Holds, List.find?_cons] at h
    split
    · next htype =>
      simp only [htype, decide_true] at h
      rw [Option.some.inj h]
    · next htype =>
      simp only [htype, decide_false] at h
      rw [ih h]

/-- Setting a condition leaves those of other types alone. -/
theorem Holds.set (h : Holds c conditions) (hne : d.type ≠ c.type) : Holds c (setStatusCondition conditions d) := by
  rw [Holds, find?_setStatusCondition, if_neg hne]
  exact h

end Holds

/-! ### What a proxy is told -/

namespace EnvoyProxy

def toldConnected (connected : Bool) (ep : EnvoyProxy) : EnvoyProxy :=
  ep.withCondition conditionConnected (if connected then .true else .false) "StreamStatus" ""

def toldReady (version : String) (ep : EnvoyProxy) : EnvoyProxy :=
  ep.withCondition conditionReady .true "SnapshotReady" ("version=" ++ version)

/-- How many of the two conditions the proxy still has to be told. -/
def unmet (connected : Bool) (version : String) (p : EnvoyProxy) : Nat :=
  (if (p.toldConnected connected).status = p.status then 0 else 1) +
    if (p.toldReady version).status = p.status then 0 else 1

end EnvoyProxy

section Told
variable {p q : EnvoyProxy} {condType condType' : String} {status status' : ConditionStatus}
  {reason msg reason' msg' : String} {connected : Bool} {version : String}

theorem withCondition_status_eq_iff : (p.withCondition condType status reason msg).status = p.status ↔
    p.status.observedGeneration = p.generation ∧
      Holds ⟨condType, status, reason, msg, p.generation⟩ p.status.conditions := by
  rw [← setStatusCondition_eq_iff, EnvoyProxy.withCondition]
  cases p.status
  simp only [EnvoyProxyStatus.mk.injEq]
  exact and_congr_left' eq_comm

theorem condition?_of_told (h : (p.withCondition condType status reason msg).status = p.status) :
    p.condition? condType = some ⟨condType, status, reason, msg, p.generation⟩ := (withCondition_status_eq_iff.mp h).2

/-- A proxy that has just been told need not be told again. -/
theorem told_self (hgen : q.generation = p.generation)
    (hq : q.status = (p.withCondition condType status reason msg).status) :
    (q.withCondition condType status reason msg).status = q.status := by
  rw [withCondition_status_eq_iff, hq, hgen]
  exact ⟨rfl, holds_setStatusCondition⟩

/-- What it has been told stays when it is told something else. -/
theorem told_other (hne : condType' ≠ condType) (hgen : q.generation = p.generation)
    (hq : q.status = (p.withCondition condType' status' reason' msg').status)
    (h : (p.withCondition condType status reason msg).status = p.status) :
    (q.withCondition condType status reason msg).status = q.status := by
  rw [withCondition_status_eq_iff] at h
  rw [withCondition_status_eq_iff, hq, hgen]
  exact ⟨rfl, h.2.set hne⟩

theorem unmet_le : p.unmet connected version ≤ 2 := by
  unfold EnvoyProxy.unmet
  split <;> split <;> omega

theorem unmet_lt_of_connected (hgen : q.generation = p.generation) (hq : q.status = (p.toldConnected connected).status)
    (hne : p.status ≠ q.status) : q.unmet connected version < p.unmet connected version := by
  have hconn : (q.toldConnected connected).status = q.status := told_self hgen hq
  have hnot : (p.toldConnected connected).status ≠ p.status := fun h => hne (h.symm.trans hq.symm)
  unfold EnvoyProxy.unmet
  rw [if_pos hconn, if_neg hnot]
  by_cases hready : (p.toldReady version).status = p.status
  · have hready' : (q.toldReady version).status = q.status := told_other (by decide) hgen hq hready
    rw [if_pos hready, if_pos hready']
    omega
  · rw [if_neg hready]
    split <;> omega

theorem unmet_lt_of_ready (hgen : q.generation = p.generation) (hq : q.status = (p.toldReady version).status)
    (hne : p.status ≠ q.status) : q.unmet connected version < p.unmet connected version := by
  have hready : (q.toldReady version).status = q.status := told_self hgen hq
  have hnot : (p.toldReady version).status ≠ p.status := fun h => hne (h.symm.trans hq.symm)
  unfold EnvoyProxy.unmet
  rw [if_pos hready, if_neg hnot]
  by_cases hconn : (p.toldConnected connected).status = p.status
  · have hconn' : (q.toldConnected connected).status = q.status := told_other (by decide) hgen hq hconn
    rw [if_pos hconn, if_pos hconn']
    omega
  · rw [if_neg hconn]
    split <;> omega

theorem unmet_lt_of_both (hgen : q.generation = p.generation)
    (hq : q.status = ((p.toldConnected connected).toldReady version).status) (hne : p.status ≠ q.status) :
    q.unmet connected version < p.unmet connected version := by
  have hready : (q.toldReady version).status = q.status := told_self (p := p.toldConnected connected) hgen hq
  have hconn : (q.toldConnected connected).status = q.status :=
    told_other (p := p.toldConnected connected) (by decide) hgen hq (told_self (p := p) rfl rfl)
  have hzero : q.unmet connected version = 0 := by
    unfold EnvoyProxy.unmet
    rw [if_pos hconn, if_pos hready]
  rw [hzero]
  refine Nat.pos_of_ne_zero fun h => hne ?_
  -- a proxy that has been told both has the status that is written
  unfold EnvoyProxy.unmet at h
  have hp : (p.toldConnected connected).status = p.status := by
    by_contra hn
    rw [if_neg hn] at h
    omega
  have hp' : (p.toldReady version).status = p.status := by
    by_contra hn
    rw [if_neg hn] at h
    omega
  have hboth : ((p.toldConnected connected).toldReady version).status = (p.toldConnected connected).status :=
    told_other (p := p) (by decide) rfl rfl hp'
  rw [hq, hboth, hp]

end Told

/-! ### Telling it -/

section Telling
variable {w w' : World} {p q : EnvoyProxy}

theorem SameLists.decodable {pj : Protojson} {a b : API} {key : NamespacedName} (h : SameLists a b)
    (hdec : Decodable pj a key) : Decodable pj b key := by
  obtain ⟨ps, rfl⟩ := h
  exact ⟨hdec.listeners, hdec.clusters, hdec.routes, hdec.scopedRoutes, hdec.assignments⟩

theorem answersSaved_of_reads (w : World) (c : Call) (r : c.Answer) (hc : c.isRead) (hr : w.api.ReadsWell c r) :
    w.AnswersSaved c r w := by
  refine ⟨answersWell_of_reads w c r hc hr, ?_⟩
  cases c <;> first | exact hc.elim | rfl

theorem answersSaved_of_unchanged {condType : String} {status : ConditionStatus} {reason msg : String}
    (hp : w.api.envoyProxies.get? p.key = some p) (hst : p.status = (p.withCondition condType status reason msg).status) :
    w.AnswersSaved (.updateStatus (p.withCondition condType status reason msg)) (.ok p) w :=
  ⟨⟨Or.inr ⟨p, hp, rfl, Or.inl ⟨hst, rfl, rfl⟩⟩, trivial⟩, rfl⟩

/-- The objects that are listed stay, the proxy is stored as `q`, and a notification of it is left unless nothing has
    changed. -/
structure Saves (w w' : World) (p q : EnvoyProxy) : Prop where
  lists : SameLists w.api w'.api
  streams : w'.streams = w.streams
  stored : w'.api.envoyProxies.get? p.key = some q
  events : ∃ es, w'.events = w.events ++ es ∧ (q = p ∨ ∃ e ∈ es, ∀ clusters, p.key ∈ e.requests clusters)

/-- A status write of the stored proxy can succeed. -/
theorem exec_saves (condType : String) (status : ConditionStatus) (reason msg : String)
    (hp : w.api.envoyProxies.get? p.key = some p) : ∃ w' q,
    (setCondition p condType status reason msg).Exec World.AnswersSaved w w' q ∧ Saves w w' p q ∧
      q.generation = p.generation ∧ q.status = (p.withCondition condType status reason msg).status := by
  by_cases hst : p.status = (p.withCondition condType status reason msg).status
  · refine ⟨w, p, ⟨.ok p, w, answersSaved_of_unchanged hp hst, rfl, rfl⟩, ?_, rfl, hst⟩
    exact ⟨.refl _, rfl, hp, [], (List.append_nil _).symm, Or.inl rfl⟩
  · let q := p.withStatus (p.withCondition condType status reason msg).status (p.metadata.resourceVersion ++ "0")
    let e : Event := ⟨some (.envoyProxy p), some (.envoyProxy q)⟩
    let w' := { w with api := w.api.put (.envoyProxy q), events := w.events ++ [e] }
    refine ⟨w', q, ⟨.ok q, w', ⟨⟨Or.inr ⟨p, hp, rfl, Or.inr ⟨hst, _, rfl, rfl⟩⟩, trivial⟩, rfl⟩, rfl, rfl⟩,
      ⟨⟨_, rfl⟩, rfl, ?_, [e], rfl, Or.inr ⟨e, List.mem_cons_self, fun clusters => ?_⟩⟩, rfl, rfl⟩
    · exact (Store.get?_put ..).trans (if_pos rfl)
    · simp [e, Event.requests, Event.objects, Object.requests]

theorem Saves.trans {w'' : World} {q' : EnvoyProxy} (h : Saves w w' p q) (h' : Saves w' w'' q q') : Saves w w'' p q' := by
  have hkey : q.key = p.key := key_of_stored h.stored
  obtain ⟨es, hes, htold⟩ := h.events
  obtain ⟨es', hes', htold'⟩ := h'.events
  refine ⟨h.lists.trans h'.lists, h'.streams.trans h.streams, hkey ▸ h'.stored, es ++ es', ?_, ?_⟩
  · rw [hes', hes, List.append_assoc]
  · rcases htold' with rfl | ⟨e, he, hreq⟩
    · rcases htold with rfl | ⟨e, he, hreq⟩
      · exact Or.inl rfl
      · exact Or.inr ⟨e, List.mem_append_left _ he, hreq⟩
    · exact Or.inr ⟨e, List.mem_append_right _ he, hkey ▸ hreq⟩

/-- A Reconcile can report: the proxy has then been told both conditions. -/
theorem exec_report_saves (hp : w.api.envoyProxies.get? p.key = some p) (version : String) : ∃ w' q,
    (report p version (.ok ())).Exec World.AnswersSaved w w' (.ok ()) ∧ Saves w w' p q ∧
      (q.toldConnected (w.streams.connected.isConnected p.key.nodeID)).status = q.status ∧
      (q.toldReady version).status = q.status := by
  obtain ⟨w₁, p₁, hexec₁, hsaves₁, hgen₁, hst₁⟩ := exec_saves conditionConnected
    (if w.streams.connected.isConnected p.key.nodeID then .true else .false) "StreamStatus" "" hp
  have hp₁ : w₁.api.envoyProxies.get? p₁.key = some p₁ := key_of_stored hsaves₁.stored ▸ hsaves₁.stored
  obtain ⟨w₂, p₂, hexec₂, hsaves₂, hgen₂, hst₂⟩ := exec_saves conditionReady .true "SnapshotReady"
    ("version=" ++ version) hp₁
  refine ⟨w₂, p₂, ?_, hsaves₁.trans hsaves₂, ?_, told_self hgen₂ hst₂⟩
  · rw [report_ok]
    exact ⟨_, w, ⟨⟨⟨rfl, rfl⟩, trivial⟩, rfl⟩, exec_bind.mpr ⟨p₁, w₁, hexec₁, exec_bind.mpr ⟨p₂, w₂, hexec₂, rfl, rfl⟩⟩⟩
  · exact told_other (by decide) hgen₂ hst₂ (told_self hgen₁ hst₁)

/-- So can a whole Reconcile, with any selection of its objects. -/
theorem exec_reconcile_saves {pj : Protojson} (hpj : pj.Lawful) (hp : w.api.envoyProxies.get? p.key = some p)
    (hdec : Decodable pj w.api p.key) {sel : Selected} (hsel : Selects w.api p.key sel) : ∃ w' q,
    (reconcile pj p.key).Exec World.AnswersSaved w w' (.ok ()) ∧ Saves w w' p q ∧
      (q.toldConnected (w.streams.connected.isConnected p.key.nodeID)).status = q.status ∧
      (q.toldReady sel.version).status = q.status := by
  let w₀ := { w with cache := Function.update w.cache p.key.nodeID (some (newSnapshot sel.version (sel.resources pj))) }
  obtain ⟨w', q, hexec, hsaves, htold⟩ := exec_report_saves (w := w₀) hp sel.version
  refine ⟨w', q, ?_, ⟨hsaves.lists, hsaves.streams, hsaves.stored, hsaves.events⟩, htold⟩
  exact exec_of_report answersSaved_of_reads (fun _ _ _ => ⟨⟨rfl, _, rfl⟩, rfl⟩) hpj hp hdec hsel hexec

/-- A Reconcile of a proxy that has been told changes its cache entry only. -/
theorem exec_settled {pj : Protojson} (hpj : pj.Lawful) (hp : w.api.envoyProxies.get? p.key = some p)
    (hdec : Decodable pj w.api p.key) {sel : Selected} (hsel : Selects w.api p.key sel)
    (hconn : (p.toldConnected (w.streams.connected.isConnected p.key.nodeID)).status = p.status)
    (hready : (p.toldReady sel.version).status = p.status) :
    (reconcile pj p.key).Exec World.AnswersSaved w
      { w with cache := Function.update w.cache p.key.nodeID (some (newSnapshot sel.version (sel.resources pj))) }
      (.ok ()) := by
  refine exec_of_report answersSaved_of_reads (fun _ _ _ => ⟨⟨rfl, _, rfl⟩, rfl⟩) hpj hp hdec hsel ?_
  rw [report_ok]
  refine ⟨_, _, ⟨⟨⟨rfl, rfl⟩, trivial⟩, rfl⟩, ?_⟩
  refine exec_bind.mpr ⟨p, _, ⟨.ok p, _, answersSaved_of_unchanged hp hconn.symm, rfl, rfl⟩, ?_⟩
  exact exec_bind.mpr ⟨p, _, ⟨.ok p, _, answersSaved_of_unchanged hp hready.symm, rfl, rfl⟩, rfl, rfl⟩

end Telling

/-! ### Reconciles on track -/

/-- What remains of a Reconcile of `key` that has seen the objects as they are stored now, and that reports what the
    proxy is to be told. -/
inductive OnTrack (pj : Protojson) (key : NamespacedName) (connected : Bool) (version : String) (a : API) :
    Calls (Except String Unit) → Prop where
  | reading {Q : Calls Prepared} (h : Reaches a.ReadsWell (prepare pj key).run Q) :
      OnTrack pj key connected version a (Q >>= finish)
  | asking {p : EnvoyProxy} (hp : a.envoyProxies.get? key = some p) :
      OnTrack pj key connected version a (report p version (.ok ()))
  | connecting {p : EnvoyProxy} (hp : a.envoyProxies.get? key = some p) :
      OnTrack pj key connected version a (reportConnected p version connected)
  -- the second form is that of a write which has failed
  | writing {p ep : EnvoyProxy} (hp : a.envoyProxies.get? key = some p) (hep : ep = p ∨ ep = p.toldConnected connected) :
      OnTrack pj key connected version a (reportReady ep version)
  | ended : OnTrack pj key connected version a (ret (.ok ()))

section OnTrack
variable {pj : Protojson} {key : NamespacedName} {connected : Bool} {version : String} {a b : API}
  {P : Calls (Except String Unit)}

theorem onTrack_start : OnTrack pj key connected version a (reconcile pj key) := .reading .refl

theorem SameLists.readsWell (h : SameLists a b) (hp : b.envoyProxies.get? key = a.envoyProxies.get? key) :
    Matches key (a.clustersOf key) a.ReadsWell b.ReadsWell := by
  have hitems {α : Type} {p : α → Bool} {r : Except String (List α)} (hr : ∃ l, r = .ok l) : SameItems p r r := by
    obtain ⟨l, rfl⟩ := hr
    exact Or.inl ⟨l, l, rfl, rfl, rfl⟩
  obtain ⟨ps, rfl⟩ := h
  exact {
    get := fun r hr => by
      refine ⟨?_, hr.2⟩
      have hreads := hr.1
      simp only [API.Reads] at hreads ⊢
      rwa [hp]
    found := fun ep hr => key_of_reads hr.1
    listeners := fun r hr => ⟨r, hr, hitems hr.2⟩
    clusters := fun r hr => ⟨r, hr, hitems hr.2⟩
    targeting := fun l hl c hc => ((lists_ok.mp hl.1).filter _).mem_iff.mp hc
    routes := fun r hr => ⟨r, hr, hitems hr.2⟩
    scopedRoutes := fun r hr => ⟨r, hr, hitems hr.2⟩
    assignments := fun r hr => ⟨r, hr, hitems hr.2⟩
    slices := fun c _ ref _ r hr => hr
    others := fun c r hc hr => by cases c <;> first | exact absurd trivial hc | exact hr }

theorem OnTrack.of_same (h : OnTrack pj key connected version a P) (hl : SameLists a b)
    (hp : b.envoyProxies.get? key = a.envoyProxies.get? key) : OnTrack pj key connected version b P := by
  cases h with
  | reading h => exact .reading ((hl.readsWell hp).sim_prepare.reaches h).1
  | asking h => exact .asking (hp.trans h)
  | connecting h => exact .connecting (hp.trans h)
  | writing h hep => exact .writing (hp.trans h) hep
  | ended => exact .ended

/-- It does not fail. -/
theorem OnTrack.not_error (hpj : pj.Lawful) {e : String} : ¬OnTrack pj key connected version a (ret (.error e)) := by
  intro h
  generalize hP : (ret (.error e) : Calls (Except String Unit)) = P at h
  cases h with
  | @reading Q h =>
    cases Q with
    | call c k => cases hP
    | ret p =>
      obtain ⟨x, rfl⟩ := total_prepare hpj p (h.result rfl)
      match x, hP with
      | some (ep, version', .error e'), hP =>
        rw [ret_bind, finish, publish_error, setCondition_bind] at hP
        cases hP
  | asking => cases hP
  | connecting =>
    rw [reportConnected_eq] at hP
    cases hP
  | writing =>
    rw [reportReady_eq] at hP
    cases hP
  | ended => cases hP

/-- After a call the objects are as they were and nothing was notified, or the proxy has been told something. -/
def Settles (connected : Bool) (version : String) (key : NamespacedName) (w w' : World) : Prop :=
  (w'.api = w.api ∧ w'.events = w.events) ∨ ∃ p q, w.api.envoyProxies.get? key = some p ∧
    w'.api.envoyProxies.get? key = some q ∧ q.unmet connected version < p.unmet connected version

section Answer
variable {w w' : World} {c : Call} {k : c.Answer → Calls (Except String Unit)} {r : c.Answer}

/-- A status write that starts from the stored proxy `p` leaves it, or stores it with the new status. -/
theorem status_cases {p ep : EnvoyProxy} {r : Except String EnvoyProxy} (hw : w.Answers (.updateStatus ep) r w')
    (hp : w.api.envoyProxies.get? ep.key = some p) :
    (w' = w ∧ ((∃ e, r = .error e) ∨ r = .ok p)) ∨
    ∃ q, q.generation = p.generation ∧ q.status = ep.status ∧ p.status ≠ q.status ∧ r = .ok q ∧
      w'.api.envoyProxies.get? ep.key = some q := by
  rcases hw with ⟨e, rfl, rfl⟩ | ⟨old, hold, -, ⟨-, rfl, rfl⟩ | ⟨hne, rv, rfl, rfl⟩⟩
  · exact Or.inl ⟨rfl, Or.inl ⟨e, rfl⟩⟩
  · cases hp.symm.trans hold
    exact Or.inl ⟨rfl, Or.inr rfl⟩
  · cases hp.symm.trans hold
    have hkey : (p.withStatus ep.status rv).key = ep.key := key_of_stored (p := p) hold
    exact Or.inr ⟨p.withStatus ep.status rv, rfl, rfl, hne, rfl, by rw [API.put, Store.get?_put, if_pos hkey]⟩

theorem OnTrack.answer_reading (connected : Bool) (hpj : pj.Lawful) {Q : Calls Prepared}
    (h : Reaches w.api.ReadsWell (prepare pj key).run Q) (hQ : call c k = Q >>= finish) (hw : w.AnswersWell c r w')
    (hdec : ∀ p, w.api.envoyProxies.get? key = some p → Decodable pj w.api key)
    (hversion : ∀ p, w.api.envoyProxies.get? key = some p → ∀ c,
      (collect pj key.ns key.name).run.Result w.api.Reads (.ok c) → c.version = version) :
    OnTrack pj key connected version w'.api (k r) ∧ w'.api = w.api ∧ w'.events = w.events := by
  cases Q with
  | call c' k' =>
    injection hQ with hc hk
    subst hc
    rw [eq_of_heq hk]
    obtain ⟨rfl, hr⟩ := answers_of_isRead (h.uses prepare_uses).1 hw.1
    exact ⟨.reading (h.answer ⟨hr, hw.2⟩), rfl, rfl⟩
  | ret p =>
    have hres : (prepare pj key).run.Result w.api.ReadsWell p := h.result rfl
    obtain ⟨x, rfl⟩ := total_prepare hpj p hres
    match x, hres with
    | none, _ => cases hQ
    | some (ep, version', built), hres =>
      obtain ⟨hget, rfl, col, hcol, rfl, rfl⟩ := result_prepare_found (hres.mono fun _ _ hr => hr.1)
      obtain ⟨s, raws, hs, hm, rfl⟩ := (collect_iff w.api.listing).mp hcol
      rw [ret_bind, finish, (build_iff hpj hs hm).mpr ⟨hdec ep hget, rfl⟩, publish_ok, hversion ep hget _ hcol] at hQ
      cases hQ
      obtain ⟨rfl, _, rfl⟩ := hw
      exact ⟨.asking hget, rfl, rfl⟩

/-- The answer to its next call keeps a Reconcile on track. -/
theorem OnTrack.answer (hpj : pj.Lawful) (h : OnTrack pj key connected version w.api (call c k)) (hw : w.AnswersWell c r w')
    (hdec : ∀ p, w.api.envoyProxies.get? key = some p → Decodable pj w.api key)
    (hversion : ∀ p, w.api.envoyProxies.get? key = some p → ∀ c,
      (collect pj key.ns key.name).run.Result w.api.Reads (.ok c) → c.version = version)
    (hconn : w.streams.connected.isConnected key.nodeID = connected) :
    OnTrack pj key connected version w'.api (k r) ∧ Settles connected version key w w' := by
  generalize hP : call c k = P at h
  cases h with
  | reading h =>
    obtain ⟨hk, hsame⟩ := OnTrack.answer_reading connected hpj h hP hw hdec hversion
    exact ⟨hk, Or.inl hsame⟩
  | asking hp =>
    cases hP
    obtain ⟨⟨rfl, rfl⟩, -⟩ := hw
    obtain rfl := key_of_stored hp
    rw [hconn]
    exact ⟨.connecting hp, Or.inl ⟨rfl, rfl⟩⟩
  | @connecting p hp =>
    obtain rfl := key_of_stored hp
    rw [reportConnected_eq] at hP
    cases hP
    rcases status_cases hw.1 hp with ⟨rfl, ⟨e, rfl⟩ | rfl⟩ | ⟨q, hgen, hst, hne, rfl, hq⟩
    · exact ⟨.writing hp (Or.inr rfl), Or.inl ⟨rfl, rfl⟩⟩
    · exact ⟨.writing hp (Or.inl rfl), Or.inl ⟨rfl, rfl⟩⟩
    · exact ⟨.writing hq (Or.inl rfl), Or.inr ⟨p, q, hp, hq, unmet_lt_of_connected hgen hst hne⟩⟩
  | @writing p ep hp hep =>
    obtain rfl := key_of_stored hp
    rw [reportReady_eq] at hP
    cases hP
    refine ⟨.ended, ?_⟩
    rcases hep with rfl | rfl
    · rcases status_cases hw.1 hp with ⟨rfl, -⟩ | ⟨q, hgen, hst, hne, -, hq⟩
      · exact Or.inl ⟨rfl, rfl⟩
      · exact Or.inr ⟨ep, q, hp, hq, unmet_lt_of_ready hgen hst hne⟩
    · rcases status_cases hw.1 hp with ⟨rfl, -⟩ | ⟨q, hgen, hst, hne, -, hq⟩
      · exact Or.inl ⟨rfl, rfl⟩
      · exact Or.inr ⟨p, q, hp, hq, unmet_lt_of_both hgen hst hne⟩
  | ended => cases hP

end Answer

end OnTrack

end EnvoyMesh
