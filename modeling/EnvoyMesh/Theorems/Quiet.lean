import EnvoyMesh.Lib.Endless
import EnvoyMesh.Theorems.NoLostUpdate
import EnvoyMesh.Theorems.Settling
import Mathlib.Algebra.BigOperators.Group.Finset.Basic
import Mathlib.Algebra.Order.BigOperators.Group.Finset
import Mathlib.Data.List.Permutation
import Mathlib.Data.Set.Finite.Lattice
import Mathlib.Logic.Hydra

/-! # Coming to rest

A Reconcile writes the status of the proxy it watches, so it starts itself anew. If nobody else acts this ends:
a status that is written anew pays for the Reconciles that it leads to, and there are only so many of them. -/

namespace EnvoyMesh
open Prog

/-- The steps of a system that is left alone and in which no read and no `SetSnapshot` fails. -/
abbrev Quiet (pj : Protojson) : System → System → Prop := Works pj World.AnswersWell

structure System.AtRest (s : System) : Prop where
  events : s.world.events = []
  queue : s.queue = []
  running : ∀ key, s.running key = none

section Basic
variable {pj : Protojson} {s t : System}

theorem Quiet.step (h : Quiet pj s t) : Step pj s t := Works.step h fun _ _ _ _ hw => hw.1

/-- While the system is not at rest it can go on. -/
theorem atRest_of_not_quiet (h : ∀ t, ¬Quiet pj s t) : s.AtRest := by
  have hrunning : ∀ key, s.running key = none := by
    intro key
    cases hr : s.running key with
    | none => rfl
    | some P =>
      exfalso
      match P, hr with
      | .call c k, hr => exact h _ (.call s key c k _ _ hr (s.world.serve_answers c))
      | .ret (.ok ()), hr => exact h _ (.done s key hr)
      | .ret (.error e), hr => exact h _ (.failed s key e hr)
  refine ⟨?_, ?_, hrunning⟩
  · cases he : s.world.events with
    | nil => rfl
    | cons e events => exact absurd (.deliver s [] events e s.world.api.clusters.items he (List.Perm.refl _)) (h _)
  · cases hq : s.queue with
    | nil => rfl
    | cons key queue => exact absurd (.start s key (hq ▸ List.mem_cons_self) (hrunning key)) (h _)

theorem running_finite (h : Reachable pj s) : {key | s.running key ≠ none}.Finite := by
  have hupdate {s : System} (hfin : {key | s.running key ≠ none}.Finite) (key : NamespacedName)
      (P : Option (Calls (Except String Unit))) : {key' | Function.update s.running key P key' ≠ none}.Finite := by
    refine (hfin.insert key).subset fun key' hne => ?_
    by_cases hk : key' = key
    · exact Or.inl hk
    · rw [Set.mem_ofPred_eq, Function.update_of_ne hk] at hne
      exact Or.inr hne
  induction h with
  | empty => exact Set.finite_empty.subset fun key hne => absurd rfl hne
  | step _ hs ih =>
    cases hs with
    | write | delete | deliver | stream => exact ih
    | start key | call key | done key | failed key => exact hupdate ih key _

end Basic

/-! ### Status writes that are left -/

theorem atMost_setCondition {ep : EnvoyProxy} {condType : String} {status : ConditionStatus} {reason msg : String}
    {f : EnvoyProxy → Calls (Except String Unit)} {n : Nat} (h : ∀ ep, (f ep).AtMost Call.isStatusWrite n) :
    (setCondition ep condType status reason msg >>= f).AtMost Call.isStatusWrite (n + 1) := by
  rw [setCondition_bind]
  exact ⟨n, fun r => h _, Nat.le_succ n, fun _ => Nat.lt_succ_self n⟩

/-- A Reconcile writes the status at most twice. -/
theorem atMost_reconcile {pj : Protojson} {key : NamespacedName} : (reconcile pj key).AtMost Call.isStatusWrite 2 := by
  have hread : (prepare pj key).run.AtMost Call.isStatusWrite 0 := by
    refine Uses.atMost (prepare_uses.mono fun c hc => ?_)
    cases c <;> first | exact hc.elim | exact id
  suffices hfinish : ∀ p, (finish p).AtMost Call.isStatusWrite 2 from hread.bind hfinish
  intro p
  match p with
  | .error e => trivial
  | .ok none => trivial
  | .ok (some (ep, version, .error e)) =>
    rw [finish, publish_error]
    exact atMost_setCondition fun _ => trivial
  | .ok (some (ep, version, .ok snap)) =>
    rw [finish, publish_ok]
    refine ⟨2, fun r => ?_, le_rfl, False.elim⟩
    cases r with
    | error e =>
      rw [report_error]
      exact (atMost_setCondition (n := 1) fun _ => trivial)
    | ok _ =>
      rw [report_ok]
      refine ⟨2, fun b => ?_, le_rfl, False.elim⟩
      exact atMost_setCondition fun _ => atMost_setCondition fun _ => trivial

noncomputable def writesLeft (P : Calls (Except String Unit)) : Nat := sInf {n | P.AtMost Call.isStatusWrite n}

theorem writesLeft_answer {c : Call} {k : c.Answer → Calls (Except String Unit)} {n : Nat}
    (h : (call c k).AtMost Call.isStatusWrite n) (r : c.Answer) :
    writesLeft (k r) ≤ writesLeft (call c k) ∧ (c.isStatusWrite → writesLeft (k r) < writesLeft (call c k)) := by
  have hleast : writesLeft (call c k) ∈ {n | (call c k).AtMost Call.isStatusWrite n} := Nat.sInf_mem ⟨n, h⟩
  obtain ⟨m, hk, hle, hlt⟩ := hleast
  have hm : writesLeft (k r) ≤ m := Nat.sInf_le (hk r)
  exact ⟨hm.trans hle, fun hc => hm.trans_lt (hlt hc)⟩

theorem key_of_updateStatus {pj : Protojson} {s : System} (h : Reachable pj s) {key : NamespacedName} {ep : EnvoyProxy}
    {k : Except String EnvoyProxy → Calls (Except String Unit)}
    (hr : s.running key = some (.call (.updateStatus ep) k)) : ep.key = key := by
  obtain ⟨τ, i, rfl⟩ := h.timeline
  obtain ⟨a, -, hdraft⟩ := Timeline.draft_of_call hr
  exact Timeline.key_of_draft hdraft

/-! ### What does not change -/

/-- What an answer to a call of the Reconcile of `key` changes in the objects and the notifications. -/
theorem answers_own {w w' : World} (key : NamespacedName) {c : Call} {r : c.Answer} (hw : w.Answers c r w')
    (hkey : ∀ ep, c = .updateStatus ep → ep.key = key) :
    SameLists w.api w'.api ∧ (∀ key', key' ≠ key → w'.api.envoyProxies.get? key' = w.api.envoyProxies.get? key') ∧
      ((w'.api.envoyProxies.get? key).isSome → (w.api.envoyProxies.get? key).isSome) ∧
      ∀ e ∈ w'.events, e ∈ w.events ∨ ∀ clusters, ∀ key' ∈ e.requests clusters, key' = key := by
  have hsame (h : w'.api = w.api) (he : w'.events = w.events) : SameLists w.api w'.api ∧
      (∀ key', key' ≠ key → w'.api.envoyProxies.get? key' = w.api.envoyProxies.get? key') ∧
      ((w'.api.envoyProxies.get? key).isSome → (w.api.envoyProxies.get? key).isSome) ∧
      ∀ e ∈ w'.events, e ∈ w.events ∨ ∀ clusters, ∀ key' ∈ e.requests clusters, key' = key := by
    rw [h, he]
    exact ⟨.refl _, fun _ _ => rfl, id, fun e hmem => Or.inl hmem⟩
  cases c with
  | updateStatus ep =>
    obtain rfl := hkey ep rfl
    rcases hw with ⟨e, -, rfl⟩ | ⟨old, hold, -, ⟨-, -, rfl⟩ | ⟨-, rv, -, rfl⟩⟩
    · exact hsame rfl rfl
    · exact hsame rfl rfl
    have hk : old.key = ep.key := key_of_stored hold
    refine ⟨⟨_, rfl⟩, fun key' hne => ?_, fun _ => by rw [hold]; rfl, fun e he => ?_⟩
    · exact (Store.get?_put ..).trans (if_neg fun heq => hne (heq.symm.trans hk))
    · rcases List.mem_append.mp he with he | he
      · exact Or.inl he
      · refine Or.inr fun clusters key' hmem => ?_
        rw [List.mem_singleton.mp he] at hmem
        have hmem' : key' = old.key ∨ key' = old.key := by
          simpa [Event.requests, Event.objects, Object.requests, EnvoyProxy.withStatus, EnvoyProxy.key, ObjectMeta.key]
            using hmem
        exact (or_self_iff.mp hmem').trans hk
  | setSnapshot nodeID snap =>
    obtain rfl : w' = _ := hw
    exact hsame rfl rfl
  | _ =>
    obtain ⟨-, rfl⟩ := hw
    exact hsame rfl rfl

/-- A moment of a time in which nobody else acts: the objects are those of `a` but for the statuses of proxies, the
    streams those of `st`, and only the proxies of `K` are of concern. -/
structure Phase (pj : Protojson) (a : API) (st : Streams) (K : Finset NamespacedName) (s : System) : Prop where
  reachable : Reachable pj s
  lists : SameLists a s.world.api
  proxies : ∀ key, (s.world.api.envoyProxies.get? key).isSome → (a.envoyProxies.get? key).isSome
  streams : s.world.streams = st
  queue : ∀ key ∈ s.queue, key ∈ K
  running : ∀ key, s.running key ≠ none → key ∈ K
  events : ∀ e ∈ s.world.events, ∀ clusters, clusters.Perm a.clusters.items → ∀ key ∈ e.requests clusters, key ∈ K

section Phase
variable {pj : Protojson} {a : API} {st : Streams} {K : Finset NamespacedName} {s t : System}

theorem Phase.running_update (h : Phase pj a st K s) {key : NamespacedName} (hkey : key ∈ K)
    {P : Option (Calls (Except String Unit))} (key' : NamespacedName) (hne : Function.update s.running key P key' ≠ none) :
    key' ∈ K := by
  by_cases hk : key' = key
  · exact hk ▸ hkey
  · rw [Function.update_of_ne hk] at hne
    exact h.running key' hne

theorem Phase.key_mem (h : Phase pj a st K s) {key : NamespacedName} {P : Calls (Except String Unit)}
    (hr : s.running key = some P) : key ∈ K := h.running key (hr ▸ Option.some_ne_none P)

theorem Phase.quiet (h : Phase pj a st K s) (hq : Quiet pj s t) : Phase pj a st K t := by
  have hreach := h.reachable.step (Quiet.step hq)
  cases hq with
  | deliver front back e clusters he hc =>
    have hmem : e ∈ s.world.events := he ▸ List.mem_append_right _ List.mem_cons_self
    have hclusters : s.world.api.clusters = a.clusters := by
      obtain ⟨ps, hps⟩ := h.lists
      rw [hps]
    refine ⟨hreach, h.lists, h.proxies, h.streams, fun key hkey => ?_, h.running, fun e' he' => h.events e' ?_⟩
    · rcases mem_enqueue.mp hkey with hkey | hkey
      · exact h.queue key hkey
      · exact h.events e hmem clusters (hclusters ▸ hc) key hkey
    · rw [he]
      rcases List.mem_append.mp he' with he' | he'
      · exact List.mem_append_left _ he'
      · exact List.mem_append_right _ (List.mem_cons_of_mem _ he')
  | start key hmem hr =>
    refine ⟨hreach, h.lists, h.proxies, h.streams, fun key' hkey' => ?_, h.running_update (h.queue key hmem), h.events⟩
    exact h.queue key' (List.mem_filter.mp hkey').1
  | call key c k r w hr hw =>
    obtain ⟨hlists, hothers, hown, hevents⟩ := answers_own key hw.1 fun ep hep => by
      subst hep
      exact key_of_updateStatus h.reachable hr
    refine ⟨hreach, h.lists.trans hlists, fun key' hsome => ?_, (answers_streams hw.1).trans h.streams, h.queue,
      h.running_update (h.key_mem hr), fun e he clusters hc key' hkey' => ?_⟩
    · by_cases hk : key' = key
      · subst hk
        exact h.proxies key' (hown hsome)
      · exact h.proxies key' (hothers key' hk ▸ hsome)
    · rcases hevents e he with he | hreq
      · exact h.events e he clusters hc key' hkey'
      · exact hreq clusters key' hkey' ▸ h.key_mem hr
  | done key hr =>
    exact ⟨hreach, h.lists, h.proxies, h.streams, h.queue, h.running_update (h.key_mem hr), h.events⟩
  | failed key e hr =>
    refine ⟨hreach, h.lists, h.proxies, h.streams, fun key' hkey' => ?_, h.running_update (h.key_mem hr), h.events⟩
    rcases mem_enqueue.mp hkey' with hkey' | hkey'
    · exact h.queue key' hkey'
    · exact List.mem_singleton.mp hkey' ▸ h.key_mem hr

/-- Every reachable state starts such a time. -/
theorem exists_phase (h : Reachable pj s) : ∃ K, Phase pj s.world.api s.world.streams K s := by
  classical
  let requested := s.world.api.clusters.items.permutations.flatMap fun clusters =>
    s.world.events.flatMap fun e => e.requests clusters
  refine ⟨s.queue.toFinset ∪ (running_finite h).toFinset ∪ requested.toFinset, h, .refl _, fun _ => id, rfl,
    fun key hkey => ?_, fun key hkey => ?_, fun e he clusters hc key hkey => ?_⟩
  · simp [hkey]
  · simp [hkey]
  · refine Finset.mem_union_right _ (List.mem_toFinset.mpr (List.mem_flatMap.mpr ⟨clusters, ?_, ?_⟩))
    · exact List.mem_permutations.mpr hc
    · exact List.mem_flatMap.mpr ⟨e, he, hkey⟩

end Phase

/-! ### What is left to do -/

section Measure
variable (pj : Protojson) (a : API) (st : Streams)

/-- The Reconcile of `key` reports what the objects and the streams give. -/
def Tracked (s : System) (key : NamespacedName) (P : Calls (Except String Unit)) : Prop :=
  OnTrack pj key (st.connected.isConnected key.nodeID) (a.stored key).version s.world.api P

/-- What the proxy `key` still has to be told. -/
def untold (s : System) (key : NamespacedName) : Nat :=
  (s.world.api.envoyProxies.get? key).elim 0 fun p => p.unmet (st.connected.isConnected key.nodeID) (a.stored key).version

open Classical in
/-- The status changes of `key` that may still come. One that strays from the track may write what is outdated;
    after each of its writes the proxy may have to be told both conditions anew. -/
noncomputable def owed (s : System) (key : NamespacedName) : Nat :=
  untold a st s key + (s.running key).elim 0 fun P => if Tracked pj a st s key P then 0 else 3 * writesLeft P

open Classical in
noncomputable def strays (s : System) (key : NamespacedName) : Nat :=
  (s.running key).elim 0 fun P => if Tracked pj a st s key P then 0 else 1

def programs (s : System) (key : NamespacedName) : Multiset (Calls (Except String Unit)) :=
  (s.running key).elim 0 fun P => {P}

/-- What is left to do, in the order of its weight: status changes, Reconciles that stray, notifications,
    requests, and what remains of the Reconciles that run. -/
noncomputable def left (K : Finset NamespacedName) (s : System) :
    Nat × Nat × Nat × Nat × Multiset (Calls (Except String Unit)) :=
  (∑ key ∈ K, owed pj a st s key, ∑ key ∈ K, strays pj a st s key, s.world.events.length, s.queue.length,
    ∑ key ∈ K, programs s key)

def Less : Nat × Nat × Nat × Nat × Multiset (Calls (Except String Unit)) →
    Nat × Nat × Nat × Nat × Multiset (Calls (Except String Unit)) → Prop :=
  Prod.Lex (· < ·) (Prod.Lex (· < ·) (Prod.Lex (· < ·) (Prod.Lex (· < ·) (Relation.CutExpand After))))

theorem wellFounded_less : WellFounded Less :=
  Nat.lt_wfRel.wf.prod_lex (Nat.lt_wfRel.wf.prod_lex (Nat.lt_wfRel.wf.prod_lex
    (Nat.lt_wfRel.wf.prod_lex wellFounded_after.cutExpand)))

theorem lex_of_le {α : Type} {r : α → α → Prop} {m n : Nat} {x y : α} (h : m ≤ n) (hr : r x y) :
    Prod.Lex (· < ·) r (m, x) (n, y) := by
  rcases Nat.lt_or_eq_of_le h with h | rfl
  · exact .left _ _ h
  · exact .right _ hr

variable {pj a st} {K : Finset NamespacedName} {s t : System} {key : NamespacedName}

/-- The two states differ in what concerns the proxy `key` only. -/
structure SameElsewhere (key : NamespacedName) (s t : System) : Prop where
  lists : SameLists s.world.api t.world.api
  proxies : ∀ key', key' ≠ key → t.world.api.envoyProxies.get? key' = s.world.api.envoyProxies.get? key'
  running : ∀ key', key' ≠ key → t.running key' = s.running key'

namespace SameElsewhere

theorem update (queue : List NamespacedName) (P : Option (Calls (Except String Unit))) :
    SameElsewhere key s { s with queue, running := Function.update s.running key P } :=
  ⟨.refl _, fun _ _ => rfl, fun _ hne => Function.update_of_ne hne ..⟩

variable (h : SameElsewhere key s t) {key' : NamespacedName} (hne : key' ≠ key)
include h

section Frame
include hne

theorem tracked : Tracked pj a st t key' = Tracked pj a st s key' :=
  have hp := h.proxies key' hne
  funext fun _ => propext ⟨fun htr => htr.of_same h.lists.symm hp.symm, fun htr => htr.of_same h.lists hp⟩

theorem owed_eq : owed pj a st t key' = owed pj a st s key' := by
  rw [owed, untold, h.proxies key' hne, h.running key' hne, h.tracked hne]
  rfl

theorem strays_eq : strays pj a st t key' = strays pj a st s key' := by
  rw [strays, h.running key' hne, h.tracked hne]
  rfl

end Frame

theorem owed_le (hle : owed pj a st t key ≤ owed pj a st s key) :
    ∑ key' ∈ K, owed pj a st t key' ≤ ∑ key' ∈ K, owed pj a st s key' := by
  refine Finset.sum_le_sum fun key' _ => ?_
  by_cases hk : key' = key
  · exact hk ▸ hle
  · exact (h.owed_eq hk).le

theorem strays_le (hle : strays pj a st t key ≤ strays pj a st s key) :
    ∑ key' ∈ K, strays pj a st t key' ≤ ∑ key' ∈ K, strays pj a st s key' := by
  refine Finset.sum_le_sum fun key' _ => ?_
  by_cases hk : key' = key
  · exact hk ▸ hle
  · exact (h.strays_eq hk).le

theorem less_of_owed (hkey : key ∈ K) (hlt : owed pj a st t key < owed pj a st s key) :
    Less (left pj a st K t) (left pj a st K s) := by
  refine .left _ _ (Finset.sum_lt_sum (fun key' _ => ?_) ⟨key, hkey, hlt⟩)
  by_cases hk : key' = key
  · exact hk ▸ hlt.le
  · exact (h.owed_eq hk).le

theorem less_of_strays (hkey : key ∈ K) (howed : owed pj a st t key ≤ owed pj a st s key)
    (hlt : strays pj a st t key < strays pj a st s key) : Less (left pj a st K t) (left pj a st K s) := by
  refine lex_of_le (h.owed_le howed) (.left _ _ (Finset.sum_lt_sum (fun key' _ => ?_) ⟨key, hkey, hlt⟩))
  by_cases hk : key' = key
  · exact hk ▸ hlt.le
  · exact (h.strays_eq hk).le

theorem less_of_rest (howed : owed pj a st t key ≤ owed pj a st s key)
    (hstrays : strays pj a st t key ≤ strays pj a st s key)
    (hrest : Prod.Lex (· < ·) (Prod.Lex (· < ·) (Relation.CutExpand After)) (left pj a st K t).2.2 (left pj a st K s).2.2) :
    Less (left pj a st K t) (left pj a st K s) :=
  lex_of_le (h.owed_le howed) (lex_of_le (h.strays_le hstrays) hrest)

/-- What remains of the running Reconciles gets less where one of them goes on or ends. -/
theorem cutExpand_programs (hkey : key ∈ K) (hcut : Relation.CutExpand After (programs t key) (programs s key)) :
    Relation.CutExpand After (∑ key ∈ K, programs t key) (∑ key ∈ K, programs s key) := by
  have hsame : ∑ key ∈ K.erase key, programs t key = ∑ key ∈ K.erase key, programs s key :=
    Finset.sum_congr rfl fun key' hmem => by rw [programs, h.running key' (Finset.ne_of_mem_erase hmem), programs]
  rw [← Finset.add_sum_erase K (programs t) hkey, ← Finset.add_sum_erase K (programs s) hkey, hsame]
  exact (Relation.cutExpand_add_right _).mpr hcut

end SameElsewhere

/-! ### Each step takes something away -/

section Running
variable {P : Calls (Except String Unit)} (hr : s.running key = some P)
include hr

theorem owed_of_tracked (htr : Tracked pj a st s key P) :
    owed pj a st s key = untold a st s key ∧ strays pj a st s key = 0 := by
  unfold owed strays
  rw [hr]
  exact ⟨congrArg _ (if_pos htr), if_pos htr⟩

theorem owed_of_stray (hstray : ¬Tracked pj a st s key P) :
    owed pj a st s key = untold a st s key + 3 * writesLeft P ∧ strays pj a st s key = 1 := by
  unfold owed strays
  rw [hr]
  exact ⟨congrArg _ (if_neg hstray), if_neg hstray⟩

/-- A Reconcile owes at most what it owes as a stray. -/
theorem owed_le : owed pj a st s key ≤ untold a st s key + 3 * writesLeft P ∧ strays pj a st s key ≤ 1 := by
  by_cases htr : Tracked pj a st s key P
  · rw [(owed_of_tracked hr htr).1, (owed_of_tracked hr htr).2]
    omega
  · rw [(owed_of_stray hr htr).1, (owed_of_stray hr htr).2]
    exact ⟨le_rfl, le_rfl⟩

end Running

theorem owed_of_none (hr : s.running key = none) :
    owed pj a st s key = untold a st s key ∧ strays pj a st s key = 0 := by
  unfold owed strays
  rw [hr]
  exact ⟨rfl, rfl⟩

theorem untold_le : untold a st s key ≤ 2 := by
  unfold untold
  cases s.world.api.envoyProxies.get? key with
  | none => exact Nat.zero_le 2
  | some p => exact unmet_le

theorem untold_of_api (h : t.world.api = s.world.api) : untold a st t key = untold a st s key := by
  rw [untold, h, untold]

end Measure

/-- All orders of the lists give one version. -/
def OneVersion (pj : Protojson) (a : API) (key : NamespacedName) : Prop :=
  ∀ c c', (collect pj key.ns key.name).run.Result a.Reads (.ok c) →
    (collect pj key.ns key.name).run.Result a.Reads (.ok c') → c.version = c'.version

theorem VersionsCommute.oneVersion {pj : Protojson} {a : API} {key : NamespacedName} (h : VersionsCommute a key) :
    OneVersion pj a key := fun _ _ hc hc' => version_eq_of_commute h (.refl a) hc hc'

/-- Every spec that is collected for a proxy decodes, and the proxy has one version. -/
def API.Orderly (pj : Protojson) (a : API) : Prop :=
  ∀ key, (a.envoyProxies.get? key).isSome → Decodable pj a key ∧ OneVersion pj a key

section Steps
variable {pj : Protojson} {a : API} {st : Streams} {K : Finset NamespacedName} {s t : System} {key : NamespacedName}

theorem SameLists.collect {b : API} (h : SameLists a b) {c : Collected}
    (hc : (collect pj key.ns key.name).run.Result b.Reads (.ok c)) :
    (EnvoyMesh.collect pj key.ns key.name).run.Result a.Reads (.ok c) := by
  obtain ⟨s, raws, hs, hm, rfl⟩ := (collect_iff b.listing).mp hc
  exact (collect_iff a.listing).mpr ⟨s, raws, h.selects hs, hm, rfl⟩

theorem Phase.version (hpj : pj.Lawful) (h : Phase pj a st K s) (hone : OneVersion pj a key) {c : Collected}
    (hc : (collect pj key.ns key.name).run.Result s.world.api.Reads (.ok c)) : c.version = (a.stored key).version := by
  obtain ⟨raws, hm⟩ := exists_marshals hpj (a.stored key).synthesised
  change c.version = ((a.stored key).collected raws).version
  exact hone c _ (h.lists.collect hc) (collect_stored pj a key hm)

theorem Phase.tracked_answer (hpj : pj.Lawful) (hok : a.Orderly pj) (h : Phase pj a st K s) {c : Call}
    {k : c.Answer → Calls (Except String Unit)} {r : c.Answer} {w : World} (htr : Tracked pj a st s key (.call c k))
    (hw : s.world.AnswersWell c r w) :
    OnTrack pj key (st.connected.isConnected key.nodeID) (a.stored key).version w.api (k r) ∧
      Settles (st.connected.isConnected key.nodeID) (a.stored key).version key s.world w := by
  have hkey (p : EnvoyProxy) (hp : s.world.api.envoyProxies.get? key = some p) : Decodable pj a key ∧ OneVersion pj a key :=
    hok key (h.proxies key (by rw [hp]; rfl))
  refine OnTrack.answer hpj htr hw (fun p hp => h.lists.decodable (hkey p hp).1) (fun p hp c hc => ?_) ?_
  · exact h.version hpj (hkey p hp).2 hc
  · rw [h.streams]

/-- A call takes away a status change that may still come, or it makes no stray and no notification. -/
theorem Phase.call_cases (hpj : pj.Lawful) (hok : a.Orderly pj) (h : Phase pj a st K s) {c : Call}
    {k : c.Answer → Calls (Except String Unit)} {r : c.Answer} (hr : s.running key = some (.call c k))
    (hw : s.world.AnswersWell c r t.world) (hrt : t.running key = some (k r)) :
    owed pj a st t key < owed pj a st s key ∨
      (owed pj a st t key ≤ owed pj a st s key ∧ strays pj a st t key ≤ strays pj a st s key ∧
        t.world.events = s.world.events) := by
  by_cases htr : Tracked pj a st s key (.call c k)
  · obtain ⟨hk, hsettles⟩ := h.tracked_answer hpj hok htr hw
    obtain ⟨howed, hstrays⟩ := owed_of_tracked hr htr
    obtain ⟨howed', hstrays'⟩ := owed_of_tracked hrt hk
    rw [howed, howed', hstrays, hstrays']
    rcases hsettles with ⟨hapi, hevents⟩ | ⟨p, q, hp, hq, hlt⟩
    · exact Or.inr ⟨(untold_of_api hapi).le, le_rfl, hevents⟩
    · left
      unfold untold
      rw [hp, hq]
      exact hlt
  · -- what a stray writes may undo what the proxy was told, and there is one write less to come
    obtain ⟨howed, hstrays⟩ := owed_of_stray hr htr
    obtain ⟨howed', hstrays'⟩ : owed pj a st t key ≤ _ ∧ strays pj a st t key ≤ 1 := owed_le hrt
    have hmost := (reachable_runs h.reachable key _ hr).atMost atMost_reconcile
    obtain ⟨hle, hlt⟩ := writesLeft_answer hmost r
    rw [howed, hstrays]
    by_cases hc : c.isStatusWrite
    · have htold : untold a st t key ≤ 2 := untold_le
      have hless := hlt hc
      left
      omega
    · obtain ⟨hapi, hevents⟩ := answers_api hw.1 hc
      have htold : untold a st t key = untold a st s key := untold_of_api hapi
      exact Or.inr ⟨by omega, hstrays', hevents⟩

/-- Every step leaves less to do. -/
theorem Phase.less (hpj : pj.Lawful) (hok : a.Orderly pj) (h : Phase pj a st K s) (hq : Quiet pj s t) :
    Less (left pj a st K t) (left pj a st K s) := by
  cases hq with
  | deliver front back e clusters he hc =>
    have hlength : (front ++ back).length < s.world.events.length := by
      rw [he]
      simp
    exact .right _ (.right _ (.left _ _ hlength))
  | start key hmem hr =>
    set t : System := { s with
      queue := s.queue.filter (· ≠ key), running := Function.update s.running key (some (reconcile pj key)) }
    have hrt : t.running key = some (reconcile pj key) := Function.update_self ..
    have helse : SameElsewhere key s t := .update ..
    obtain ⟨howed, hstrays⟩ : owed pj a st s key = _ ∧ strays pj a st s key = 0 := owed_of_none hr
    obtain ⟨howed', hstrays'⟩ : owed pj a st t key = _ ∧ strays pj a st t key = 0 := owed_of_tracked hrt onTrack_start
    refine helse.less_of_rest (howed'.trans howed.symm).le (hstrays'.trans hstrays.symm).le (.right _ (.left _ _ ?_))
    exact List.length_filter_lt_length_iff_exists.mpr ⟨key, hmem, by simp⟩
  | call key c k r w hr hw =>
    set t : System := { s with world := w, running := Function.update s.running key (some (k r)) }
    have hrt : t.running key = some (k r) := Function.update_self ..
    have helse : SameElsewhere key s t := by
      obtain ⟨hlists, hproxies, -, -⟩ := answers_own key hw.1 fun ep hep => by
        subst hep
        exact key_of_updateStatus h.reachable hr
      exact ⟨hlists, hproxies, fun _ hne => Function.update_of_ne hne ..⟩
    rcases h.call_cases hpj hok hr hw hrt with hlt | ⟨howed, hstrays, hevents⟩
    · exact helse.less_of_owed (h.key_mem hr) hlt
    · refine helse.less_of_rest howed hstrays (lex_of_le (congrArg List.length hevents).le (.right _ ?_))
      refine helse.cutExpand_programs (h.key_mem hr) ?_
      rw [programs, programs, hr, hrt]
      exact Relation.cutExpand_singleton_singleton (.answer c k r)
  | done key hr =>
    set t : System := { s with running := Function.update s.running key none }
    have hrt : t.running key = none := Function.update_self ..
    have helse : SameElsewhere key s t := .update s.queue none
    obtain ⟨howed, hstrays⟩ : owed pj a st s key = _ ∧ strays pj a st s key = 0 := owed_of_tracked hr .ended
    obtain ⟨howed', hstrays'⟩ : owed pj a st t key = _ ∧ strays pj a st t key = 0 := owed_of_none hrt
    refine helse.less_of_rest (howed'.trans howed.symm).le (hstrays'.trans hstrays.symm).le
      (.right _ (.right _ (helse.cutExpand_programs (h.key_mem hr) ?_)))
    rw [programs, programs, hr, hrt]
    exact Relation.cutExpand_zero
  | failed key e hr =>
    set t : System := { s with running := Function.update s.running key none }.enqueue [key]
    have hrt : t.running key = none := Function.update_self ..
    have helse : SameElsewhere key s t := ⟨.refl _, fun _ _ => rfl, fun _ hne => Function.update_of_ne hne ..⟩
    -- only a stray fails, so the Reconcile that is owed for it does not count
    obtain ⟨howed, hstrays⟩ : owed pj a st s key = _ ∧ strays pj a st s key = 1 := owed_of_stray hr (OnTrack.not_error hpj)
    obtain ⟨howed', hstrays'⟩ : owed pj a st t key = _ ∧ strays pj a st t key = 0 := owed_of_none hrt
    refine helse.less_of_strays (h.key_mem hr) ?_ ?_
    · rw [howed, howed']
      exact Nat.le_add_right ..
    · rw [hstrays, hstrays']
      exact Nat.zero_lt_one

theorem Phase.quiet_run (h : Phase pj a st K s) (hrun : Relation.ReflTransGen (Quiet pj) s t) : Phase pj a st K t := by
  induction hrun with
  | refl => exact h
  | tail _ hq ih => exact ih.quiet hq

theorem System.AtRest.current (h : Reachable pj t) (hrest : t.AtRest) {p : EnvoyProxy}
    (hp : t.world.api.envoyProxies.get? p.key = some p) : t.Current pj p.key := by
  rcases reachable_kept h p.key p.metadata.ns_label with (hq | ⟨e, he, -⟩) | hfresh
  · rw [hrest.queue] at hq
    cases hq
  · rw [hrest.events] at he
    cases he
  · rw [System.Fresh, hrest.running] at hfresh
    exact hfresh p hp

end Steps

/-- Left alone, the control plane comes to rest: if every spec decodes, every proxy has one version, and no read and no
    `SetSnapshot` fails, then from no reachable state can deliveries, Reconciles and their status writes go on for ever, in
    whatever order they happen and whether the status writes succeed or not. Where they stop nothing is pending, and the
    cache holds for every proxy what the pipeline gives on the objects stored then. -/
theorem quiet_system_comes_to_rest {pj : Protojson} (hpj : pj.Lawful) {s : System} (h : Reachable pj s)
    (hok : s.world.api.Orderly pj) :
    (¬∃ run, Endless (Quiet pj) s run) ∧
    ∀ t, Relation.ReflTransGen (Quiet pj) s t → (∀ u, ¬Quiet pj t u) →
      t.AtRest ∧ ∀ p, t.world.api.envoyProxies.get? p.key = some p → t.Current pj p.key := by
  obtain ⟨K, hphase⟩ := exists_phase h
  constructor
  · exact Endless.not_of_descent wellFounded_less (left pj s.world.api s.world.streams K)
      (fun _ _ h hq => h.quiet hq) (fun _ _ h hq => h.less hpj hok hq) hphase
  · intro t hrun hstop
    have hrest := atRest_of_not_quiet hstop
    exact ⟨hrest, fun p hp => hrest.current (hphase.quiet_run hrun).reachable hp⟩

/-- A proxy and two listeners, which have just been written. -/
theorem written_comes_to_rest :
    Sample.secured.world.api.Orderly .reference ∧ (¬∃ run, Endless (Quiet .reference) Sample.secured run) ∧
    ∀ t, Relation.ReflTransGen (Quiet .reference) Sample.secured t → (∀ u, ¬Quiet .reference t u) →
      t.AtRest ∧ ∀ p, t.world.api.envoyProxies.get? p.key = some p → t.Current .reference p.key := by
  have hok : Sample.secured.world.api.Orderly .reference := by
    intro key hsome
    obtain ⟨p, hp⟩ := Option.isSome_iff_exists.mp hsome
    have hmem : p ∈ [Sample.proxy] := (Store.get?_eq_some.mp hp).1
    obtain rfl : Sample.proxy.key = key := by
      rw [← key_of_stored hp, List.mem_singleton.mp hmem]
    exact ⟨Sample.decodable_stored, Sample.commute_stored.oneVersion⟩
  exact ⟨hok, quiet_system_comes_to_rest Protojson.reference_lawful (Sample.reachable_secured _) hok⟩

end EnvoyMesh
