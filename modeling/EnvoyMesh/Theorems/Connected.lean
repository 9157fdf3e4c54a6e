import EnvoyMesh.Xds.Streams
import Mathlib.Data.List.Induction

/-! # Connection tracking

The connection table is exact as long as no stream closes while another open stream of the same node ID
has sent a request: the close deletes the node ID for both. -/

namespace EnvoyMesh
namespace Streams

/-- `IsConnected` tells for every node ID whether an open stream has sent a request with it. -/
def Exact (s : Streams) : Prop :=
  ∀ n, n ≠ "" → (s.connected.isConnected n = true ↔
    ∃ id st, s.opened id = some st ∧ st.requested = true ∧ st.nodeID = n)

/-- Another open stream has sent a request with the node ID of stream `id`. -/
def Shared (s : Streams) (id : Nat) : Prop :=
  ∃ st id' st', s.opened id = some st ∧ st.nodeID ≠ "" ∧ id' ≠ id ∧ s.opened id' = some st' ∧
    st'.requested = true ∧ st'.nodeID = st.nodeID

/-! ### The callbacks -/

theorem streamRequest_apply (c : Connected) (st : Stream) {n : String} (hn : n ≠ "") :
    (c.streamRequest st.node).isConnected n = (c.isConnected n || decide (st.nodeID = n)) := by
  obtain ⟨node, r⟩ := st
  cases node with
  | none => simp [Connected.streamRequest, Stream.nodeID, hn.symm]
  | some node =>
    by_cases h0 : node.id = ""
    · simp [Connected.streamRequest, Stream.nodeID, h0, hn.symm]
    · by_cases hid : node.id = n
      · subst hid
        simp [Connected.streamRequest, Connected.isConnected, Stream.nodeID, hn]
      · simp [Connected.streamRequest, Connected.isConnected, Stream.nodeID, h0, hid, Function.update_of_ne (Ne.symm hid)]

theorem streamClosed_apply (c : Connected) (st : Stream) {n : String} (hn : n ≠ "") :
    (c.streamClosed st.node).isConnected n = (c.isConnected n && decide (st.nodeID ≠ n)) := by
  obtain ⟨node, r⟩ := st
  cases node with
  | none => simp [Connected.streamClosed, Stream.nodeID, hn.symm]
  | some node =>
    by_cases h0 : node.id = ""
    · simp [Connected.streamClosed, Stream.nodeID, h0, hn.symm]
    · by_cases hid : node.id = n
      · subst hid
        simp [Connected.streamClosed, Connected.isConnected, Stream.nodeID, hn]
      · simp [Connected.streamClosed, Connected.isConnected, Stream.nodeID, h0, hid, Function.update_of_ne (Ne.symm hid)]

/-! ### One event -/

theorem step_cases {s t : Streams} {e : StreamEvent} (h : s.step e = some t) :
    (∃ id node, e = .opened id node ∧ s.opened id = none ∧ t.connected = s.connected ∧
      t.opened = Function.update s.opened id (some ⟨node, false⟩)) ∨
    (∃ id st, e = .request id ∧ s.opened id = some st ∧ t.connected = s.connected.streamRequest st.node ∧
      t.opened = Function.update s.opened id (some { st with requested := true })) ∨
    (∃ id st, e = .closed id ∧ s.opened id = some st ∧ t.connected = s.connected.streamClosed st.node ∧
      t.opened = Function.update s.opened id none) := by
  cases e with
  | opened id node =>
    cases hid : s.opened id with
    | none =>
      simp only [step, hid, Option.some.injEq] at h
      subst h
      exact Or.inl ⟨id, node, rfl, hid, rfl, rfl⟩
    | some st => simp [step, hid] at h
  | request id =>
    cases hid : s.opened id with
    | none => simp [step, hid] at h
    | some st =>
      simp only [step, hid, Option.some.injEq] at h
      subst h
      exact Or.inr (Or.inl ⟨id, st, rfl, hid, rfl, rfl⟩)
  | closed id =>
    cases hid : s.opened id with
    | none => simp [step, hid] at h
    | some st =>
      simp only [step, hid, Option.some.injEq] at h
      subst h
      exact Or.inr (Or.inr ⟨id, st, rfl, hid, rfl, rfl⟩)

/-- Some open stream after an update is the updated one or another that was open before. -/
theorem exists_update {f : Nat → Option Stream} {id : Nat} {o : Option Stream} {φ : Stream → Prop} :
    (∃ id' st, Function.update f id o id' = some st ∧ φ st) ↔
      (∃ st, o = some st ∧ φ st) ∨ ∃ id' st, id' ≠ id ∧ f id' = some st ∧ φ st := by
  constructor
  · intro h
    obtain ⟨id', st, hst, hφ⟩ := h
    by_cases hne : id' = id
    · subst hne
      rw [Function.update_self] at hst
      exact Or.inl ⟨st, hst, hφ⟩
    · rw [Function.update_of_ne hne] at hst
      exact Or.inr ⟨id', st, hne, hst, hφ⟩
  · intro h
    rcases h with ⟨st, rfl, hφ⟩ | ⟨id', st, hne, hst, hφ⟩
    · exact ⟨id, st, Function.update_self .., hφ⟩
    · exact ⟨id', st, (Function.update_of_ne hne ..).trans hst, hφ⟩

theorem exists_split (f : Nat → Option Stream) (id : Nat) {φ : Stream → Prop} :
    (∃ id' st, f id' = some st ∧ φ st) ↔ (∃ st, f id = some st ∧ φ st) ∨ ∃ id' st, id' ≠ id ∧ f id' = some st ∧ φ st := by
  rw [← exists_update, Function.update_eq_self]

/-- An event keeps the table exact, unless it closes a stream whose node ID is shared. -/
theorem Exact.step {s t : Streams} {e : StreamEvent} (hs : s.Exact) (h : s.step e = some t)
    (hclose : ∀ id, e = .closed id → ¬s.Shared id) : t.Exact := by
  intro n hn
  rcases step_cases h with ⟨id, node, rfl, hid, hc, ho⟩ | ⟨id, st, rfl, hid, hc, ho⟩ | ⟨id, st, rfl, hid, hc, ho⟩
  · -- the new stream has sent nothing yet, and its number was free
    rw [hc, hs n hn, ho, exists_update, exists_split s.opened id, hid]
    simp
  · rw [hc, streamRequest_apply _ _ hn, Bool.or_eq_true, hs n hn, ho, exists_update, exists_split s.opened id, hid]
    simp only [Option.some.injEq, exists_eq_left', decide_eq_true_eq, true_and]
    have hnode : ({ st with requested := true } : Stream).nodeID = st.nodeID := rfl
    rw [hnode]
    generalize (∃ id' st', id' ≠ id ∧ s.opened id' = some st' ∧ st'.requested = true ∧ st'.nodeID = n) = other
    tauto
  · rw [hc, streamClosed_apply _ _ hn, Bool.and_eq_true, hs n hn, ho, exists_update, exists_split s.opened id, hid]
    -- another stream with the node ID of the closed one would make it shared
    have hother : (∃ id' st', id' ≠ id ∧ s.opened id' = some st' ∧ st'.requested = true ∧ st'.nodeID = n) →
        st.nodeID ≠ n := by
      intro hex hst
      obtain ⟨id', st', hne, hid', hr, hn'⟩ := hex
      exact hclose id rfl ⟨st, id', st', hid, hst ▸ hn, hne, hid', hr, hn'.trans hst.symm⟩
    simp only [Option.some.injEq, exists_eq_left', decide_eq_true_eq, reduceCtorEq, false_and, exists_false, false_or]
    generalize (∃ id' st', id' ≠ id ∧ s.opened id' = some st' ∧ st'.requested = true ∧ st'.nodeID = n) = other at hother ⊢
    tauto

theorem not_exact_of_shared {s : Streams} {id : Nat} (h : s.Shared id) :
    ∃ t, s.step (.closed id) = some t ∧ ¬t.Exact := by
  obtain ⟨st, id', st', hid, hn, hne, hid', hr, hn'⟩ := h
  refine ⟨_, by simp only [step, hid]; rfl, fun hexact => ?_⟩
  have hconn := (hexact st.nodeID hn).mpr ⟨id', st', by simp [Function.update_of_ne hne, hid'], hr, hn'⟩
  rw [streamClosed_apply _ _ hn] at hconn
  simp at hconn

/-! ### Sequences of events -/

theorem empty_exact : Streams.empty.Exact := by
  intro n _
  simp [Streams.empty, Connected.empty, Connected.isConnected]

theorem run_append_singleton (s : Streams) (evs : List StreamEvent) (e : StreamEvent) :
    s.run (evs ++ [e]) = (s.run evs).bind fun t => t.step e := by
  simp [run, List.foldlM_append]

/-- Tracking is exact after every prefix of a sequence of events if and only if the sequence never
    closes a stream while another open stream has sent a request with its node ID. -/
theorem tracking_exact_iff (evs : List StreamEvent) :
    (∀ pre, pre <+: evs → ∀ s, Streams.empty.run pre = some s → s.Exact) ↔
    ∀ pre id, pre ++ [.closed id] <+: evs → ∀ s, Streams.empty.run pre = some s → ¬s.Shared id := by
  constructor
  · intro hexact pre id hpre s hs hshared
    obtain ⟨t, ht, hnot⟩ := not_exact_of_shared hshared
    exact hnot (hexact _ hpre t (by rw [run_append_singleton, hs]; exact ht))
  · intro hclose pre
    induction pre using List.reverseRecOn with
    | nil =>
      rintro - s hs
      cases hs
      exact empty_exact
    | append_singleton pre e ih =>
      intro hpre t ht
      rw [run_append_singleton] at ht
      obtain ⟨s, hs, hstep⟩ := Option.bind_eq_some_iff.mp ht
      refine (ih ((List.prefix_append _ _).trans hpre) s hs).step hstep ?_
      rintro id rfl
      exact hclose pre id hpre s hs

/-- Two streams of one Envoy, of which the first closes: the node is still streaming, but no longer
    counted as connected. -/
theorem tracking_not_exact : ¬∀ evs : List StreamEvent,
    ∀ pre, pre <+: evs → ∀ s, Streams.empty.run pre = some s → s.Exact := by
  intro h
  have hex := h [.opened 1 (some ⟨"envoy.default"⟩), .request 1, .opened 2 (some ⟨"envoy.default"⟩), .request 2, .closed 1]
    _ (List.prefix_refl _) _ rfl
  have hconn := (hex "envoy.default" (by decide)).mpr ⟨2, ⟨some ⟨"envoy.default"⟩, true⟩, rfl, rfl, rfl⟩
  exact absurd hconn (by decide)

end Streams
end EnvoyMesh
