import EnvoyMesh.History

/-! # Timelines

A run of the system with the moments it passes through, so that what a Reconcile read and what it did can be
dated. At a moment nothing may happen: a run that stops is a timeline too. -/

namespace EnvoyMesh
open Prog

structure Timeline (pj : Protojson) where
  state : Nat → System
  start : state 0 = .empty
  next : ∀ i, state (i + 1) = state i ∨ Step pj (state i) (state (i + 1))

namespace Timeline
variable {pj : Protojson} (τ : Timeline pj)

def world (i : Nat) : World := (τ.state i).world

/-- At moment `i` the running Reconcile of `key` gets the answer `r` to its call `c`. -/
def Answered (key : NamespacedName) (c : Call) (r : c.Answer) (i : Nat) : Prop :=
  Does pj (τ.state i) (.answer key c r) (τ.state (i + 1))

/-- The answers that Reconciles of `key` got from moment `a` on and before moment `b`. -/
def Between (key : NamespacedName) (a b : Nat) (c : Call) (r : c.Answer) : Prop :=
  ∃ i, a ≤ i ∧ i < b ∧ τ.Answered key c r i

/-- The answers that the objects stored at some moment from `a` on and before `b` give. -/
def Reads (a b : Nat) (c : Call) (r : c.Answer) : Prop := ∃ i, a ≤ i ∧ i < b ∧ (τ.world i).api.Reads c r

theorem reachable (i : Nat) : Reachable pj (τ.state i) := by
  induction i with
  | zero => exact τ.start ▸ .empty
  | succ i ih =>
    rcases τ.next i with heq | hs
    · exact heq ▸ ih
    · exact ih.step hs

/-- The timeline up to moment `i`, going on with a step to `t`. -/
def extend (i : Nat) (t : System) (h : Step pj (τ.state i) t) : Timeline pj where
  state j := if j ≤ i then τ.state j else t
  start := τ.start
  next j := by
    by_cases hj : j + 1 ≤ i
    · rw [if_pos hj, if_pos (by omega)]
      exact τ.next j
    · by_cases hji : j = i
      · subst hji
        rw [if_neg (by omega), if_pos le_rfl]
        exact Or.inr h
      · rw [if_neg (by omega), if_neg (by omega)]
        exact Or.inl rfl

theorem extend_of_le {i j : Nat} {t : System} (h : Step pj (τ.state i) t) (hj : j ≤ i) :
    (τ.extend i t h).state j = τ.state j := if_pos hj

theorem extend_of_lt {i j : Nat} {t : System} (h : Step pj (τ.state i) t) (hj : i < j) :
    (τ.extend i t h).state j = t := if_neg (by omega)

/-- A timeline goes on with any steps. -/
theorem exists_extension {i : Nat} {t : System} (h : Relation.ReflTransGen (Step pj) (τ.state i) t) :
    ∃ (τ' : Timeline pj) (j : Nat), i ≤ j ∧ (∀ k, k ≤ i → τ'.state k = τ.state k) ∧ τ'.state j = t := by
  induction h with
  | refl => exact ⟨τ, i, Nat.le_refl i, fun _ _ => rfl, rfl⟩
  | tail _ hs ih =>
    obtain ⟨τ', j, hij, hsame, rfl⟩ := ih
    refine ⟨τ'.extend j _ hs, j + 1, Nat.le_succ_of_le hij, fun k hk => ?_, τ'.extend_of_lt _ (Nat.lt_succ_self j)⟩
    rw [τ'.extend_of_le _ (Nat.le_trans hk hij), hsame k hk]

/-- The run in which nothing happens. -/
def idle (pj : Protojson) : Timeline pj := ⟨fun _ => .empty, rfl, fun _ => Or.inl rfl⟩

end Timeline

/-- Every run with a history passes through the moments of a timeline. -/
theorem Recorded.timeline {pj : Protojson} {ok : List Act → System → Act → System → Prop} {acts : List Act} {s : System}
    (h : Recorded pj ok acts s) : ∃ (τ : Timeline pj) (i : Nat), τ.state i = s ∧
      ∀ j, τ.state (j + 1) = τ.state j ∨
        ∃ acts a, Does pj (τ.state j) a (τ.state (j + 1)) ∧ ok acts (τ.state j) a (τ.state (j + 1)) := by
  induction h with
  | empty => exact ⟨.idle pj, 0, rfl, fun _ => Or.inl rfl⟩
  | @step acts s t a _ hd hok ih =>
    obtain ⟨τ, i, rfl, hall⟩ := ih
    refine ⟨τ.extend i t hd.step, i + 1, τ.extend_of_lt _ (Nat.lt_succ_self i), fun j => ?_⟩
    rcases Nat.lt_trichotomy j i with hj | rfl | hj
    · rw [τ.extend_of_le _ (show j + 1 ≤ i from hj), τ.extend_of_le _ (Nat.le_of_lt hj)]
      exact hall j
    · rw [τ.extend_of_lt _ (Nat.lt_succ_self j), τ.extend_of_le _ le_rfl]
      exact Or.inr ⟨acts, a, hd, hok⟩
    · rw [τ.extend_of_lt _ hj, τ.extend_of_lt _ (Nat.lt_succ_of_lt hj)]
      exact Or.inl rfl

theorem Reachable.timeline {pj : Protojson} {s : System} (h : Reachable pj s) :
    ∃ (τ : Timeline pj) (i : Nat), τ.state i = s := by
  obtain ⟨acts, hrec⟩ := h.recorded
  obtain ⟨τ, i, hi, -⟩ := hrec.timeline
  exact ⟨τ, i, hi⟩

/-! ### Reconciles that run alone -/

/-- The running Reconcile of `key` makes its next call, and the call does not fail. -/
def System.serveCall (key : NamespacedName) (s : System) : System :=
  match s.running key with
  | some (.call c k) =>
    { s with world := (s.world.serve c).2, running := Function.update s.running key (some (k (s.world.serve c).1)) }
  | _ => s

theorem serveCall_cases (pj : Protojson) (key : NamespacedName) (s : System) :
    s.serveCall key = s ∨ ∃ c r, Does pj s (.answer key c r) (s.serveCall key) := by
  unfold System.serveCall
  split
  · next c k hr => exact Or.inr ⟨c, _, .answer key c k _ _ hr (World.serve_answers s.world c).1⟩
  · exact Or.inl rfl

/-- Up to `n` calls of the Reconcile of `key`, one after the other. -/
theorem iterate_serveCall_cases (pj : Protojson) (key : NamespacedName) (n m : Nat) (s : System) :
    (System.serveCall key)^[min (m + 1) n] s = (System.serveCall key)^[min m n] s ∨
      ∃ c r, Does pj ((System.serveCall key)^[min m n] s) (.answer key c r) ((System.serveCall key)^[min (m + 1) n] s) := by
  by_cases hm : m < n
  · rw [show min (m + 1) n = min m n + 1 by omega, Function.iterate_succ_apply']
    exact serveCall_cases pj key _
  · exact Or.inl (by rw [show min (m + 1) n = min m n by omega])

namespace Timeline
variable {pj : Protojson}

/-- The timeline up to moment `i`, after which the Reconcile of `key` makes up to `n` calls with nothing in
    between. -/
def serving (τ : Timeline pj) (i : Nat) (key : NamespacedName) (n : Nat) : Timeline pj where
  state j := if j ≤ i then τ.state j else (System.serveCall key)^[min (j - i) n] (τ.state i)
  start := τ.start
  next j := by
    by_cases hj : j + 1 ≤ i
    · rw [if_pos hj, if_pos (by omega)]
      exact τ.next j
    rw [if_neg hj]
    have hcalls := iterate_serveCall_cases pj key n (j - i) (τ.state i)
    rw [← show j + 1 - i = j - i + 1 by omega] at hcalls
    have hstate : (if j ≤ i then τ.state j else (System.serveCall key)^[min (j - i) n] (τ.state i)) =
        (System.serveCall key)^[min (j - i) n] (τ.state i) := by
      split
      · obtain rfl : j = i := by omega
        simp
      · rfl
    rw [hstate]
    exact hcalls.imp_right fun ⟨_, _, hd⟩ => hd.step

variable {τ : Timeline pj} {i n : Nat} {key : NamespacedName}

theorem serving_add (m : Nat) : (τ.serving i key n).state (i + m) = (System.serveCall key)^[min m n] (τ.state i) := by
  cases m with
  | zero => simp [serving]
  | succ m => exact (if_neg (by omega)).trans (by rw [Nat.add_sub_cancel_left])

theorem serving_next (m : Nat) :
    (τ.serving i key n).state (i + m + 1) = (τ.serving i key n).state (i + m) ∨
      ∃ c r, (τ.serving i key n).Answered key c r (i + m) := by
  have hcalls := iterate_serveCall_cases pj key n m (τ.state i)
  rwa [← serving_add, ← serving_add, ← Nat.add_assoc] at hcalls

end Timeline

namespace Sample

/-- A proxy alone is written, the notification delivered and the Reconcile started. -/
def created (p : EnvoyProxy) : System := ⟨System.empty.world.write (.envoyProxy p), [], fun _ => none⟩

def delivered (p : EnvoyProxy) : System := ⟨{ (created p).world with events := [] }, [p.key], fun _ => none⟩

def taken (pj : Protojson) (p : EnvoyProxy) : System :=
  ⟨(delivered p).world, [], Function.update (fun _ => none) p.key (some (reconcile pj p.key))⟩

theorem step_delivered (pj : Protojson) (p : EnvoyProxy) : Step pj (created p) (delivered p) :=
  .deliver (created p) [] [] ⟨none, some (.envoyProxy p)⟩ [] rfl (List.Perm.refl _)

theorem step_taken (pj : Protojson) (p : EnvoyProxy) : Step pj (delivered p) (taken pj p) := by
  have hstart : Step pj (delivered p) _ := .start (delivered p) p.key List.mem_cons_self rfl
  simpa [delivered, taken] using hstart

def opening (pj : Protojson) (p : EnvoyProxy) : Timeline pj where
  state
    | 0 => .empty
    | 1 => created p
    | 2 => delivered p
    | _ => taken pj p
  start := rfl
  next
    | 0 => Or.inr (.write .empty (.envoyProxy p))
    | 1 => Or.inr (step_delivered pj p)
    | 2 => Or.inr (step_taken pj p)
    | _ + 3 => Or.inl rfl

end Sample

end EnvoyMesh
