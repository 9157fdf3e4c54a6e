import Mathlib.Logic.Basic
import Mathlib.Tactic.Common

/-! # Programs that call their environment

A program makes calls, and the environment answers each of them. The same program can then be run
against one deterministic environment (`run`), against every answer a predicate admits (`Result`),
against an environment with a state of its own (`Exec`), or one call at a time between the steps of
other parties (`Reaches`). -/

/-- A program over the calls `C`: the environment answers call `c` with a value of `R c`. -/
inductive Prog (C : Type) (R : C → Type) (α : Type) where
  | ret (a : α)
  | call (c : C) (k : R c → Prog C R α)

namespace Prog
variable {C : Type} {R : C → Type} {α β σ ε : Type}

protected def bind : Prog C R α → (α → Prog C R β) → Prog C R β
  | ret a, f => f a
  | call c k, f => call c fun r => (k r).bind f

instance : Monad (Prog C R) where
  pure := ret
  bind := Prog.bind

def ask (c : C) : Prog C R (R c) := call c ret

@[simp] theorem pure_eq_ret (a : α) : (pure a : Prog C R α) = ret a := rfl
@[simp] theorem ret_bind (a : α) (f : α → Prog C R β) : (ret a : Prog C R α) >>= f = f a := rfl
@[simp] theorem call_bind (c : C) (k : R c → Prog C R α) (f : α → Prog C R β) :
    call c k >>= f = call c fun r => k r >>= f := rfl
@[simp] theorem ask_bind (c : C) (f : R c → Prog C R β) : ask c >>= f = call c f := rfl

theorem map_id_eq (P : Prog C R α) : id <$> P = P := by
  induction P with
  | ret a => rfl
  | call c k ih => exact congrArg (call c) (funext ih)

protected theorem bind_assoc {γ : Type} (P : Prog C R α) (f : α → Prog C R β) (g : β → Prog C R γ) :
    P >>= f >>= g = P >>= fun a => f a >>= g := by
  induction P with
  | ret a => rfl
  | call c k ih => exact congrArg (call c) (funext ih)

instance : LawfulMonad (Prog C R) := LawfulMonad.mk' _ map_id_eq (fun _ _ => rfl) Prog.bind_assoc

/-! ### One deterministic environment -/

/-- The calls the program makes, in order, and what it returns, when `h` answers every call. -/
def run (h : (c : C) → R c) : Prog C R α → List C × α
  | ret a => ([], a)
  | call c k => let (cs, a) := (k (h c)).run h; (c :: cs, a)

/-! ### Every admitted answer -/

/-- The program can return `b` when every call is answered as `v` admits. -/
def Result (v : (c : C) → R c → Prop) : Prog C R α → α → Prop
  | ret a, b => a = b
  | call c k, b => ∃ r, v c r ∧ (k r).Result v b

variable {v v' : (c : C) → R c → Prop}

@[simp] theorem result_ret {a b : α} : (ret a : Prog C R α).Result v b ↔ a = b := Iff.rfl
@[simp] theorem result_call {c : C} {k : R c → Prog C R α} {b : α} :
    (call c k).Result v b ↔ ∃ r, v c r ∧ (k r).Result v b := Iff.rfl

theorem result_bind {P : Prog C R α} {f : α → Prog C R β} {b : β} :
    (P >>= f).Result v b ↔ ∃ a, P.Result v a ∧ (f a).Result v b := by
  induction P with
  | ret a => simp
  | call c k ih =>
    simp only [call_bind, result_call, ih]
    constructor
    · intro h
      rcases h with ⟨r, hr, a, ha, hb⟩
      exact ⟨a, ⟨r, hr, ha⟩, hb⟩
    · intro h
      rcases h with ⟨a, ⟨r, hr, ha⟩, hb⟩
      exact ⟨r, hr, a, ha, hb⟩

theorem result_run_bind {x : ExceptT ε (Prog C R) α} {f : α → ExceptT ε (Prog C R) β} {b : β} :
    (x >>= f).run.Result v (.ok b) ↔ ∃ a, x.run.Result v (.ok a) ∧ (f a).run.Result v (.ok b) := by
  rw [ExceptT.run_bind, result_bind]
  constructor
  · intro h
    rcases h with ⟨r, hr, hb⟩
    cases r with
    | ok a => exact ⟨a, hr, hb⟩
    | error e => cases hb
  · intro h
    rcases h with ⟨a, ha, hb⟩
    exact ⟨.ok a, ha, hb⟩

theorem Result.mono {P : Prog C R α} {b : α} (h : P.Result v b) (hv : ∀ c r, v c r → v' c r) : P.Result v' b := by
  induction P with
  | ret a => exact h
  | call c k ih =>
    obtain ⟨r, hr, hb⟩ := h
    exact ⟨r, hv c r hr, ih r hb⟩

/-- The fallible program does not fail, as long as every call is answered as `v` admits. -/
def Total (v : (c : C) → R c → Prop) (x : ExceptT ε (Prog C R) α) : Prop :=
  ∀ r, x.run.Result v r → ∃ a, r = .ok a

theorem Total.bind {x : ExceptT ε (Prog C R) α} {f : α → ExceptT ε (Prog C R) β} (hx : Total v x)
    (hf : ∀ a, Total v (f a)) : Total v (x >>= f) := by
  intro r hr
  rw [ExceptT.run_bind, result_bind] at hr
  obtain ⟨ra, ha, hr⟩ := hr
  obtain ⟨a, rfl⟩ := hx ra ha
  exact hf a r hr

theorem total_pure (a : α) : Total v (pure a : ExceptT ε (Prog C R) α) := fun _ hr => ⟨a, hr.symm⟩

/-! ### An environment with a state -/

/-- The program, started in state `s`, can end in state `t` and return `b`: `env s c r s'` says that
    the environment may answer call `c` with `r` and go to `s'`. -/
def Exec (env : σ → (c : C) → R c → σ → Prop) : Prog C R α → σ → σ → α → Prop
  | ret a, s, t, b => t = s ∧ b = a
  | call c k, s, t, b => ∃ r s', env s c r s' ∧ (k r).Exec env s' t b

variable {env : σ → (c : C) → R c → σ → Prop}

@[simp] theorem exec_ret {a b : α} {s t : σ} : (ret a : Prog C R α).Exec env s t b ↔ t = s ∧ b = a := Iff.rfl
@[simp] theorem exec_call {c : C} {k : R c → Prog C R α} {s t : σ} {b : α} :
    (call c k).Exec env s t b ↔ ∃ r s', env s c r s' ∧ (k r).Exec env s' t b := Iff.rfl

theorem exec_bind {P : Prog C R α} {f : α → Prog C R β} {s t : σ} {b : β} :
    (P >>= f).Exec env s t b ↔ ∃ a u, P.Exec env s u a ∧ (f a).Exec env u t b := by
  induction P generalizing s with
  | ret a => simp
  | call c k ih =>
    simp only [call_bind, exec_call, ih]
    constructor
    · intro h
      rcases h with ⟨r, s', he, a, u, ha, hb⟩
      exact ⟨a, u, ⟨r, s', he, ha⟩, hb⟩
    · intro h
      rcases h with ⟨a, u, ⟨r, s', he, ha⟩, hb⟩
      exact ⟨r, s', he, a, u, ha, hb⟩

/-- Every call of the program satisfies `φ`, whatever the answers. -/
def Uses (φ : C → Prop) : Prog C R α → Prop
  | ret _ => True
  | call c k => φ c ∧ ∀ r, (k r).Uses φ

variable {φ : C → Prop}

theorem Uses.bind {P : Prog C R α} {f : α → Prog C R β} (hP : P.Uses φ) (hf : ∀ a, (f a).Uses φ) :
    (P >>= f).Uses φ := by
  induction P with
  | ret a => exact hf a
  | call c k ih => exact ⟨hP.1, fun r => ih r (hP.2 r)⟩

theorem Uses.mono {ψ : C → Prop} {P : Prog C R α} (hP : P.Uses φ) (h : ∀ c, φ c → ψ c) : P.Uses ψ := by
  induction P with
  | ret a => trivial
  | call c k ih => exact ⟨h c hP.1, fun r => ih r (hP.2 r)⟩

theorem Uses.run_bind {x : ExceptT ε (Prog C R) α} {f : α → ExceptT ε (Prog C R) β} (hx : x.run.Uses φ)
    (hf : ∀ a, (f a).run.Uses φ) : (x >>= f).run.Uses φ := by
  rw [ExceptT.run_bind]
  refine hx.bind fun r => ?_
  cases r with
  | ok a => exact hf a
  | error e => trivial

theorem Exec.mono {env' : σ → (c : C) → R c → σ → Prop} {P : Prog C R α} {s t : σ} {b : α} (h : P.Exec env s t b)
    (henv : ∀ s c r s', env s c r s' → env' s c r s') : P.Exec env' s t b := by
  induction P generalizing s with
  | ret a => exact h
  | call c k ih =>
    obtain ⟨r, s', he, hk⟩ := h
    exact ⟨r, s', henv s c r s' he, ih r hk⟩

/-- A program whose calls leave a part `f` of the state alone returns a result of `v`, if the answers to
    its calls are among those of `v` wherever that part is as it was. -/
theorem Exec.result_of_uses {τ : Type} (f : σ → τ) {P : Prog C R α} {s t : σ} {b : α} (h : P.Exec env s t b)
    (hu : P.Uses φ) (hφ : ∀ u c r u', f u = f s → φ c → env u c r u' → f u' = f s ∧ v c r) :
    f t = f s ∧ P.Result v b := by
  suffices hgen : ∀ u, f u = f s → P.Exec env u t b → f t = f s ∧ P.Result v b from hgen s rfl h
  clear h
  induction P with
  | ret a => exact fun u hs h => ⟨h.1 ▸ hs, h.2.symm⟩
  | call c k ih =>
    rintro u hs ⟨r, u', he, hk⟩
    obtain ⟨hs', hr⟩ := hφ u c r u' hs hu.1 he
    obtain ⟨ht, hres⟩ := ih r (hu.2 r) u' hs' hk
    exact ⟨ht, r, hr, hres⟩

theorem Result.exec {P : Prog C R α} {s : σ} {b : α} (h : P.Result v b) (hu : P.Uses φ)
    (hφ : ∀ c r, φ c → v c r → env s c r s) : P.Exec env s s b := by
  induction P with
  | ret a => exact ⟨rfl, h.symm⟩
  | call c k ih =>
    obtain ⟨r, hr, hb⟩ := h
    exact ⟨r, s, hφ c r hu.1 hr, ih r hb (hu.2 r)⟩

def interp (h : σ → (c : C) → R c × σ) : Prog C R α → σ → α × σ
  | ret a, s => (a, s)
  | call c k, s => (k (h s c).1).interp h (h s c).2

theorem exec_interp {h : σ → (c : C) → R c × σ} (henv : ∀ s c, env s c (h s c).1 (h s c).2) (P : Prog C R α) (s : σ) :
    P.Exec env s (P.interp h s).2 (P.interp h s).1 := by
  induction P generalizing s with
  | ret a => exact ⟨rfl, rfl⟩
  | call c k ih => exact ⟨_, _, henv s c, ih _ _⟩

/-! ### One call at a time -/

/-- `Q` is what remains of `P` after some calls, each answered as `v` admits. -/
inductive Reaches (v : (c : C) → R c → Prop) (P : Prog C R α) : Prog C R α → Prop where
  | refl : Reaches v P P
  | answer {c : C} {k : R c → Prog C R α} {r : R c} : Reaches v P (call c k) → v c r → Reaches v P (k r)

theorem Reaches.uses {P Q : Prog C R α} (h : Reaches v P Q) (hu : P.Uses φ) : Q.Uses φ := by
  induction h with
  | refl => exact hu
  | answer _ _ ih => exact ih.2 _

theorem Reaches.result {P Q : Prog C R α} {b : α} (h : Reaches v P Q) (hQ : Q.Result v b) : P.Result v b := by
  induction h with
  | refl => exact hQ
  | answer _ hr ih => exact ih ⟨_, hr, hQ⟩

theorem Reaches.mono {P Q : Prog C R α} (h : Reaches v P Q) (hv : ∀ c r, v c r → v' c r) : Reaches v' P Q := by
  induction h with
  | refl => exact .refl
  | answer _ hr ih => exact ih.answer (hv _ _ hr)

theorem Reaches.of_call {c : C} {k : R c → Prog C R α} {Q : Prog C R α} (h : Reaches v (call c k) Q) :
    Q = call c k ∨ ∃ r, v c r ∧ Reaches v (k r) Q := by
  induction h with
  | refl => exact Or.inl rfl
  | @answer c' k' r' _ hr ih =>
    rcases ih with heq | ⟨r, hr₀, h⟩
    · injection heq with hc hk
      subst hc
      rw [eq_of_heq hk]
      exact Or.inr ⟨r', hr, .refl⟩
    · exact Or.inr ⟨r, hr₀, h.answer hr⟩

theorem Reaches.bind {P : Prog C R α} {f : α → Prog C R β} {Q : Prog C R β} (h : Reaches v (P >>= f) Q) :
    (∃ P', Reaches v P P' ∧ Q = P' >>= f) ∨ ∃ a, P.Result v a ∧ Reaches v (f a) Q := by
  induction h with
  | refl => exact Or.inl ⟨P, .refl, rfl⟩
  | @answer c k r _ hr ih =>
    rcases ih with ⟨P', hP', hQ⟩ | ⟨a, ha, hk⟩
    · cases P' with
      | ret a =>
        refine Or.inr ⟨a, hP'.result rfl, ?_⟩
        have hk : Reaches v (f a) (call c k) := hQ ▸ .refl
        exact hk.answer hr
      | call c' k' =>
        injection hQ with hc hk
        subst hc
        rw [eq_of_heq hk]
        exact Or.inl ⟨k' r, hP'.answer hr, rfl⟩
    · exact Or.inr ⟨a, ha, hk.answer hr⟩

/-- A program is not what remains of it after an answer. -/
theorem answer_ne {c : C} {k : R c → Prog C R α} {r : R c} : k r ≠ call c k := by
  suffices hgen : ∀ (P : Prog C R α) c (k : R c → Prog C R α) r, P = call c k → k r ≠ P from hgen _ c k r rfl
  intro P
  induction P with
  | ret b => exact fun c k r h => nomatch h
  | call c k ih =>
    intro c' k' r h heq
    cases h
    exact ih r c k r heq rfl

/-- What remains of a program after an answer comes after the program. -/
inductive After : Prog C R α → Prog C R α → Prop where
  | answer (c : C) (k : R c → Prog C R α) (r : R c) : After (k r) (call c k)

/-- A program cannot go on for ever, though there may be no bound on the number of its calls. -/
theorem wellFounded_after : WellFounded (After : Prog C R α → Prog C R α → Prop) := by
  refine ⟨fun P => ?_⟩
  induction P with
  | ret a => exact ⟨_, fun _ h => nomatch h⟩
  | call c k ih =>
    refine ⟨_, fun Q h => ?_⟩
    cases h with
    | answer _ _ r => exact ih r

/-! ### Counting calls -/

/-- The program makes at most `n` calls that satisfy `φ`, whatever the answers. -/
def AtMost (φ : C → Prop) : Prog C R α → Nat → Prop
  | ret _, _ => True
  | call c k, n => ∃ m, (∀ r, (k r).AtMost φ m) ∧ m ≤ n ∧ (φ c → m < n)

theorem AtMost.mono {P : Prog C R α} {m n : Nat} (h : P.AtMost φ m) (hmn : m ≤ n) : P.AtMost φ n := by
  cases P with
  | ret a => trivial
  | call c k =>
    obtain ⟨l, hk, hl, hφ⟩ := h
    exact ⟨l, hk, Nat.le_trans hl hmn, fun hc => Nat.lt_of_lt_of_le (hφ hc) hmn⟩

theorem Uses.atMost {P : Prog C R α} (h : P.Uses fun c => ¬φ c) : P.AtMost φ 0 := by
  induction P with
  | ret a => trivial
  | call c k ih => exact ⟨0, fun r => ih r (h.2 r), Nat.le_refl 0, fun hc => absurd hc h.1⟩

theorem AtMost.bind {P : Prog C R α} {f : α → Prog C R β} {m n : Nat} (hP : P.AtMost φ m) (hf : ∀ a, (f a).AtMost φ n) :
    (P >>= f).AtMost φ (m + n) := by
  induction P generalizing m with
  | ret a => exact (hf a).mono (Nat.le_add_left n m)
  | call c k ih =>
    obtain ⟨l, hk, hl, hφ⟩ := hP
    exact ⟨l + n, fun r => ih r (hk r), Nat.add_le_add_right hl n, fun hc => Nat.add_lt_add_right (hφ hc) n⟩

theorem Reaches.atMost {P Q : Prog C R α} {n : Nat} (h : Reaches v P Q) (hP : P.AtMost φ n) : Q.AtMost φ n := by
  induction h with
  | refl => exact hP
  | answer _ _ ih =>
    obtain ⟨m, hk, hm, -⟩ := ih
    exact (hk _).mono hm

/-! ### Two environments that a program cannot tell apart -/

/-- Every answer that `v` admits has a counterpart under `v'` after which the program goes on in the
    same way. -/
def Sim (v v' : (c : C) → R c → Prop) : Prog C R α → Prop
  | ret _ => True
  | call c k => ∀ r, v c r → (k r).Sim v v' ∧ ∃ r', v' c r' ∧ k r' = k r

theorem Sim.bind {P : Prog C R α} {f : α → Prog C R β} (hP : P.Sim v v')
    (hf : ∀ a, P.Result v a → (f a).Sim v v') : (P >>= f).Sim v v' := by
  induction P with
  | ret a => exact hf a rfl
  | call c k ih =>
    intro r hr
    obtain ⟨hk, r', hr', hkr⟩ := hP r hr
    exact ⟨ih r hk fun a ha => hf a ⟨r, hr, ha⟩, r', hr', congrArg (· >>= f) hkr⟩

theorem Sim.of_uses {P : Prog C R α} (hu : P.Uses φ) (h : ∀ c r, φ c → v c r → v' c r) : P.Sim v v' := by
  induction P with
  | ret a => trivial
  | call c k ih => exact fun r hr => ⟨ih r (hu.2 r), r, h c r hu.1 hr, rfl⟩

theorem Sim.run_bind {x : ExceptT ε (Prog C R) α} {f : α → ExceptT ε (Prog C R) β} (hx : x.run.Sim v v')
    (hf : ∀ a, x.run.Result v (.ok a) → (f a).run.Sim v v') : (x >>= f).run.Sim v v' := by
  rw [ExceptT.run_bind]
  refine hx.bind fun r hr => ?_
  cases r with
  | ok a => exact hf a hr
  | error e => trivial

theorem Sim.reaches {P Q : Prog C R α} (hP : P.Sim v v') (h : Reaches v P Q) : Reaches v' P Q ∧ Q.Sim v v' := by
  induction h with
  | refl => exact ⟨.refl, hP⟩
  | @answer c k r _ hr ih =>
    obtain ⟨hk, r', hr', hkr⟩ := ih.2 r hr
    exact ⟨hkr ▸ ih.1.answer hr', hk⟩

theorem Sim.result {P : Prog C R α} {b : α} (hP : P.Sim v v') (h : P.Result v b) : P.Result v' b := by
  induction P with
  | ret a => exact h
  | call c k ih =>
    obtain ⟨r, hr, hb⟩ := h
    obtain ⟨hk, r', hr', hkr⟩ := hP r hr
    exact ⟨r', hr', hkr ▸ ih r hk hb⟩

/-- Two handlers that the program cannot tell apart make it do the same calls and return the same. -/
theorem Sim.run_eq {h h' : (c : C) → R c} {P : Prog C R α}
    (hP : P.Sim (fun c r => r = h c) (fun c r => r = h' c)) : P.run h = P.run h' := by
  induction P with
  | ret a => rfl
  | call c k ih =>
    obtain ⟨hk, r', rfl, hkr⟩ := hP (h c) rfl
    simp only [run, hkr, ih _ hk]

end Prog
