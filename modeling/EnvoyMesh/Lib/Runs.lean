import Mathlib.Tactic.Common

/-! # Total correctness of stateful programs

Rules of pre- and postconditions for programs that work on a state and may give no result. -/

/-- From `s` the program gives a result, and the result and the state it leaves satisfy `Q`. -/
def Runs {σ α : Type} (x : StateT σ Option α) (s : σ) (Q : α → σ → Prop) : Prop :=
  ∃ a t, x s = some (a, t) ∧ Q a t

namespace Runs
variable {σ α β : Type} {x : StateT σ Option α} {f : α → StateT σ Option β} {s t : σ} {Q R : α → σ → Prop}

theorem mono (h : Runs x s Q) (hQ : ∀ a t, Q a t → R a t) : Runs x s R := by
  obtain ⟨a, t, hx, hq⟩ := h
  exact ⟨a, t, hx, hQ a t hq⟩

theorem of_eq {a : α} (h : Runs x s Q) (hx : x s = some (a, t)) : Q a t := by
  obtain ⟨a', t', hx', hq⟩ := h
  cases hx.symm.trans hx'
  exact hq

theorem ret {a : α} (h : Q a s) : Runs (pure a) s Q := ⟨a, s, rfl, h⟩

theorem bind {Q : β → σ → Prop} (h : Runs x s fun a t => Runs (f a) t Q) : Runs (x >>= f) s Q := by
  obtain ⟨a, t, hx, b, u, hf, hq⟩ := h
  refine ⟨b, u, ?_, hq⟩
  show (x s).bind (fun p => f p.1 p.2) = _
  rw [hx]
  exact hf

theorem read {Q : σ → σ → Prop} (h : Q s s) : Runs get s Q := ⟨s, s, rfl, h⟩

theorem write {g : σ → σ} {Q : PUnit → σ → Prop} (h : Q ⟨⟩ (g s)) : Runs (modify g) s Q := ⟨⟨⟩, g s, rfl, h⟩

/-- A loop over a list keeps what each of its rounds keeps; `I` also tells the part of the list that is done. -/
theorem foldlM {g : α → β → StateT σ Option α} {l : List β} (I : List β → α → σ → Prop) {a : α}
    (hstep : ∀ front b a s, b ∈ l → I front a s → Runs (g a b) s (I (front ++ [b]))) (h : I [] a s) :
    Runs (l.foldlM g a) s (I l) := by
  suffices ∀ front, I front a s → Runs (l.foldlM g a) s (I (front ++ l)) from this [] h
  clear h
  induction l generalizing a s with
  | nil =>
    intro front h
    exact ret (by simpa using h)
  | cons b l ih =>
    intro front h
    rw [List.foldlM_cons]
    refine bind ((hstep front b a s List.mem_cons_self h).mono fun a t ht => ?_)
    have := ih (fun front b a s hb => hstep front b a s (List.mem_cons_of_mem _ hb)) (front ++ [b]) ht
    simpa using this

end Runs

/-- Where the first program gives a result, the second gives the same. -/
def Extends {σ α : Type} (x y : StateT σ Option α) : Prop := ∀ s r, x s = some r → y s = some r

namespace Extends
variable {σ α β : Type} {x y : StateT σ Option α} {f g : α → StateT σ Option β}

theorem refl (x : StateT σ Option α) : Extends x x := fun _ _ h => h

theorem bind (h : Extends x y) (hf : ∀ a, Extends (f a) (g a)) : Extends (x >>= f) (y >>= g) := by
  intro s r hr
  have hx : (x s).bind (fun p => f p.1 p.2) = some r := hr
  obtain ⟨p, hp, hr⟩ := Option.bind_eq_some_iff.mp hx
  show (y s).bind (fun p => g p.1 p.2) = some r
  rw [h s p hp]
  exact hf p.1 p.2 r hr

theorem foldlM {f g : α → β → StateT σ Option α} (h : ∀ a b, Extends (f a b) (g a b)) (l : List β) (a : α) :
    Extends (l.foldlM f a) (l.foldlM g a) := by
  induction l generalizing a with
  | nil => exact refl _
  | cons b l ih =>
    rw [List.foldlM_cons, List.foldlM_cons]
    exact bind (h a b) ih

end Extends
