import Mathlib.Logic.Relation
import Mathlib.Order.OrderIsoNat

/-! # Endless runs

Two rules for a step relation: there is no endless run if every step leaves less to do, and there is one if
from wherever a round starts there is a round that leads to the start of the next. -/

/-- An endless run from `s`. -/
structure Endless {σ : Type} (r : σ → σ → Prop) (s : σ) (run : Nat → σ) : Prop where
  start : run 0 = s
  next : ∀ n, r (run n) (run (n + 1))

namespace Endless
variable {σ β : Type} {r : σ → σ → Prop} {P : σ → Prop} {s : σ}

theorem invariant {run : Nat → σ} (h : Endless r s run) (hstep : ∀ s t, P s → r s t → P t) (hs : P s)
    (n : Nat) : P (run n) := by
  induction n with
  | zero => exact h.start ▸ hs
  | succ n ih => exact hstep _ _ ih (h.next n)

/-- The rule of descent: `m` gets less with every step that starts where `P` holds. -/
theorem not_of_descent {lt : β → β → Prop} (hwf : WellFounded lt) (m : σ → β) (hstep : ∀ s t, P s → r s t → P t)
    (hless : ∀ s t, P s → r s t → lt (m t) (m s)) (hs : P s) : ¬∃ run, Endless r s run := by
  rintro ⟨run, h⟩
  refine (wellFounded_iff_isEmpty_descending_chain.mp hwf).elim ⟨fun n => m (run n), fun n => ?_⟩
  exact hless _ _ (h.invariant hstep hs n) (h.next n)

/-! ### Rounds -/

/-- In `n` steps one can be where `Q` holds. -/
def Within (r : σ → σ → Prop) (Q : σ → Prop) : Nat → σ → Prop
  | 0, s => Q s
  | n + 1, s => ∃ t, r s t ∧ Within r Q n t

theorem within_of_transGen {Q : σ → Prop} {t : σ} (h : Relation.TransGen r s t) (ht : Q t) : ∃ n, Within r Q (n + 1) s := by
  induction h using Relation.TransGen.head_induction_on with
  | single h => exact ⟨0, t, h, ht⟩
  | head h _ ih =>
    obtain ⟨n, hn⟩ := ih
    exact ⟨n + 1, _, h, hn⟩

/-- A moment of a round that started in `origin`: `left + 1` steps remain of it. -/
structure Moment (r : σ → σ → Prop) (P : Nat → σ → Prop) (R : Nat → σ → σ → Prop) where
  round : Nat
  origin : σ
  state : σ
  left : Nat
  within : Within r (fun t => P (round + 1) t ∧ R round origin t) (left + 1) state

section Rounds
variable {P : Nat → σ → Prop} {R : Nat → σ → σ → Prop}
  (h : ∀ n s, P n s → ∃ t, Relation.TransGen r s t ∧ P (n + 1) t ∧ R n s t)
include h

theorem Moment.exists_start {n : Nat} (hs : P n s) :
    ∃ x : Moment r P R, x.round = n ∧ x.origin = s ∧ x.state = s := by
  obtain ⟨t, hst, ht⟩ := h n s hs
  obtain ⟨k, hk⟩ := within_of_transGen (Q := fun t => P (n + 1) t ∧ R n s t) hst ht
  exact ⟨⟨n, s, s, k, hk⟩, rfl, rfl, rfl⟩

theorem Moment.exists_next (x : Moment r P R) : ∃ y : Moment r P R, r x.state y.state ∧
    (x.left = y.left + 1 ∧ y.round = x.round ∧ y.origin = x.origin ∨
      x.left = 0 ∧ y.round = x.round + 1 ∧ y.origin = y.state ∧ R x.round x.origin y.state) := by
  obtain ⟨n, origin, s, left, t, hst, ht⟩ := x
  cases left with
  | zero =>
    obtain ⟨y, hround, horigin, hstate⟩ := Moment.exists_start h ht.1
    exact ⟨y, hstate ▸ hst, Or.inr ⟨rfl, hround, horigin.trans hstate.symm, hstate ▸ ht.2⟩⟩
  | succ left => exact ⟨⟨n, origin, t, left, ht⟩, hst, Or.inl ⟨rfl, rfl, rfl⟩⟩

/-- The rule of rounds: if every round leads to the start of the next, there is an endless run that consists of rounds. -/
theorem of_rounds (hs : P 0 s) : ∃ (run : Nat → σ) (start : Nat → Nat),
    Endless r s run ∧ start 0 = 0 ∧ StrictMono start ∧ ∀ n, R n (run (start n)) (run (start (n + 1))) := by
  obtain ⟨x₀, hround, horigin, hstate⟩ := Moment.exists_start h hs
  choose next hnext using Moment.exists_next h
  let x (n : Nat) : Moment r P R := next^[n] x₀
  have hx (n : Nat) : x (n + 1) = next (x n) := Function.iterate_succ_apply' ..
  -- a round goes on for as many steps as remain of it
  have hrest (m k : Nat) (hk : k ≤ (x m).left) : (x (m + k)).left + k = (x m).left ∧
      (x (m + k)).round = (x m).round ∧ (x (m + k)).origin = (x m).origin := by
    induction k with
    | zero => exact ⟨rfl, rfl, rfl⟩
    | succ k ih =>
      obtain ⟨hleft, hr, ho⟩ := ih (by omega)
      rw [show m + (k + 1) = m + k + 1 from rfl, hx]
      rcases (hnext (x (m + k))).2 with ⟨hleft', hr', ho'⟩ | ⟨hzero, -⟩
      · exact ⟨by omega, hr'.trans hr, ho'.trans ho⟩
      · omega
  let start (n : Nat) : Nat := (fun m => m + (x m).left + 1)^[n] 0
  have hsucc (n : Nat) : start (n + 1) = start n + (x (start n)).left + 1 := Function.iterate_succ_apply' ..
  have hturn (m : Nat) : (x (m + (x m).left + 1)).round = (x m).round + 1 ∧
      (x (m + (x m).left + 1)).origin = (x (m + (x m).left + 1)).state ∧
      R (x m).round (x m).origin (x (m + (x m).left + 1)).state := by
    obtain ⟨hleft, hr, ho⟩ := hrest m (x m).left le_rfl
    rcases (hnext (x (m + (x m).left))).2 with ⟨hleft', -⟩ | ⟨-, hr', ho', hR⟩
    · omega
    · rw [hx]
      exact ⟨hr'.trans (congrArg (· + 1) hr), ho', hr ▸ ho ▸ hR⟩
  have hstart (n : Nat) : (x (start n)).round = n ∧ (x (start n)).origin = (x (start n)).state := by
    induction n with
    | zero => exact ⟨hround, horigin.trans hstate.symm⟩
    | succ n ih =>
      obtain ⟨hr, ho, -⟩ := hturn (start n)
      rw [hsucc]
      exact ⟨hr.trans (congrArg (· + 1) ih.1), ho⟩
  refine ⟨fun n => (x n).state, start, ⟨hstate, fun n => hx n ▸ (hnext (x n)).1⟩, rfl,
    strictMono_nat_of_lt_succ fun n => by rw [hsucc]; omega, fun n => ?_⟩
  have hR := (hturn (start n)).2.2
  rw [(hstart n).1, (hstart n).2, ← hsucc] at hR
  exact hR

end Rounds

end Endless
