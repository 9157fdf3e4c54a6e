import Mathlib.Data.List.Perm.Lattice
import Mathlib.Data.List.Infix

/-! # Concatenated words

A list of items is written down as the concatenation of one word per item, with nothing in between.
When does the text determine the items, and when does it not depend on their order? -/

namespace Words
variable {α β : Type}

/-! ### Separable words -/

/-- No word of the one list is the beginning of another word of the other list. -/
def PrefixFree (xs ys : List (List α)) : Prop := ∀ x ∈ xs, ∀ y ∈ ys, x <+: y ∨ y <+: x → x = y

instance [DecidableEq α] (xs ys : List (List α)) : Decidable (PrefixFree xs ys) :=
  inferInstanceAs (Decidable (∀ x ∈ xs, ∀ y ∈ ys, x <+: y ∨ y <+: x → x = y))

/-- The words are prefix-free, or no text has more than one. -/
def Separable (xs ys : List (List α)) : Prop := PrefixFree xs ys ∨ (xs.length ≤ 1 ∧ ys.length ≤ 1)

instance [DecidableEq α] (xs ys : List (List α)) : Decidable (Separable xs ys) :=
  inferInstanceAs (Decidable (_ ∨ _))

/-- A text without words is that of no non-empty words only. -/
theorem eq_nil_of_flatten_eq_nil {ws : List (List α)} (hne : ∀ w ∈ ws, w ≠ []) (h : ws.flatten = []) : ws = [] := by
  cases ws with
  | nil => rfl
  | cons w ws => exact absurd (List.append_eq_nil_iff.mp h).1 (hne w List.mem_cons_self)

theorem PrefixFree.eq_of_flatten_eq {xs ys : List (List α)} (hpf : PrefixFree xs ys) (hx : ∀ w ∈ xs, w ≠ [])
    (hy : ∀ w ∈ ys, w ≠ []) (h : xs.flatten = ys.flatten) : xs = ys := by
  induction xs generalizing ys with
  | nil => exact (eq_nil_of_flatten_eq_nil hy h.symm).symm
  | cons x xs ih =>
    cases ys with
    | nil => exact eq_nil_of_flatten_eq_nil hx h
    | cons y ys =>
      rw [List.flatten_cons, List.flatten_cons] at h
      -- both first words begin the same text, so one begins the other
      have hbegin : y <+: x ++ xs.flatten := h ▸ List.prefix_append y ys.flatten
      have hxy : x = y := hpf x List.mem_cons_self y List.mem_cons_self
        (List.prefix_or_prefix_of_prefix (List.prefix_append x xs.flatten) hbegin)
      subst hxy
      rw [List.append_cancel_left_eq] at h
      have hrest : PrefixFree xs ys := fun u hu w hw => hpf u (List.mem_cons_of_mem _ hu) w (List.mem_cons_of_mem _ hw)
      rw [ih hrest (List.forall_mem_of_forall_mem_cons hx) (List.forall_mem_of_forall_mem_cons hy) h]

theorem eq_of_length_le_one {xs ys : List (List α)} (hxs : xs.length ≤ 1) (hys : ys.length ≤ 1) (hx : ∀ w ∈ xs, w ≠ [])
    (hy : ∀ w ∈ ys, w ≠ []) (h : xs.flatten = ys.flatten) : xs = ys := by
  match xs, ys with
  | [], _ => exact (eq_nil_of_flatten_eq_nil hy h.symm).symm
  | _, [] => exact eq_nil_of_flatten_eq_nil hx h
  | [x], [y] => simpa using h

/-- The text of separable non-empty words can be taken apart in one way only. -/
theorem Separable.eq_of_flatten_eq {xs ys : List (List α)} (hsep : Separable xs ys) (hx : ∀ w ∈ xs, w ≠ [])
    (hy : ∀ w ∈ ys, w ≠ []) (h : xs.flatten = ys.flatten) : xs = ys := by
  rcases hsep with hpf | ⟨hxs, hys⟩
  · exact hpf.eq_of_flatten_eq hx hy h
  · exact eq_of_length_le_one hxs hys hx hy h

/-! ### Commuting words -/

/-- Items whose words commute give the same text in any order. -/
theorem flatMap_eq_of_perm {f : β → List α} {l l' : List β} (hp : l.Perm l')
    (hc : ∀ x ∈ l, ∀ y ∈ l, f x ++ f y = f y ++ f x) : l.flatMap f = l'.flatMap f := by
  induction hp with
  | nil => rfl
  | cons x _ ih =>
    rw [List.flatMap_cons, List.flatMap_cons,
      ih fun y hy z hz => hc y (List.mem_cons_of_mem _ hy) z (List.mem_cons_of_mem _ hz)]
  | swap x y l =>
    simp only [List.flatMap_cons, ← List.append_assoc]
    rw [hc y (by simp) x (by simp)]
  | trans h₁ _ ih₁ ih₂ =>
    rw [ih₁ hc]
    exact ih₂ fun x hx y hy => hc x (h₁.mem_iff.mpr hx) y (h₁.mem_iff.mpr hy)

theorem perm_cons_cons {l : List β} {x y : β} (hx : x ∈ l) (hy : y ∈ l) (hne : x ≠ y) :
    ∃ rest, l.Perm (x :: y :: rest) := by
  classical
  have hy' : y ∈ l.erase x := (List.mem_erase_of_ne (Ne.symm hne)).mpr hy
  exact ⟨_, (List.perm_cons_erase hx).trans ((List.perm_cons_erase hy').cons x)⟩

/-- The text does not depend on the order exactly if the words commute. -/
theorem flatMap_const_iff {f : β → List α} {items : List β} :
    (∀ l l' : List β, l.Perm items → l'.Perm items → l.flatMap f = l'.flatMap f) ↔
      ∀ x ∈ items, ∀ y ∈ items, f x ++ f y = f y ++ f x := by
  constructor
  · intro h x hx y hy
    by_cases hxy : x = y
    · rw [hxy]
    · obtain ⟨rest, hp⟩ := perm_cons_cons hx hy hxy
      have heq := h _ _ hp.symm ((List.Perm.swap x y rest).trans hp.symm)
      simp only [List.flatMap_cons, ← List.append_assoc] at heq
      exact List.append_cancel_right heq
  · intro h l l' hl hl'
    refine flatMap_eq_of_perm (hl.trans hl'.symm) fun x hx y hy => ?_
    exact h x (hl.mem_iff.mp hx) y (hl.mem_iff.mp hy)

theorem eq_of_flatMap_eq {f g : β → List α} {l : List β} (hlen : ∀ x ∈ l, (f x).length = (g x).length)
    (h : l.flatMap f = l.flatMap g) : ∀ x ∈ l, f x = g x := by
  induction l with
  | nil => simp
  | cons x l ih =>
    rw [List.flatMap_cons, List.flatMap_cons] at h
    obtain ⟨hx, hrest⟩ := List.append_inj h (hlen x List.mem_cons_self)
    exact List.forall_mem_cons.mpr ⟨hx, ih (fun y hy => hlen y (List.mem_cons_of_mem _ hy)) hrest⟩

theorem length_flatMap_of_perm {f : β → List α} {l l' : List β} (hp : l.Perm l') :
    (l.flatMap f).length = (l'.flatMap f).length := (hp.flatMap_right f).length_eq

end Words
