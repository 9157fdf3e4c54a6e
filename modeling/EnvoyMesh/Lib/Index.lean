import Mathlib.Data.List.Induction
import Mathlib.Data.List.Nodup
import Mathlib.Data.List.Perm.Basic
import Mathlib.Logic.Function.Basic

/-! # Indexing by name

A list turned into a map by a loop of assignments: a later item replaces an earlier one of the same
name. -/

namespace Index
variable {α κ : Type} [DecidableEq κ]

/-- The map that `for x in items { m[name x] = x }` leaves. -/
def byName (name : α → κ) (items : List α) : κ → Option α :=
  items.foldl (fun m x => Function.update m (name x) (some x)) fun _ => none

variable {name : α → κ} {items : List α} {n : κ} {x : α}

theorem foldl_update_apply (m : κ → Option α) :
    items.foldl (fun m x => Function.update m (name x) (some x)) m n =
      (items.filter fun x => name x = n).getLast?.or (m n) := by
  induction items generalizing m with
  | nil => rfl
  | cons x items ih =>
    rw [List.foldl_cons, ih, List.filter_cons]
    by_cases hx : name x = n
    · subst hx
      simp only [Function.update_self, decide_true, ite_true, List.getLast?_cons]
      cases (items.filter fun y => name y = name x).getLast? <;> simp
    · rw [Function.update_of_ne (Ne.symm hx)]
      simp [hx]

theorem byName_apply : byName name items n = (items.filter fun x => name x = n).getLast? := by
  rw [byName, foldl_update_apply, Option.or_none]

theorem name_of_byName (h : byName name items n = some x) : x ∈ items ∧ name x = n := by
  rw [byName_apply] at h
  simpa using List.mem_of_getLast? h

theorem byName_isSome : (byName name items n).isSome ↔ ∃ x ∈ items, name x = n := by
  rw [byName_apply, List.getLast?_isSome, Ne, List.filter_eq_nil_iff]
  simp

theorem byName_append {front back : List α} :
    byName name (front ++ back) n = (byName name back n).or (byName name front n) := by
  rw [byName_apply, byName_apply, byName_apply, List.filter_append, List.getLast?_append]

theorem byName_concat : byName name (items ++ [x]) n = if name x = n then some x else byName name items n := by
  rw [byName_append, byName_apply, List.filter_singleton]
  by_cases hx : name x = n
  · simp [hx]
  · simp [hx]

theorem byName_concat_self (name : α → κ) (items : List α) (x : α) : byName name (items ++ [x]) (name x) = some x := by
  rw [byName_concat, if_pos rfl]

theorem byName_of_nodup (h : (items.map name).Nodup) (hx : x ∈ items) : byName name items (name x) = some x := by
  have hsome : (byName name items (name x)).isSome := byName_isSome.mpr ⟨x, hx, rfl⟩
  obtain ⟨y, hy⟩ := Option.isSome_iff_exists.mp hsome
  obtain ⟨hmem, hname⟩ := name_of_byName hy
  rw [hy, List.inj_on_of_nodup_map h hmem hx hname]

/-- The same loop with values of the items. -/
theorem foldl_update_value {β : Type} {value : α → β} (m : κ → β) :
    items.foldl (fun m x => Function.update m (name x) (value x)) m n = (byName name items n).elim (m n) value := by
  induction items using List.reverseRecOn with
  | nil => rfl
  | append_singleton items x ih =>
    rw [List.foldl_append, List.foldl_cons, List.foldl_nil, Function.update_apply, byName_concat, ih]
    by_cases hx : name x = n
    · rw [if_pos hx.symm, if_pos hx, Option.elim_some]
    · rw [if_neg (Ne.symm hx), if_neg hx]

/-- The entry of a name is the last item of that name. -/
theorem byName_eq_some_iff :
    byName name items n = some x ↔ ∃ front back, items = front ++ x :: back ∧ name x = n ∧ ∀ y ∈ back, name y ≠ n := by
  rw [byName_apply, List.getLast?_filter, List.find?_eq_some_iff_append]
  constructor
  · rintro ⟨hx, back, front, hsplit, hback⟩
    refine ⟨front.reverse, back.reverse, ?_, of_decide_eq_true hx, fun y hy => ?_⟩
    · simpa using congrArg List.reverse hsplit
    · simpa using hback y (List.mem_reverse.mp hy)
  · rintro ⟨front, back, rfl, hx, hback⟩
    refine ⟨decide_eq_true hx, back.reverse, front.reverse, by simp, fun y hy => ?_⟩
    simpa using hback y (List.mem_reverse.mp hy)

theorem byName_flatMap_eq_some {β : Type} {g : β → List α} {items : List β} (h : byName name (items.flatMap g) n = some x) :
    ∃ z ∈ items, byName name (g z) n = some x := by
  induction items with
  | nil => cases h
  | cons z items ih =>
    rw [List.flatMap_cons, byName_append] at h
    rcases Option.or_eq_some_iff.mp h with h | ⟨-, h⟩
    · obtain ⟨z', hz', hx⟩ := ih h
      exact ⟨z', List.mem_cons_of_mem _ hz', hx⟩
    · exact ⟨z, List.mem_cons_self, h⟩

/-- An item can be brought to the end. -/
theorem exists_perm_concat {β : Type} {items : List β} {z : β} (h : z ∈ items) :
    ∃ front : List β, (front ++ [z]).Perm items := by
  classical
  exact ⟨items.erase z, (List.perm_append_singleton z _).trans (List.perm_cons_erase h).symm⟩

/-- What the items give is indexed item after item, in any order. The entries are exactly the elements of `D`,
    which has one for each name, exactly if each item alone gives elements of `D`: any of them may be the last. -/
theorem byName_flatMap_perm_iff {β : Type} {g : β → List α} {D : List α} {items : List β}
    (hmem : ∀ d ∈ D, ∃ z ∈ items, d ∈ g z) (hinj : ∀ a ∈ D, ∀ b ∈ D, name a = name b → a = b) :
    (∀ l : List β, l.Perm items → ∀ n x, byName name (l.flatMap g) n = some x ↔ x ∈ D ∧ name x = n) ↔
      ∀ z ∈ items, ∀ n x, byName name (g z) n = some x → x ∈ D := by
  constructor
  · intro h z hz n x hx
    obtain ⟨front, hperm⟩ := exists_perm_concat hz
    have hlast : byName name ((front ++ [z]).flatMap g) n = some x := by
      rw [List.flatMap_append, byName_append, List.flatMap_singleton, hx, Option.some_or]
    exact ((h _ hperm n x).mp hlast).1
  · intro h l hperm n x
    have hentry {y : α} (hy : byName name (l.flatMap g) n = some y) : y ∈ D ∧ name y = n := by
      obtain ⟨z, hz, hzy⟩ := byName_flatMap_eq_some hy
      exact ⟨h z (hperm.mem_iff.mp hz) n y hzy, (name_of_byName hy).2⟩
    refine ⟨hentry, ?_⟩
    rintro ⟨hx, rfl⟩
    obtain ⟨z, hz, hxz⟩ := hmem x hx
    have hsome : (byName name (l.flatMap g) (name x)).isSome :=
      byName_isSome.mpr ⟨x, List.mem_flatMap.mpr ⟨z, hperm.mem_iff.mpr hz, hxz⟩, rfl⟩
    obtain ⟨y, hy⟩ := Option.isSome_iff_exists.mp hsome
    rw [hy, hinj y (hentry hy).1 x hx (hentry hy).2]

/-- The entry of a name does not depend on the order of the items exactly if those that give something of
    the name give the same. -/
theorem byName_filterMap_const_iff {β : Type} {g : β → Option α} {items : List β} :
    (∀ l l' : List β, l.Perm items → l'.Perm items → byName name (l.filterMap g) n = byName name (l'.filterMap g) n) ↔
      ∀ x ∈ items, ∀ y ∈ items, ∀ a b, g x = some a → g y = some b → name a = n → name b = n → a = b := by
  constructor
  · intro h x hx y hy a b ha hb hna hnb
    -- the entry is that of an item that was brought to the end
    have hlast (z : β) (hz : z ∈ items) (c : α) (hc : g z = some c) (hn : name c = n) :
        ∃ l : List β, l.Perm items ∧ byName name (l.filterMap g) n = some c := by
      obtain ⟨front, hperm⟩ := exists_perm_concat hz
      refine ⟨front ++ [z], hperm, ?_⟩
      subst hn
      rw [List.filterMap_append, List.filterMap_cons_some hc]
      exact byName_concat_self ..
    obtain ⟨l, hl, hla⟩ := hlast x hx a ha hna
    obtain ⟨l', hl', hlb⟩ := hlast y hy b hb hnb
    exact Option.some.inj (hla.symm.trans ((h l l' hl hl').trans hlb))
  · intro h l l' hl hl'
    have hmem (m : List β) (hm : m.Perm items) {a : α} (ha : byName name (m.filterMap g) n = some a) :
        ∃ x ∈ items, g x = some a ∧ name a = n := by
      obtain ⟨hin, hna⟩ := name_of_byName ha
      obtain ⟨x, hx, hg⟩ := List.mem_filterMap.mp hin
      exact ⟨x, hm.mem_iff.mp hx, hg, hna⟩
    have hiff : (byName name (l.filterMap g) n).isSome ↔ (byName name (l'.filterMap g) n).isSome := by
      simp only [byName_isSome, ((hl.trans hl'.symm).filterMap g).mem_iff]
    cases ha : byName name (l.filterMap g) n with
    | none => exact (Option.not_isSome_iff_eq_none.mp fun hs => by simp [ha, hs] at hiff).symm
    | some a =>
      obtain ⟨b, hb⟩ := Option.isSome_iff_exists.mp (hiff.mp (by rw [ha]; rfl))
      obtain ⟨x, hx, hgx, hnx⟩ := hmem l hl ha
      obtain ⟨y, hy, hgy, hny⟩ := hmem l' hl' hb
      rw [hb, h x hx y hy a b hgx hgy hnx hny]

end Index
