import Mathlib.Data.List.Nodup

/-! # Keyed stores

A finite collection that holds at most one item under each key, with the writes of an object store:
`put` creates or replaces, `erase` deletes. -/

/-- A finite collection of items with distinct keys. -/
structure Store {κ α : Type} (key : α → κ) where
  items : List α
  nodup : (items.map key).Nodup

namespace Store
variable {κ α : Type} {key : α → κ}

def empty : Store key := ⟨[], List.nodup_nil⟩

theorem items_nodup (s : Store key) : s.items.Nodup := s.nodup.of_map

theorem eq_of_key {s : Store key} {a b : α} (ha : a ∈ s.items) (hb : b ∈ s.items) (h : key a = key b) : a = b :=
  List.inj_on_of_nodup_map s.nodup ha hb h

theorem ext_items {s t : Store key} (h : s.items = t.items) : s = t := by
  cases s
  cases t
  cases h
  rfl

variable [DecidableEq κ]

def get? (s : Store key) (k : κ) : Option α := s.items.find? fun a => key a = k

def erase (s : Store key) (k : κ) : Store key where
  items := s.items.filter fun a => key a ≠ k
  nodup := s.nodup.sublist (List.filter_sublist.map key)

def put (s : Store key) (a : α) : Store key where
  items := (s.erase (key a)).items ++ [a]
  nodup := by
    rw [List.map_append, List.nodup_append]
    refine ⟨(s.erase (key a)).nodup, List.nodup_singleton _, ?_⟩
    intro k hk k' hk' he
    obtain ⟨x, hx, rfl⟩ := List.mem_map.mp hk
    obtain rfl := List.mem_singleton.mp hk'
    simpa [he] using (List.mem_filter.mp hx).2

@[simp] theorem mem_erase {s : Store key} {k : κ} {a : α} : a ∈ (s.erase k).items ↔ a ∈ s.items ∧ key a ≠ k := by
  simp [erase]

@[simp] theorem mem_put {s : Store key} {a b : α} :
    b ∈ (s.put a).items ↔ (b ∈ s.items ∧ key b ≠ key a) ∨ b = a := by
  simp [put]

theorem get?_eq_some {s : Store key} {k : κ} {a : α} : s.get? k = some a ↔ a ∈ s.items ∧ key a = k := by
  constructor
  · intro h
    exact ⟨List.mem_of_find?_eq_some h, by simpa using List.find?_some h⟩
  · intro hgiven
    rcases hgiven with ⟨ha, hk⟩
    cases hg : s.get? k with
    | none =>
      have := List.find?_eq_none.mp hg a ha
      simp [hk] at this
    | some b =>
      have hb : b ∈ s.items ∧ key b = k := ⟨List.mem_of_find?_eq_some hg, by simpa using List.find?_some hg⟩
      rw [eq_of_key ha hb.1 (hk.trans hb.2.symm)]

theorem get?_eq_none {s : Store key} {k : κ} : s.get? k = none ↔ ∀ a ∈ s.items, key a ≠ k := by
  simp [get?]

theorem get?_put (s : Store key) (a : α) (k : κ) : (s.put a).get? k = if key a = k then some a else s.get? k := by
  split
  · next hk => exact get?_eq_some.mpr ⟨mem_put.mpr (Or.inr rfl), hk⟩
  · next hk =>
    cases hg : s.get? k with
    | none =>
      rw [get?_eq_none] at hg ⊢
      intro b hb
      rcases mem_put.mp hb with ⟨hb, -⟩ | rfl
      · exact hg b hb
      · exact hk
    | some b =>
      obtain ⟨hb, rfl⟩ := get?_eq_some.mp hg
      exact get?_eq_some.mpr ⟨mem_put.mpr (Or.inl ⟨hb, fun h => hk h.symm⟩), rfl⟩

theorem get?_erase (s : Store key) (k k' : κ) : (s.erase k).get? k' = if k = k' then none else s.get? k' := by
  split
  · next hk =>
    subst hk
    exact get?_eq_none.mpr fun a ha => (mem_erase.mp ha).2
  · next hk =>
    cases hg : s.get? k' with
    | none =>
      rw [get?_eq_none] at hg ⊢
      exact fun a ha => hg a (mem_erase.mp ha).1
    | some a =>
      obtain ⟨ha, rfl⟩ := get?_eq_some.mp hg
      exact get?_eq_some.mpr ⟨mem_erase.mpr ⟨ha, fun h => hk h.symm⟩, rfl⟩

theorem filter_erase {s : Store key} {k : κ} {p : α → Bool} (h : ∀ a, s.get? k = some a → ¬p a = true) :
    (s.erase k).items.filter p = s.items.filter p := by
  rw [erase, List.filter_filter]
  refine List.filter_congr fun a ha => ?_
  by_cases hk : key a = k
  · simp [h a (get?_eq_some.mpr ⟨ha, hk⟩)]
  · simp [hk]

theorem filter_put {s : Store key} {a : α} {p : α → Bool} (hold : ∀ b, s.get? (key a) = some b → ¬p b = true)
    (hnew : ¬p a = true) : (s.put a).items.filter p = s.items.filter p := by
  rw [put, List.filter_append, filter_erase hold, List.filter_singleton]
  simp [hnew]

/-- Items with new keys are stored in the order in which they are put. -/
theorem items_foldl_put {l : List α} {s : Store key} (h : ((s.items ++ l).map key).Nodup) :
    (l.foldl put s).items = s.items ++ l := by
  induction l generalizing s with
  | nil => simp
  | cons a l ih =>
    have hput : (s.put a).items = s.items ++ [a] := by
      refine congrArg (· ++ [a]) (List.filter_eq_self.mpr fun b hb => ?_)
      rw [List.map_append, List.map_cons, List.nodup_append] at h
      exact decide_eq_true (h.2.2 _ (List.mem_map_of_mem hb) _ List.mem_cons_self)
    rw [List.foldl_cons, ih, hput, List.append_assoc, List.singleton_append]
    rwa [hput, List.append_assoc, List.singleton_append]

end Store
