import EnvoyMesh.Api
import Mathlib.Logic.Relation

/-! # Runs of the API server

The API server gives every object it writes a resource version: a decimal number that is greater than
all it gave out before. So a version names one state of one object, for all times. -/

namespace EnvoyMesh

structure ApiServer where
  api : API
  counter : Nat

namespace ApiServer

def empty : ApiServer := ⟨.empty, 0⟩

def write (s : ApiServer) (x : Object) (n : Nat) : ApiServer := ⟨s.api.put x, n⟩

def delete (s : ApiServer) (k : ObjectKey) : ApiServer := ⟨s.api.erase k, s.counter⟩

inductive Step : ApiServer → ApiServer → Prop where
  | write (s : ApiServer) (x : Object) (n : Nat) (hn : s.counter < n) (hx : x.metadata.resourceVersion = n.repr) :
      Step s (s.write x n)
  | delete (s : ApiServer) (k : ObjectKey) : Step s (s.delete k)

def Run : ApiServer → ApiServer → Prop := Relation.ReflTransGen Step

end ApiServer

/-! ### Stored objects -/

section Stored
variable {a : API} {x : Object} {k k' : ObjectKey}

theorem API.get?_put (a : API) (x : Object) (k : ObjectKey) :
    (a.put x).get? k = if x.key = k then some x else a.get? k := by
  cases x <;> cases k <;> simp only [API.put, API.get?, Object.key, Store.get?_put, reduceCtorEq, if_false] <;>
    split <;> simp_all

theorem API.get?_erase (a : API) (k k' : ObjectKey) : (a.erase k).get? k' = if k = k' then none else a.get? k' := by
  cases k <;> cases k' <;> simp only [API.erase, API.get?, Store.get?_erase, reduceCtorEq, if_false] <;>
    split <;> simp_all

def API.Holds (a : API) (x : Object) : Prop := a.get? x.key = some x

theorem API.holds_put {y : Object} (h : (a.put x).Holds y) : a.Holds y ∨ y = x := by
  rw [API.Holds, API.get?_put] at h
  split at h
  · exact Or.inr (Option.some.inj h).symm
  · exact Or.inl h

theorem API.holds_erase (h : (a.erase k).Holds x) : a.Holds x := by
  rw [API.Holds, API.get?_erase] at h
  split at h
  · cases h
  · exact h

end Stored

/-! ### Resource versions -/

theorem repr_injective {m n : Nat} (h : m.repr = n.repr) : m = n := by
  have hdigits : Nat.toDigits 10 m = Nat.toDigits 10 n := by rw [← Nat.toList_repr, ← Nat.toList_repr, h]
  rw [← Nat.ofDigitChars_ten_toDigits (n := m), hdigits, Nat.ofDigitChars_ten_toDigits]

namespace ApiServer

/-- A stored object carries a version that was given out, and no other stored object carries the same. -/
structure Versioned (s : ApiServer) : Prop where
  given : ∀ x, s.api.Holds x → ∃ n, n ≤ s.counter ∧ x.metadata.resourceVersion = n.repr
  unique : ∀ x y, s.api.Holds x → s.api.Holds y → x.metadata.resourceVersion = y.metadata.resourceVersion → x = y

theorem versioned_empty : empty.Versioned where
  given x h := by cases x <;> cases h
  unique x _ h := by cases x <;> cases h

theorem Versioned.step {s t : ApiServer} (h : s.Versioned) (hs : s.Step t) : t.Versioned := by
  cases hs with
  | write x n hn hx =>
    have hne (y : Object) (hy : s.api.Holds y) : y.metadata.resourceVersion ≠ x.metadata.resourceVersion := by
      obtain ⟨m, hm, hym⟩ := h.given y hy
      rw [hym, hx]
      intro heq
      have := repr_injective heq
      omega
    refine ⟨fun y hy => ?_, fun y z hy hz hyz => ?_⟩
    · rcases API.holds_put hy with hy | rfl
      · obtain ⟨m, hm, hym⟩ := h.given y hy
        exact ⟨m, by show m ≤ n; omega, hym⟩
      · exact ⟨n, Nat.le_refl n, hx⟩
    · rcases API.holds_put hy with hy' | rfl <;> rcases API.holds_put hz with hz' | rfl
      · exact h.unique y z hy' hz' hyz
      · exact absurd hyz (hne y hy')
      · exact absurd hyz.symm (hne z hz')
      · rfl
  | delete k =>
    exact ⟨fun y hy => h.given y (API.holds_erase hy),
      fun y z hy hz => h.unique y z (API.holds_erase hy) (API.holds_erase hz)⟩

theorem Versioned.run {s t : ApiServer} (h : s.Versioned) (hr : s.Run t) : t.Versioned := by
  induction hr with
  | refl => exact h
  | tail _ hs ih => exact ih.step hs

theorem Run.counter_le {s t : ApiServer} (hr : s.Run t) : s.counter ≤ t.counter := by
  induction hr with
  | refl => exact Nat.le_refl _
  | tail _ hs ih =>
    cases hs with
    | write x n hn => exact Nat.le_trans ih (Nat.le_of_lt hn)
    | delete => exact ih

theorem Run.holds {s t : ApiServer} (hr : s.Run t) {y : Object} (hy : t.api.Holds y) :
    s.api.Holds y ∨ ∃ n, s.counter < n ∧ y.metadata.resourceVersion = n.repr := by
  induction hr with
  | refl => exact Or.inl hy
  | @tail u _ hu hs ih =>
    cases hs with
    | write x n hn hx =>
      rcases API.holds_put hy with hy' | rfl
      · exact ih hy'
      · exact Or.inr ⟨n, Nat.lt_of_le_of_lt (Run.counter_le hu) hn, hx⟩
    | delete k => exact ih (API.holds_erase hy)

/-- A version names the same object at any two moments of a run. -/
theorem eq_of_resourceVersion {s t : ApiServer} (hs : empty.Run s) (hr : s.Run t) {x y : Object} (hx : s.api.Holds x)
    (hy : t.api.Holds y) (h : x.metadata.resourceVersion = y.metadata.resourceVersion) : x = y := by
  have hv : s.Versioned := versioned_empty.run hs
  rcases hr.holds hy with hy' | ⟨n, hn, hyn⟩
  · exact hv.unique x y hx hy' h
  · obtain ⟨m, hm, hxm⟩ := hv.given x hx
    have := repr_injective (hxm.symm.trans (h.trans hyn))
    omega

end ApiServer

end EnvoyMesh
