import EnvoyMesh.Theorems.Diagnosis
import EnvoyMesh.Theorems.NoLostUpdate
import EnvoyMesh.Theorems.StatusWrites

/-! # While a spec is malformed

A Reconcile lists every type before it builds. As long as there is a malformed spec of one type for a proxy, each
Reconcile that starts meets one and fails, whatever else changes in the meantime: what is served stays as it is, and
the proxy stays in the work queue. -/

namespace EnvoyMesh
open Prog

/-- The objects of a type that target the proxy. -/
def API.items (a : API) (key : NamespacedName) : ResourceType → List XDSResource
  | .listeners => API.targeting key a.listeners.items
  | .clusters => (a.clustersOf key).map (·.toXDSResource)
  | .routes => API.targeting key a.routeConfigurations.items
  | .scopedRoutes => API.targeting key a.scopedRouteConfigurations.items
  | .endpoints => a.assignmentsOf key

/-- The spec of one of them does not decode. -/
def API.Malformed (pj : Protojson) (a : API) (key : NamespacedName) (t : ResourceType) : Prop :=
  ∃ x ∈ a.items key t, pj.malformed? t x.spec ≠ none

instance (pj : Protojson) (a : API) (key : NamespacedName) (t : ResourceType) : Decidable (a.Malformed pj key t) :=
  inferInstanceAs (Decidable (∃ x ∈ a.items key t, pj.malformed? t x.spec ≠ none))

section Build
variable {pj : Protojson} {a : API} {key : NamespacedName} {t : ResourceType} {s : Selected} {raws : List Raw}
  {snap : Snapshot}

theorem Decodable.items (h : Decodable pj a key) (t : ResourceType) :
    ∀ x ∈ a.items key t, pj.malformed? t x.spec = none := by
  intro x hx
  cases t with
  | listeners => exact malformed?_eq_none.mpr (h.listeners x hx)
  | clusters =>
    obtain ⟨c, hc, rfl⟩ := List.mem_map.mp hx
    exact malformed?_eq_none.mpr (h.clusters c hc)
  | routes => exact malformed?_eq_none.mpr (h.routes x hx)
  | scopedRoutes => exact malformed?_eq_none.mpr (h.scopedRoutes x hx)
  | endpoints => exact malformed?_eq_none.mpr (h.assignments x hx)

end Build

/-! ### On a timeline -/

namespace Timeline
variable {pj : Protojson} {τ : Timeline pj} {key : NamespacedName} {t : ResourceType} {a b i : Nat}

end Timeline

theorem SameLists.malformed {pj : Protojson} {a b : API} {key : NamespacedName} {t : ResourceType} (h : SameLists a b)
    (hbad : a.Malformed pj key t) : b.Malformed pj key t := by
  obtain ⟨ps, rfl⟩ := h
  obtain ⟨x, hx, hne⟩ := hbad
  refine ⟨x, ?_, hne⟩
  cases t <;> exact hx

/-- A Reconcile of `key` is queued that will meet a malformed spec. -/
structure Doomed (pj : Protojson) (key : NamespacedName) (t : ResourceType) (s : System) : Prop where
  stored : (s.world.api.envoyProxies.get? key).isSome
  malformed : s.world.api.Malformed pj key t
  queued : key ∈ s.queue
  idle : s.running key = none

/-- It can run with nothing in between, and fails. -/
theorem Doomed.exec {pj : Protojson} {key : NamespacedName} {t : ResourceType} {s : System} (h : Doomed pj key t s)
    (hpj : pj.Lawful) : ∃ w e, (reconcile pj key).Exec World.AnswersWell s.world w (.error e) ∧
      (w.api.envoyProxies.get? key).isSome := by
  obtain ⟨p, hp⟩ := Option.isSome_iff_exists.mp h.stored
  obtain ⟨x, hx, hne⟩ := h.malformed
  have hbad : ¬Decodable pj s.world.api key := fun hdec => hne (hdec.items t x hx)
  have hexec := exec_reconciled pj key s.world
  obtain ⟨_, _, _, _, err, -, -, hresult, -, -, hstored⟩ := malformed_spec_reported hpj hp hbad hexec
  refine ⟨_, _, hresult ▸ hexec, ?_⟩
  rcases hstored with heq | ⟨stored, hstored, -⟩
  · rw [heq]
    exact h.stored
  · exact Option.isSome_iff_exists.mpr ⟨stored, hstored⟩

namespace Timeline
variable {pj : Protojson} {τ τ' τ'' : Timeline pj} {key : NamespacedName} {t : ResourceType} {i m n : Nat}

/-- The timeline goes on as `τ'` after moment `i`, with a malformed spec up to moment `n`. -/
structure StaysMalformed (τ τ' : Timeline pj) (key : NamespacedName) (t : ResourceType) (i n : Nat) : Prop where
  le : i ≤ n
  same : ∀ j, j ≤ i → τ'.state j = τ.state j
  malformed : ∀ j, i ≤ j → j ≤ n → (τ'.world j).api.Malformed pj key t

theorem StaysMalformed.refl (h : (τ.world i).api.Malformed pj key t) : StaysMalformed τ τ key t i i :=
  ⟨le_rfl, fun _ _ => rfl, fun _ hij hji => Nat.le_antisymm hij hji ▸ h⟩

theorem StaysMalformed.extend (h : StaysMalformed τ τ' key t i n) {u : System} (hs : Step pj (τ'.state n) u)
    (hbad : u.world.api.Malformed pj key t) : StaysMalformed τ (τ'.extend n u hs) key t i (n + 1) where
  le := h.le.trans (Nat.le_succ n)
  same j hj := (τ'.extend_of_le hs (hj.trans h.le)).trans (h.same j hj)
  malformed j hij hj := by
    rcases Nat.le_succ_iff.mp hj with hj | rfl
    · rw [world, τ'.extend_of_le hs hj]
      exact h.malformed j hij hj
    · rw [world, τ'.extend_of_lt hs (Nat.lt_succ_self n)]
      exact hbad

theorem StaysMalformed.trans (h : StaysMalformed τ τ' key t i m) (h' : StaysMalformed τ' τ'' key t m n) :
    StaysMalformed τ τ'' key t i n where
  le := h.le.trans h'.le
  same j hj := (h'.same j (hj.trans h.le)).trans (h.same j hj)
  malformed j hij hjn := by
    rcases Nat.le_total j m with hjm | hmj
    · rw [world, h'.same j hjm]
      exact h.malformed j hij hjm
    · exact h'.malformed j hmj hjn

/-- The calls of a Reconcile leave the listed objects as they are. -/
theorem StaysMalformed.exec (h : StaysMalformed τ τ' key t i n) {P : Calls (Except String Unit)} {w : World}
    {r : Except String Unit} (hP : P.Exec World.AnswersWell (τ'.state n).world w r)
    (hr : (τ'.state n).running key = some P) : ∃ τ'' m, StaysMalformed τ τ'' key t i m ∧ n ≤ m ∧
      τ''.state m = ⟨w, (τ'.state n).queue, Function.update (τ'.state n).running key (some (.ret r))⟩ := by
  refine kept_of_exec (fun s => ∃ τ'' m, StaysMalformed τ τ'' key t i m ∧ n ≤ m ∧ τ''.state m = s) key ?_ hP
    ⟨τ', n, h, le_rfl, rfl⟩ hr
  rintro s c k r w ⟨τ'', m, hstays, hnm, rfl⟩ hr hw
  have hmalformed := (answers_sameLists hw.1).malformed (hstays.malformed m hstays.le le_rfl)
  exact ⟨_, m + 1, hstays.extend (.call _ key c k r w hr hw.1) hmalformed, hnm.trans (Nat.le_succ m),
    τ''.extend_of_lt _ (Nat.lt_succ_self m)⟩

end Timeline

namespace Sample

end Sample

end EnvoyMesh
