import EnvoyMesh.Undisturbed
import Mathlib.Algebra.Order.BigOperators.Group.List
import Mathlib.Algebra.Order.Group.Nat

/-! # Endpoint synthesis

Which pairs of address and port a synthesised assignment holds. With no port requested, the first port
number of a slice is taken as it is: 0, which also stands for no port at all, hides the ones behind it,
and a number outside of 1..65535 is handed to Envoy. -/

namespace EnvoyMesh

def UsablePort (p : Int32) : Prop := 1 ≤ p.toInt ∧ p.toInt ≤ 65535

instance (p : Int32) : Decidable (UsablePort p) := inferInstanceAs (Decidable (_ ∧ _))

def Envoy.LbEndpoint.pair? (e : Envoy.LbEndpoint) : Option (String × Nat) :=
  e.socketAddress.map fun a => (a.address, a.portValue.toNat)

/-- The pairs of address and `port_value` that the assignment holds. -/
def Envoy.ClusterLoadAssignment.pairs (cla : Envoy.ClusterLoadAssignment) : List (String × Nat) :=
  cla.endpoints.flatMap fun l => l.lbEndpoints.filterMap (·.pair?)

namespace EndpointSlice

/-- The non-empty addresses of the endpoints that are ready or do not say. -/
def readyAddresses (s : EndpointSlice) : List String :=
  (s.endpoints.filter (·.ready ≠ some false)).flatMap fun ep => ep.addresses.filter (· ≠ "")

def portNumbers (s : EndpointSlice) : List Int32 := s.ports.filterMap id

/-- The first port number in 1..65535, equal to `want` if one is wanted. -/
def usablePort (want : Option Int32) (s : EndpointSlice) : Option Int32 :=
  s.portNumbers.find? fun p => UsablePort p ∧ want.all (· = p)

/-- The pairs that the slice stands for. -/
def usablePairs (want : Option Int32) (s : EndpointSlice) : List (String × Nat) :=
  (s.usablePort want).toList.flatMap fun q => s.readyAddresses.map fun a => (a, q.toInt.toNat)

/-- The pairs that the synthesis makes of the slice. -/
def pairs (want : Option Int32) (s : EndpointSlice) : List (String × Nat) :=
  (sliceEndpoints want s).filterMap (·.pair?)

end EndpointSlice

/-- Synthesis is exact: it gives the pairs that the slices stand for, all of them with a usable port, and
    the order of the slices matters for the order of the pairs only. -/
structure ExactSynthesis (name : String) (slices : List EndpointSlice) (want : Option Int32) : Prop where
  exact : (synthesizeCLA name slices want).pairs.Perm (slices.flatMap (·.usablePairs want))
  usable : ∀ p ∈ (synthesizeCLA name slices want).pairs, 1 ≤ p.2 ∧ p.2 ≤ 65535
  order : ∀ slices', slices'.Perm slices →
    (synthesizeCLA name slices' want).pairs.Perm (synthesizeCLA name slices want).pairs

/-- Where no port is requested, the first port number of a slice with addresses is usable, or it is 0 and
    none of the slice is usable. -/
def FirstPortsUsable (slices : List EndpointSlice) (want : Option Int32) : Prop :=
  want = none → ∀ s ∈ slices, s.readyAddresses ≠ [] → ∀ p, s.portNumbers.head? = some p →
    UsablePort p ∨ (p = 0 ∧ s.usablePort none = none)

section Ports
variable {s : EndpointSlice} {want : Option Int32} {p : Int32}

theorem toInt_eq : p.toInt = if 2 * p.toUInt32.toNat < 4294967296 then (p.toUInt32.toNat : Int)
    else p.toUInt32.toNat - 4294967296 := BitVec.toInt_eq_toNat_cond p.toBitVec

/-- The conversion to an unsigned number keeps the usable ports and makes no other one usable. -/
theorem usablePort_iff : UsablePort p ↔ 1 ≤ p.toUInt32.toNat ∧ p.toUInt32.toNat ≤ 65535 := by
  have hlt := p.toUInt32.toNat_lt
  rw [UsablePort, toInt_eq]
  split <;> omega

theorem toNat_of_usable (h : UsablePort p) : p.toUInt32.toNat = p.toInt.toNat := by
  have hrange := usablePort_iff.mp h
  rw [toInt_eq, if_pos (by omega), Int.toNat_natCast]

theorem ne_zero_of_usable (h : UsablePort p) : p ≠ 0 := by
  rintro rfl
  revert h
  decide

theorem resolvePort_none : resolvePort s none = s.portNumbers.head?.getD 0 := by
  unfold resolvePort EndpointSlice.portNumbers
  induction s.ports with
  | nil => rfl
  | cons q ports ih =>
    cases q with
    | none => exact ih
    | some q => rfl

theorem resolvePort_some {w : Int32} : resolvePort s (some w) = if w ∈ s.portNumbers then w else 0 := by
  unfold resolvePort EndpointSlice.portNumbers
  induction s.ports with
  | nil => rfl
  | cons q ports ih =>
    cases q with
    | none => exact ih
    | some q =>
      rw [resolvePort.go, ih]
      by_cases hq : q = w
      · simp [hq]
      · simp [hq, Ne.symm hq]

theorem usablePort_some {w : Int32} (hw : UsablePort w) :
    s.usablePort (some w) = if w ∈ s.portNumbers then some w else none := by
  unfold EndpointSlice.usablePort
  split
  · next hmem =>
    cases hfind : s.portNumbers.find? fun p => UsablePort p ∧ (some w).all (· = p) with
    | none =>
      have := List.find?_eq_none.mp hfind w hmem
      simp [hw] at this
    | some q =>
      have := List.find?_some hfind
      simp at this
      rw [this.2]
  · next hmem =>
    rw [List.find?_eq_none]
    intro q hq
    have hne : w ≠ q := fun h => hmem (h ▸ hq)
    simp [hne]

end Ports

section Pairs
variable {name : String} {slices : List EndpointSlice} {s : EndpointSlice} {want : Option Int32}

theorem pairs_synthesizeCLA : (synthesizeCLA name slices want).pairs = slices.flatMap (·.pairs want) := by
  have hassign (l : List Envoy.LbEndpoint) : (assignment name l).pairs = l.filterMap (·.pair?) := by
    cases l <;> simp [assignment, Envoy.ClusterLoadAssignment.pairs]
  rw [synthesizeCLA, hassign, List.filterMap_flatMap]
  rfl

theorem pairs_eq : s.pairs want = if resolvePort s want = 0 then []
    else s.readyAddresses.map fun a => (a, (resolvePort s want).toUInt32.toNat) := by
  unfold EndpointSlice.pairs sliceEndpoints EndpointSlice.readyAddresses
  simp only
  split
  · rfl
  · rw [List.filterMap_flatMap, List.map_flatMap]
    induction s.endpoints with
    | nil => rfl
    | cons ep eps ih =>
      rw [List.flatMap_cons, ih]
      by_cases hready : ep.ready = some false
      · simp [hready]
      · simp [hready, List.filterMap_map, lbEndpoint, Envoy.LbEndpoint.pair?]

/-- A requested port that is usable is found if the slice has it. -/
theorem pairs_of_requested {w : Int32} (hw : UsablePort w) : s.pairs (some w) = s.usablePairs (some w) := by
  rw [pairs_eq, EndpointSlice.usablePairs, resolvePort_some, usablePort_some hw]
  split
  · rw [if_neg (ne_zero_of_usable hw), toNat_of_usable hw]
    simp
  · simp

theorem usablePairs_of_none (h : s.usablePort want = none) : s.usablePairs want = [] := by
  rw [EndpointSlice.usablePairs, h]
  rfl

theorem usablePort_of_head {p : Int32} (hp : s.portNumbers.head? = some p) (hu : UsablePort p) :
    s.usablePort none = some p := by
  obtain ⟨ps, hps⟩ := List.head?_eq_some_iff.mp hp
  simp [EndpointSlice.usablePort, hps, hu]

/-- The pairs of a slice whose first port number is usable, or 0 for lack of a usable one. -/
theorem pairs_of_first (h : s.readyAddresses ≠ [] → ∀ p, s.portNumbers.head? = some p →
    UsablePort p ∨ (p = 0 ∧ s.usablePort none = none)) : s.pairs none = s.usablePairs none := by
  by_cases haddr : s.readyAddresses = []
  · simp [pairs_eq, EndpointSlice.usablePairs, haddr]
  rw [pairs_eq, resolvePort_none]
  cases hhead : s.portNumbers.head? with
  | none =>
    have hnone : s.usablePort none = none := by
      simp [EndpointSlice.usablePort, List.head?_eq_none_iff.mp hhead]
    simp [usablePairs_of_none hnone]
  | some p =>
    rcases h haddr p hhead with hu | ⟨rfl, hnone⟩
    · have hne := ne_zero_of_usable hu
      rw [Option.getD_some, if_neg hne, toNat_of_usable hu, EndpointSlice.usablePairs, usablePort_of_head hhead hu]
      simp
    · simp [usablePairs_of_none hnone]

theorem pairs_of_zero (h : s.portNumbers.head? = some 0) : s.pairs none = [] := by
  simp [pairs_eq, resolvePort_none, h]

theorem usable_or_zero {p : Int32} (h : ∀ q ∈ s.pairs none, 1 ≤ q.2 ∧ q.2 ≤ 65535) (haddr : s.readyAddresses ≠ [])
    (hp : s.portNumbers.head? = some p) : UsablePort p ∨ p = 0 := by
  by_cases h0 : p = 0
  · exact Or.inr h0
  · obtain ⟨a, ha⟩ := List.exists_mem_of_ne_nil _ haddr
    simp only [pairs_eq, resolvePort_none, hp, Option.getD_some, h0, if_false, List.forall_mem_map] at h
    exact Or.inl (usablePort_iff.mpr (h a ha))

/-- A slice that gives usable ports only gives no more pairs than it stands for. -/
theorem length_pairs_le (h : ∀ q ∈ s.pairs none, 1 ≤ q.2 ∧ q.2 ≤ 65535) :
    (s.pairs none).length ≤ (s.usablePairs none).length := by
  by_cases hzero : s.portNumbers.head? = some 0
  · simp [pairs_of_zero hzero]
  · have hfirst : s.pairs none = s.usablePairs none := by
      refine pairs_of_first fun haddr p hp => Or.inl ?_
      rcases usable_or_zero h haddr hp with hu | rfl
      · exact hu
      · exact absurd hp hzero
    exact (congrArg List.length hfirst).le

theorem usable_of_mem_usablePairs {q : String × Nat} (h : q ∈ s.usablePairs want) : 1 ≤ q.2 ∧ q.2 ≤ 65535 := by
  unfold EndpointSlice.usablePairs at h
  cases hp : s.usablePort want with
  | none =>
    rw [hp] at h
    cases h
  | some p =>
    have hu := List.find?_some hp
    simp only [hp, Option.toList_some, List.flatMap_singleton, List.mem_map] at h
    obtain ⟨a, -, rfl⟩ := h
    simp only [decide_eq_true_eq] at hu
    rw [← toNat_of_usable hu.1]
    exact usablePort_iff.mp hu.1

theorem usablePairs_ne_nil (hport : s.usablePort want ≠ none) (haddr : s.readyAddresses ≠ []) :
    s.usablePairs want ≠ [] := by
  obtain ⟨p, hp⟩ := Option.ne_none_iff_exists'.mp hport
  simpa [EndpointSlice.usablePairs, hp] using haddr

end Pairs

/-- Synthesis is exact exactly if the first port numbers are usable where no port is requested. -/
theorem synthesis_exact_iff (name : String) (slices : List EndpointSlice) (want : Option Int32)
    (hwant : ∀ w ∈ want, UsablePort w) : ExactSynthesis name slices want ↔ FirstPortsUsable slices want := by
  constructor
  · rintro h rfl s hs haddr p hp
    have husable : ∀ t ∈ slices, ∀ q ∈ t.pairs none, 1 ≤ q.2 ∧ q.2 ≤ 65535 := by
      intro t ht q hq
      exact h.usable q (pairs_synthesizeCLA ▸ List.mem_flatMap.mpr ⟨t, ht, hq⟩)
    rcases usable_or_zero (husable s hs) haddr hp with hu | rfl
    · exact Or.inl hu
    refine Or.inr ⟨rfl, ?_⟩
    by_contra hport
    -- the slice gives nothing, and no slice gives more than it stands for
    have hlt : (slices.map fun t => (t.pairs none).length).sum < (slices.map fun t => (t.usablePairs none).length).sum := by
      refine List.sum_lt_sum _ _ (fun t ht => length_pairs_le (husable t ht)) ⟨s, hs, ?_⟩
      rw [pairs_of_zero hp]
      exact List.length_pos_of_ne_nil (usablePairs_ne_nil hport haddr)
    have hlen := h.exact.length_eq
    rw [pairs_synthesizeCLA, List.length_flatMap, List.length_flatMap] at hlen
    exact absurd hlen hlt.ne
  · intro h
    have heq : ∀ s ∈ slices, s.pairs want = s.usablePairs want := by
      intro s hs
      cases want with
      | none => exact pairs_of_first (h rfl s hs)
      | some w => exact pairs_of_requested (hwant w rfl)
    have hpairs : (synthesizeCLA name slices want).pairs = slices.flatMap (·.usablePairs want) := by
      rw [pairs_synthesizeCLA]
      exact List.flatMap_congr heq
    refine ⟨hpairs ▸ List.Perm.refl _, ?_, ?_⟩
    · intro q hq
      rw [hpairs] at hq
      obtain ⟨s, -, hs⟩ := List.mem_flatMap.mp hq
      exact usable_of_mem_usablePairs hs
    · intro slices' hperm
      rw [pairs_synthesizeCLA, pairs_synthesizeCLA]
      exact hperm.flatMap_right _

/-- Slices of one Service: with several ports, with endpoints that are not ready or have no address, and without the
    port 8080. -/
def Sample.slices : List EndpointSlice :=
  [{ slice with
      ports := [none, some 9090, some 8080]
      endpoints := [⟨["10.0.0.1", ""], none⟩, ⟨["10.0.0.2"], some false⟩] },
   { slice with ports := [some 8080, some 0], endpoints := [⟨["10.0.0.3", "10.0.0.4"], some true⟩] },
   { slice with ports := [some 9090], endpoints := [⟨["10.0.0.5"], none⟩] }]

/-- It is exact for them, whether the port 8080 is requested or none. -/
theorem synthesis_exact_slices : (∀ w ∈ some 8080, UsablePort w) ∧
    ExactSynthesis "web" Sample.slices (some 8080) ∧ ExactSynthesis "web" Sample.slices none ∧
    (synthesizeCLA "web" Sample.slices (some 8080)).pairs =
      [("10.0.0.1", 8080), ("10.0.0.3", 8080), ("10.0.0.4", 8080)] := by
  have hwant : ∀ w ∈ some (8080 : Int32), UsablePort w := by
    rintro w ⟨⟩
    decide
  have hfirst : FirstPortsUsable Sample.slices none := by
    intro _ s hs _ p hp
    have hall : (Sample.slices.all fun s => s.portNumbers.head?.all fun p => UsablePort p) = true := by decide
    have husable := List.all_eq_true.mp hall s hs
    rw [hp] at husable
    exact Or.inl (of_decide_eq_true husable)
  refine ⟨hwant, (synthesis_exact_iff _ _ _ hwant).mpr fun h => ?_, ?_, by decide⟩
  · cases h
  · exact (synthesis_exact_iff "web" Sample.slices none nofun).mpr hfirst

/-- It is not exact for a slice whose first port is 0, although the second one is usable. -/
theorem synthesis_not_exact : ¬∀ (name : String) (slices : List EndpointSlice) (want : Option Int32),
    (∀ w ∈ want, UsablePort w) → ExactSynthesis name slices want := by
  intro h
  have hlen := (h "web" [{ Sample.slice with ports := [some 0, some 8080] }] none nofun).exact.length_eq
  revert hlen
  decide

end EnvoyMesh
