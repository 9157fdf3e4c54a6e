import EnvoyMesh.Lib.JsonText
import EnvoyMesh.Xds.Snapshot

/-! # A reference `protojson`

Readers and a writer for the fields of the model, on JSON texts: both spellings of a field name are read,
members of other names are discarded, an absent field has its default. They show that what the model
assumes of `protojson` can be had, and they are what concrete runs use. -/

namespace EnvoyMesh

namespace Reference
open Json (Written)

/-! ### Reading -/

def field? (names : List String) : Json → Option Json
  | .obj members => (members.find? fun m => m.1 ∈ names).map (·.2)
  | _ => none

def stringField (names : List String) (j : Json) : Except String String :=
  match field? names j with
  | none | some .null => .ok ""
  | some (.str s) => .ok s
  | some _ => .error "invalid value for string field"

def listField {α : Type} (names : List String) (decode : Json → Except String α) (j : Json) : Except String (List α) :=
  match field? names j with
  | none | some .null => .ok []
  | some (.arr items) => items.mapM decode
  | some _ => .error "invalid value for repeated field"

def optionalField {α : Type} (names : List String) (decode : Json → Except String α) (j : Json) :
    Except String (Option α) :=
  match field? names j with
  | none | some .null => .ok none
  | some v => (decode v).map some

def uint32 : Json → Except String UInt32
  | .num literal =>
    let n := Nat.ofDigitChars 10 literal.toList 0
    if literal.toList.all Char.isDigit && n < UInt32.size then .ok (UInt32.ofNat n)
    else .error "invalid value for uint32 field"
  | _ => .error "invalid value for uint32 field"

def socketAddress (j : Json) : Except String Envoy.SocketAddress := do
  let address ← stringField ["address"] j
  let port ← optionalField ["portValue", "port_value"] uint32 j
  return { address, portValue := port.getD 0 }

def lbEndpoint (j : Json) : Except String Envoy.LbEndpoint := do
  let address := ((field? ["endpoint"] j).bind (field? ["address"])).getD (.obj [])
  let socketAddress ← optionalField ["socketAddress", "socket_address"] socketAddress address
  let loadBalancingWeight ← optionalField ["loadBalancingWeight", "load_balancing_weight"] uint32 j
  return { socketAddress, loadBalancingWeight, rest := "" }

def localityLbEndpoints (j : Json) : Except String Envoy.LocalityLbEndpoints := do
  return { lbEndpoints := ← listField ["lbEndpoints", "lb_endpoints"] lbEndpoint j, rest := "" }

def clusterLoadAssignment (j : Json) : Except String Envoy.ClusterLoadAssignment := do
  let clusterName ← stringField ["clusterName", "cluster_name"] j
  let endpoints ← listField ["endpoints"] localityLbEndpoints j
  return { clusterName, endpoints, rest := "" }

def discoveryType : Json → Except String Envoy.DiscoveryType
  | .str "STATIC" => .ok .static
  | .str "STRICT_DNS" => .ok .strictDNS
  | .str "LOGICAL_DNS" => .ok .logicalDNS
  | .str "EDS" => .ok .eds
  | .str "ORIGINAL_DST" => .ok .originalDST
  | _ => .error "invalid value for enum field"

def edsClusterConfig (j : Json) : Except String Envoy.EdsClusterConfig := do
  return { serviceName := ← stringField ["serviceName", "service_name"] j, rest := "" }

def message {α : Type} (decode : Json → Except String α) (raw : Raw) : Except String α :=
  match Json.parse raw with
  | some (.obj members) => decode (.obj members)
  | _ => .error "syntax error"

/-! ### Writing -/

def writeLbEndpoint (e : Envoy.LbEndpoint) : Written :=
  let address := e.socketAddress.toList.map fun a =>
    ("socketAddress", Written.obj [("address", .str a.address), ("portValue", .nat a.portValue.toNat)])
  let weight := e.loadBalancingWeight.toList.map fun n => ("loadBalancingWeight", Written.nat n.toNat)
  .obj (("endpoint", .obj [("address", .obj address)]) :: weight)

def writeLocality (l : Envoy.LocalityLbEndpoints) : Written :=
  .obj [("lbEndpoints", .arr (l.lbEndpoints.map writeLbEndpoint))]

/-- Fields with their default are left out. -/
def writeAssignment (cla : Envoy.ClusterLoadAssignment) : Written :=
  .obj ((if cla.clusterName = "" then [] else [("clusterName", .str cla.clusterName)]) ++
    if cla.endpoints.isEmpty then [] else [("endpoints", .arr (cla.endpoints.map writeLocality))])

end Reference

/-- The reference `protojson`. What else a Listener, Cluster or route holds is kept as its text. -/
def Protojson.reference : Protojson where
  listener raw := Reference.message (fun j => do return ⟨← Reference.stringField ["name"] j, raw⟩) raw
  cluster raw := Reference.message (fun j => do
    let name ← Reference.stringField ["name"] j
    let type ← Reference.optionalField ["type"] Reference.discoveryType j
    let edsClusterConfig ← Reference.optionalField ["edsClusterConfig", "eds_cluster_config"] Reference.edsClusterConfig j
    return { name, type, edsClusterConfig, rest := raw }) raw
  routeConfiguration raw := Reference.message (fun j => do return ⟨← Reference.stringField ["name"] j, raw⟩) raw
  scopedRouteConfiguration raw := Reference.message (fun j => do return ⟨← Reference.stringField ["name"] j, raw⟩) raw
  clusterLoadAssignment := Reference.message Reference.clusterLoadAssignment
  marshal cla := .ok (String.ofList (Reference.writeAssignment cla).text)

/-! ### It is lawful -/

namespace Reference
open Json (Written)

theorem uint32_repr (n : UInt32) : uint32 (.num n.toNat.repr) = .ok n := by
  have hall : n.toNat.repr.toList.all Char.isDigit = true := by
    rw [Nat.toList_repr, List.all_eq_true]
    exact fun c hc => Nat.isDigit_of_mem_toDigits (by decide) (by decide) hc
  have hnat : Nat.ofDigitChars 10 n.toNat.repr.toList 0 = n.toNat := by
    rw [Nat.toList_repr, Nat.ofDigitChars_ten_toDigits]
  simp only [uint32, hall, hnat, n.toNat_lt_size, decide_true, Bool.and_self, if_true, UInt32.ofNat_toNat]

theorem mapM_eq_ok {α β : Type} {f : β → Except String α} {g : α → β} {l : List α} (h : ∀ x ∈ l, f (g x) = .ok x) :
    (l.map g).mapM f = .ok l := by
  induction l with
  | nil => rfl
  | cons x l ih =>
    have hrest := ih fun y hy => h y (List.mem_cons_of_mem _ hy)
    rw [List.map_cons, List.mapM_cons, h x List.mem_cons_self, hrest]
    rfl

theorem lbEndpoint_write (address : String) (port : Int32) :
    lbEndpoint (writeLbEndpoint (EnvoyMesh.lbEndpoint address port)).json = .ok (EnvoyMesh.lbEndpoint address port) := by
  have hweight : uint32 (.num (Nat.repr 1)) = .ok 1 := uint32_repr 1
  simp [writeLbEndpoint, EnvoyMesh.lbEndpoint, lbEndpoint, Written.obj, Written.str, Written.nat, field?, optionalField,
    socketAddress, stringField, uint32_repr, hweight, Except.map, bind, Except.bind, pure, Except.pure]

theorem ok_writeLbEndpoint (depth : Nat) (e : Envoy.LbEndpoint) : (writeLbEndpoint e).Ok (depth + 4) := by
  refine Written.ok_obj (List.forall_mem_cons.mpr ⟨?_, ?_⟩)
  · refine Written.ok_obj (List.forall_mem_singleton.mpr (Written.ok_obj ?_))
    cases e.socketAddress with
    | none => simp
    | some a =>
      refine List.forall_mem_singleton.mpr (Written.ok_obj ?_)
      simp [Written.ok_str, Written.ok_nat]
  · cases e.loadBalancingWeight <;> simp [Written.ok_nat]

theorem ok_writeAssignment (depth : Nat) (cla : Envoy.ClusterLoadAssignment) : (writeAssignment cla).Ok (depth + 8) := by
  refine Written.ok_obj (List.forall_mem_append.mpr ⟨?_, ?_⟩)
  · split <;> simp [Written.ok_str]
  · split
    · simp
    · refine List.forall_mem_singleton.mpr (Written.ok_arr (List.forall_mem_map.mpr fun l _ => ?_))
      refine Written.ok_obj (List.forall_mem_singleton.mpr (Written.ok_arr (List.forall_mem_map.mpr fun e _ => ?_)))
      exact ok_writeLbEndpoint depth e

theorem lbEndpoint_of_mem {e : Envoy.LbEndpoint} {port : Option Int32} {slice : EndpointSlice}
    (h : e ∈ sliceEndpoints port slice) : ∃ address p, e = EnvoyMesh.lbEndpoint address p := by
  unfold sliceEndpoints at h
  simp only at h
  split at h
  · cases h
  · obtain ⟨ep, -, h⟩ := List.mem_flatMap.mp h
    split at h
    · cases h
    · obtain ⟨address, -, rfl⟩ := List.mem_map.mp h
      exact ⟨address, _, rfl⟩

theorem localityLbEndpoints_write {l : List Envoy.LbEndpoint} (h : ∀ e ∈ l, lbEndpoint (writeLbEndpoint e).json = .ok e) :
    localityLbEndpoints (writeLocality ⟨l, ""⟩).json = .ok ⟨l, ""⟩ := by
  have hlist := mapM_eq_ok (g := fun e => (writeLbEndpoint e).json) h
  simp [writeLocality, localityLbEndpoints, Written.obj, Written.arr, field?, listField, Function.comp_def, hlist, bind,
    Except.bind, pure, Except.pure]

theorem clusterLoadAssignment_write (name : String) (slices : List EndpointSlice) (port : Option Int32) :
    clusterLoadAssignment (writeAssignment (synthesizeCLA name slices port)).json =
      .ok (synthesizeCLA name slices port) := by
  have hlb : ∀ e ∈ slices.flatMap (sliceEndpoints port), lbEndpoint (writeLbEndpoint e).json = .ok e := by
    intro e he
    obtain ⟨slice, -, he⟩ := List.mem_flatMap.mp he
    obtain ⟨address, p, rfl⟩ := lbEndpoint_of_mem he
    exact lbEndpoint_write address p
  unfold synthesizeCLA assignment
  generalize slices.flatMap (sliceEndpoints port) = l at hlb
  have hlocality := localityLbEndpoints_write hlb
  cases l with
  | nil =>
    by_cases hname : name = "" <;>
      simp [hname, writeAssignment, clusterLoadAssignment, Written.obj, Written.str, field?, stringField, listField, bind,
        Except.bind, pure, Except.pure]
  | cons e l =>
    by_cases hname : name = "" <;>
      simp [hname, writeAssignment, clusterLoadAssignment, Written.obj, Written.str, Written.arr, field?, stringField,
        listField, hlocality, bind, Except.bind, pure, Except.pure]

end Reference

theorem Protojson.reference_clusterLoadAssignment (raw : Raw) : Protojson.reference.clusterLoadAssignment raw =
    Reference.message Reference.clusterLoadAssignment raw := rfl

theorem Protojson.reference_lawful : Protojson.reference.Lawful := by
  intro name slices port
  refine ⟨_, rfl, ?_, ?_⟩
  · intro hempty
    have hlist := congrArg String.toList hempty
    rw [String.toList_ofList] at hlist
    cases hlist
  · have hread : Json.parse (String.ofList (Reference.writeAssignment (synthesizeCLA name slices port)).text) =
        some (Reference.writeAssignment (synthesizeCLA name slices port)).json :=
      Json.parse_of_reads (Reference.ok_writeAssignment 9992 _)
    have hdecode := Reference.clusterLoadAssignment_write name slices port
    rw [Protojson.reference_clusterLoadAssignment, Reference.message, hread]
    exact hdecode

end EnvoyMesh
