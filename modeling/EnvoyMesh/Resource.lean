import EnvoyMesh.Api
import EnvoyMesh.Lib.GoStruct
import EnvoyMesh.Lib.JsonText

/-! # Custom resources in JSON (`api/v1alpha1/types.go`, `cluster_types.go`, `listener_types.go` and the like)

The structs of the control plane with the JSON names of their fields, as the client reads them from the API server.
`apiVersion`, `kind` and `metadata` are those of every object and are treated apart. `write` is the text that the server
sends for a value, which a `runtime.RawExtension` keeps as it is. -/

namespace EnvoyMesh
open GoStruct

namespace TargetRef

def zero : TargetRef := ⟨"", ""⟩

def fields : List (GoStruct.Field TargetRef) := [
  ⟨"name", fun r v => (readString r.name v).map fun name => { r with name }⟩,
  ⟨"namespace", fun r v => (readString r.ns v).map fun ns => { r with ns }⟩]

def json (r : TargetRef) : Json :=
  .obj (("name", .str r.name) :: if r.ns = "" then [] else [("namespace", .str r.ns)])

end TargetRef

namespace KubernetesServiceRef

def zero : KubernetesServiceRef := ⟨"", "", none⟩

def fields : List (GoStruct.Field KubernetesServiceRef) := [
  ⟨"name", fun r v => (readString r.name v).map fun name => { r with name }⟩,
  ⟨"namespace", fun r v => (readString r.ns v).map fun ns => { r with ns }⟩,
  ⟨"port", fun r v => (readPointer (fun _ => readInt32) 0 r.port v).map fun port => { r with port }⟩]

def json (r : KubernetesServiceRef) : Json :=
  .obj (("name", .str r.name) :: (if r.ns = "" then [] else [("namespace", .str r.ns)]) ++
    r.port.toList.map fun p => ("port", .num p.toInt.repr))

/-- The port is a port number. -/
def PortInRange (r : KubernetesServiceRef) : Prop := ∀ p, r.port = some p → 1 ≤ p.toInt ∧ p.toInt ≤ 65535

end KubernetesServiceRef

namespace XDSResource

/-- A Listener, a RouteConfiguration, a ScopedRouteConfiguration or a ClusterLoadAssignment. -/
def fields (write : Json → Raw) : List (GoStruct.Field XDSResource) := [
  ⟨"targetRef", fun x v => (decode TargetRef.fields x.targetRef v).map fun targetRef => { x with targetRef }⟩,
  ⟨"spec", fun x v =>
    match v with
    | .null => some x
    | v => some { x with spec := write v }⟩]

def read (write : Json → Raw) (metadata : ObjectMeta) (doc : Json) : Option XDSResource :=
  decode (fields write) ⟨metadata, .zero, ""⟩ doc

end XDSResource

namespace Cluster

def fields (write : Json → Raw) : List (GoStruct.Field Cluster) :=
  ⟨"kubernetesServiceRef", fun c v =>
    (readPointer (decode KubernetesServiceRef.fields) .zero c.kubernetesServiceRef v).map
      fun kubernetesServiceRef => { c with kubernetesServiceRef }⟩ ::
  (XDSResource.fields write).map (.lift (·.toXDSResource) fun c x => { c with toXDSResource := x })

def read (write : Json → Raw) (metadata : ObjectMeta) (doc : Json) : Option Cluster :=
  decode (fields write) ⟨⟨metadata, .zero, ""⟩, none⟩ doc

end Cluster

/-- The document of a resource, with its keys in order; only a Cluster has a reference to a Service. -/
def resourceJson (ref : Option KubernetesServiceRef) (spec : Json) (targetRef : TargetRef) : Json :=
  .obj (ref.toList.map (fun r => ("kubernetesServiceRef", r.json)) ++ [("spec", spec), ("targetRef", targetRef.json)])

/-! ### Round trips -/

theorem TargetRef.decode_json (r : TargetRef) : decode fields zero r.json = some r := by
  obtain ⟨name, ns⟩ := r
  by_cases hns : ns = ""
  · rw [TargetRef.json, if_pos hns, hns]
    rfl
  · rw [TargetRef.json, if_neg hns]
    rfl

theorem readInt32_repr (p : Int32) : readInt32 (.num p.toInt.repr) = some p := by
  have hlo : -2147483648 ≤ p.toInt := p.minValue_le_toInt
  have hhi : p.toInt ≤ 2147483647 := p.toInt_le
  rw [readInt32, Json.integer?_repr, Option.bind_some, if_pos ⟨hlo, hhi⟩, Int32.ofInt_toInt]

theorem KubernetesServiceRef.decode_json (r : KubernetesServiceRef) : decode fields zero r.json = some r := by
  obtain ⟨name, ns, port⟩ := r
  have hread (p : Int32) : readMember fields ⟨name, ns, none⟩ ("port", .num p.toInt.repr) = some ⟨name, ns, some p⟩ := by
    change ((readInt32 (.num p.toInt.repr)).map some).map _ = _
    rw [readInt32_repr]
    rfl
  have hnames : decode fields zero (.obj (("name", .str name) :: if ns = "" then [] else [("namespace", .str ns)])) =
      some ⟨name, ns, none⟩ := by
    by_cases hns : ns = ""
    · rw [if_pos hns, hns]
      rfl
    · rw [if_neg hns]
      rfl
  change List.foldlM (readMember fields) zero _ = _ at hnames ⊢
  rw [List.foldlM_append, hnames]
  cases port with
  | none => rfl
  | some p => exact congrArg (· >>= fun r => some r) (hread p)

theorem XDSResource.read_resourceJson (write : Json → Raw) (metadata : ObjectMeta) {v : Json} (hv : v ≠ .null)
    (targetRef : TargetRef) :
      read write metadata (resourceJson none v targetRef) = some ⟨metadata, targetRef, write v⟩ := by
  have hspec : readMember (fields write) ⟨metadata, .zero, ""⟩ ("spec", v) = some ⟨metadata, .zero, write v⟩ := by
    cases v with
    | null => exact absurd rfl hv
    | _ => rfl
  have htarget : readMember (fields write) ⟨metadata, .zero, write v⟩ ("targetRef", targetRef.json) =
      some ⟨metadata, targetRef, write v⟩ := by
    change (decode TargetRef.fields .zero targetRef.json).map _ = _
    rw [TargetRef.decode_json]
    rfl
  change List.foldlM (readMember (fields write)) ⟨metadata, .zero, ""⟩ [("spec", v), ("targetRef", targetRef.json)] = _
  rw [List.foldlM_cons, hspec]
  exact congrArg (· >>= fun x => some x) htarget

theorem Cluster.read_resourceJson (write : Json → Raw) (metadata : ObjectMeta) (ref : Option KubernetesServiceRef)
    {v : Json} (hv : v ≠ .null) (targetRef : TargetRef) :
    read write metadata (resourceJson ref v targetRef) = some ⟨⟨metadata, targetRef, write v⟩, ref⟩ := by
  have href (r : KubernetesServiceRef) : readMember (fields write) ⟨⟨metadata, .zero, ""⟩, none⟩
      ("kubernetesServiceRef", r.json) = some ⟨⟨metadata, .zero, ""⟩, some r⟩ := by
    change ((decode KubernetesServiceRef.fields .zero r.json).map some).map _ = _
    rw [KubernetesServiceRef.decode_json]
    rfl
  have hspec : readMember (fields write) ⟨⟨metadata, .zero, ""⟩, ref⟩ ("spec", v) =
      some ⟨⟨metadata, .zero, write v⟩, ref⟩ := by
    cases v with
    | null => exact absurd rfl hv
    | _ => rfl
  have htarget : readMember (fields write) ⟨⟨metadata, .zero, write v⟩, ref⟩ ("targetRef", targetRef.json) =
      some ⟨⟨metadata, targetRef, write v⟩, ref⟩ := by
    change ((decode TargetRef.fields .zero targetRef.json).map _).map _ = _
    rw [TargetRef.decode_json]
    rfl
  have hrest : List.foldlM (readMember (fields write)) ⟨⟨metadata, .zero, ""⟩, ref⟩
      [("spec", v), ("targetRef", targetRef.json)] = some ⟨⟨metadata, targetRef, write v⟩, ref⟩ := by
    rw [List.foldlM_cons, hspec]
    exact congrArg (· >>= fun x => some x) htarget
  cases ref with
  | none => exact hrest
  | some r =>
    change List.foldlM (readMember (fields write)) ⟨⟨metadata, .zero, ""⟩, none⟩
      (("kubernetesServiceRef", r.json) :: [("spec", v), ("targetRef", targetRef.json)]) = _
    rw [List.foldlM_cons, href]
    exact hrest

end EnvoyMesh
