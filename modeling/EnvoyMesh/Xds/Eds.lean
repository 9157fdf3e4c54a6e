import EnvoyMesh.Api
import EnvoyMesh.Lib.Json

/-! # Endpoint discovery (`internal/xds/eds.go`)

The name that is read off a raw spec, and the ClusterLoadAssignment that is synthesised from the
EndpointSlices of a Service. An Envoy message is modelled with the fields the control plane sets or
reads; `rest` stands for the other fields of a decoded message, in serialised form. -/

namespace EnvoyMesh

namespace Envoy

structure SocketAddress where
  address : String
  portValue : UInt32
  deriving DecidableEq

structure LbEndpoint where
  socketAddress : Option SocketAddress
  loadBalancingWeight : Option UInt32
  rest : String
  deriving DecidableEq

structure LocalityLbEndpoints where
  lbEndpoints : List LbEndpoint
  rest : String
  deriving DecidableEq

structure ClusterLoadAssignment where
  clusterName : String
  endpoints : List LocalityLbEndpoints
  rest : String
  deriving DecidableEq

end Envoy

/-! ### `ClusterName` -/

/-- `encoding/json` compares a key with a field name after folding both. No letter of `name` has a
    folding outside ASCII. -/
def foldName (key : String) : List Char := key.toList.map Char.toUpper

/-- One member of an object read into `struct { Name string }`: a string replaces the field, `null`
    leaves it, any other value is an error, and members of other names are skipped. -/
def decodeNameMember (name : String) : String × Json → Option String
  | (key, value) =>
    if foldName key = foldName "name" then
      match value with
      | .str s => some s
      | .null => some name
      | _ => none
    else some name

/-- `json.Unmarshal` into `struct { Name string }`; `none` stands for an error. -/
def decodeName : Json → Option String
  | .null => some ""
  | .obj members => members.foldlM decodeNameMember ""
  | _ => none

/-- The `name` of a raw spec, empty if there is none to be read. -/
def clusterName (raw : Raw) : String :=
  if raw = "" then ""
  else ((Json.parse raw).bind decodeName).getD ""

/-! ### `SynthesizeCLA` -/

/-- The first port of the slice, or the first one equal to `want`; 0 if there is none. -/
def resolvePort (slice : EndpointSlice) (want : Option Int32) : Int32 :=
  go slice.ports
where
  go : List (Option Int32) → Int32
    | [] => 0
    | none :: ports => go ports
    | some p :: ports =>
      match want with
      | none => p
      | some w => if p = w then p else go ports

def lbEndpoint (address : String) (port : Int32) : Envoy.LbEndpoint where
  socketAddress := some { address, portValue := port.toUInt32 }
  loadBalancingWeight := some 1
  rest := ""

def sliceEndpoints (port : Option Int32) (slice : EndpointSlice) : List Envoy.LbEndpoint :=
  let resolved := resolvePort slice port
  if resolved = 0 then []
  else
    slice.endpoints.flatMap fun ep =>
      -- an absent Ready means ready
      if ep.ready = some false then []
      else (ep.addresses.filter (· ≠ "")).map fun addr => lbEndpoint addr resolved

/-- The ClusterLoadAssignment of a name and a list of endpoints: one locality, or none at all. -/
def assignment (name : String) (lbEndpoints : List Envoy.LbEndpoint) : Envoy.ClusterLoadAssignment where
  clusterName := name
  endpoints := if lbEndpoints.length > 0 then [{ lbEndpoints, rest := "" }] else []
  rest := ""

def synthesizeCLA (name : String) (slices : List EndpointSlice) (port : Option Int32) :
    Envoy.ClusterLoadAssignment :=
  assignment name (slices.flatMap (sliceEndpoints port))

/-- A CR for a cluster carries its name under `name`, a ClusterLoadAssignment under `cluster_name`. -/
example : clusterName "\x7b\"name\": \"web\", \"type\": \"EDS\"\x7d" = "web" := by decide +kernel

end EnvoyMesh
