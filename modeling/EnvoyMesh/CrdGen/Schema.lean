import EnvoyMesh.CrdGen.Registry
import EnvoyMesh.Lib.StructuralSchema
import Mathlib.Logic.Function.Basic

/-! # Schemas for proto messages (`crd-gen/internal/schema/convert.go`)

The conversion works on the package variable `wellKnownSchemas`, whose entries it hands out by pointer and
writes descriptions into, and on the `visited` map of the call. Both are explicit state here. The
recursion of `msgSchema` is bounded by fuel; a conversion that runs out of it gives no result. -/

namespace EnvoyMesh.CrdGen
open Structural (DataType Format)

/-- The scalar types of proto3. -/
inductive Scalar where
  | string | bytes | bool | int32 | sint32 | sfixed32 | int64 | sint64 | sfixed64 | uint32 | fixed32 | uint64 | fixed64
  | float | double
  deriving DecidableEq

def Scalar.ofName? : String → Option Scalar
  | "string" => some .string
  | "bytes" => some .bytes
  | "bool" => some .bool
  | "int32" => some .int32
  | "sint32" => some .sint32
  | "sfixed32" => some .sfixed32
  | "int64" => some .int64
  | "sint64" => some .sint64
  | "sfixed64" => some .sfixed64
  | "uint32" => some .uint32
  | "fixed32" => some .fixed32
  | "uint64" => some .uint64
  | "fixed64" => some .fixed64
  | "float" => some .float
  | "double" => some .double
  | _ => none

/-- The keys of `wellKnownSchemas`. -/
inductive WellKnown where
  | any | struct | value | duration | timestamp | empty | stringValue | boolValue | int32Value | uint32Value | int64Value
  | uint64Value | floatValue | doubleValue | bytesValue | listValue
  deriving DecidableEq

def WellKnown.ofName? : String → Option WellKnown
  | "google.protobuf.Any" => some .any
  | "google.protobuf.Struct" => some .struct
  | "google.protobuf.Value" => some .value
  | "google.protobuf.Duration" => some .duration
  | "google.protobuf.Timestamp" => some .timestamp
  | "google.protobuf.Empty" => some .empty
  | "google.protobuf.StringValue" => some .stringValue
  | "google.protobuf.BoolValue" => some .boolValue
  | "google.protobuf.Int32Value" => some .int32Value
  | "google.protobuf.UInt32Value" => some .uint32Value
  | "google.protobuf.Int64Value" => some .int64Value
  | "google.protobuf.UInt64Value" => some .uint64Value
  | "google.protobuf.FloatValue" => some .floatValue
  | "google.protobuf.DoubleValue" => some .doubleValue
  | "google.protobuf.BytesValue" => some .bytesValue
  | "google.protobuf.ListValue" => some .listValue
  | _ => none

/-- A pointer to a schema: to an entry of `wellKnownSchemas`, which all its users share, or to a new one. -/
inductive Ptr (α : Type) where
  | wellKnown (w : WellKnown)
  | new (s : α)

/-- `apiextensionsv1.JSONSchemaProps`, with the fields that the generator sets. -/
structure JSONSchemaProps where
  type : Option DataType := none
  format : Option Format := none
  description : String := ""
  maximum : Option Rat := none
  minimum : Option Rat := none
  /-- The values as JSON texts. -/
  enum : List String := []
  required : List String := []
  properties : List (String × JSONSchemaProps) := []
  items : Option (Ptr JSONSchemaProps) := none
  additionalProperties : Option (Ptr JSONSchemaProps) := none
  xPreserveUnknownFields : Bool := false

namespace JSONSchemaProps

def property? (s : JSONSchemaProps) (name : String) : Option JSONSchemaProps :=
  (s.properties.find? fun p => p.1 = name).map (·.2)

/-- `s.Properties[name] = p`. -/
def setProperty (s : JSONSchemaProps) (name : String) (p : JSONSchemaProps) : JSONSchemaProps :=
  { s with properties := s.properties.filter (·.1 ≠ name) ++ [(name, p)] }

/-- What the API server reads in it. -/
def node (s : JSONSchemaProps) : Structural.Node (Ptr JSONSchemaProps) where
  type := s.type
  format := s.format
  enum := s.enum
  property name := (s.property? name).map .new
  items := s.items
  additionalProperties := s.additionalProperties
  preserveUnknownFields := s.xPreserveUnknownFields

end JSONSchemaProps

/-- The contents of `wellKnownSchemas`. -/
abbrev Table := WellKnown → JSONSchemaProps

def wellKnownSchemas : Table
  | .any => { type := some .object, xPreserveUnknownFields := true }
  | .struct => { type := some .object, xPreserveUnknownFields := true }
  | .value => { xPreserveUnknownFields := true }
  | .duration => { type := some .string }
  | .timestamp => { type := some .string, format := some .dateTime }
  | .empty => { type := some .object }
  | .stringValue => { type := some .string }
  | .boolValue => { type := some .boolean }
  | .int32Value => { type := some .integer, format := some .int32 }
  | .uint32Value => { type := some .integer, format := some .int32 }
  | .int64Value => { type := some .integer, format := some .int64 }
  | .uint64Value => { type := some .integer, format := some .int64 }
  | .floatValue => { type := some .number, format := some .float }
  | .doubleValue => { type := some .number, format := some .double }
  | .bytesValue => { type := some .string, format := some .byte }
  | .listValue => { type := some .array, items := some (.new { xPreserveUnknownFields := true }) }

def Scalar.schema : Scalar → JSONSchemaProps
  | .string => { type := some .string }
  | .bytes => { type := some .string, format := some .byte }
  | .bool => { type := some .boolean }
  | .int32 | .sint32 | .sfixed32 => { type := some .integer, format := some .int32 }
  | .int64 | .sint64 | .sfixed64 => { type := some .integer, format := some .int64 }
  | .uint32 | .fixed32 => { type := some .integer, format := some .int32 }
  | .uint64 | .fixed64 => { type := some .integer, format := some .int64 }
  | .float => { type := some .number, format := some .float }
  | .double => { type := some .number, format := some .double }

def scalarSchema (t : String) : Option JSONSchemaProps := (Scalar.ofName? t).map Scalar.schema

/-! ### State -/

/-- The keys of a `visited` map; all its values are true. -/
abbrev Visited := List String

structure State where
  wellKnownSchemas : Table
  /-- The map that the running function was given. -/
  visited : Visited

abbrev Conv := StateT State Option

/-- A copy of the map: writes to it do not reach the original. -/
def cloneVisited (v : Visited) : Visited := v

/-- A call that is given a clone of the caller's map. The caller goes on with its own. -/
def withClone {α : Type} (call : Conv α) : Conv α := do
  let visited := (← get).visited
  modify fun st => { st with visited := cloneVisited visited }
  let a ← call
  modify fun st => { st with visited }
  return a

/-- `visited[fqn] = true`. -/
def setVisited (fqn : String) : Conv Unit := modify fun st => { st with visited := st.visited.insert fqn }

namespace Ptr

/-- `fs.Description = description`. -/
def setDescription (description : String) : Ptr JSONSchemaProps → Conv (Ptr JSONSchemaProps)
  | .wellKnown w => do
    modify fun st => { st with
      wellKnownSchemas := Function.update st.wellKnownSchemas w { st.wellKnownSchemas w with description } }
    return .wellKnown w
  | .new s => return .new { s with description }

/-- The schema that it points to. -/
def get (table : Table) : Ptr JSONSchemaProps → JSONSchemaProps
  | .wellKnown w => table w
  | .new s => s

/-- A schema as the API server gets it, when it is written with `table` in place. -/
def view (table : Table) (p : Ptr JSONSchemaProps) : Structural.Node (Ptr JSONSchemaProps) := (p.get table).node

end Ptr

/-! ### Conversion -/

/-- The case that `resolveMessageOrEnum` finds itself in. -/
inductive Resolution where
  | wellKnown (w : WellKnown)
  /-- The message is being expanded already. -/
  | cycle
  | message (fqn : String) (msg : Message)
  | enum (e : Enum)
  | unknown

def entryResolution (fqn : String) (reg : Registry) (visited : Visited) : Resolution :=
  if fqn ∈ visited then .cycle
  else
    match reg.messages.get? fqn with
    | some msg => .message fqn msg
    | none =>
      match reg.enums.get? fqn with
      | some e => .enum e
      | none => .unknown

def resolution (typeName pkg msgFQN : String) (reg : Registry) (visited : Visited) : Resolution :=
  match WellKnown.ofName? (trimDot typeName) with
  | some w => .wellKnown w
  | none => entryResolution (resolveFQN (trimDot typeName) pkg msgFQN reg) reg visited

/-- The schema that accepts any object. -/
def freeForm : JSONSchemaProps := { type := some .object, xPreserveUnknownFields := true }

def Enum.schema (e : Enum) : JSONSchemaProps :=
  { type := some .string, enum := e.values.map fun v => "\"" ++ v ++ "\"" }

def resolveMessageOrEnum (msgSchema : Message → Registry → Conv JSONSchemaProps) (typeName pkg msgFQN : String)
    (reg : Registry) : Conv (Ptr JSONSchemaProps) := do
  match resolution typeName pkg msgFQN reg (← get).visited with
  | .wellKnown w => return .wellKnown w
  | .cycle => return .new freeForm
  | .message fqn msg =>
    setVisited fqn
    return .new (← msgSchema msg reg)
  | .enum e => return .new e.schema
  | .unknown => return .new freeForm

def resolveType (msgSchema : Message → Registry → Conv JSONSchemaProps) (typeName : String) (repeated : Bool)
    (pkg msgFQN : String) (reg : Registry) : Conv (Ptr JSONSchemaProps) := do
  let s ← (scalarSchema typeName).elim (resolveMessageOrEnum msgSchema typeName pkg msgFQN reg) fun s => pure (.new s)
  if repeated then return .new { type := some .array, items := some s }
  return s

/-- The schema of a field in the loop of `msgSchema`, before the comment is written into it. -/
def fieldPtr (msgSchema : Message → Registry → Conv JSONSchemaProps) (msg : Message) (reg : Registry) (field : Field) :
    Conv (Ptr JSONSchemaProps) :=
  if field.type = "map" then do
    let valSchema ← withClone (resolveType msgSchema field.mapValue false msg.package msg.fullName reg)
    return .new { type := some .object, additionalProperties := some valSchema }
  else withClone (resolveType msgSchema field.type field.repeated msg.package msg.fullName reg)

def fieldSchema (msgSchema : Message → Registry → Conv JSONSchemaProps) (msg : Message) (reg : Registry) (field : Field) :
    Conv JSONSchemaProps := do
  let fs ← fieldPtr msgSchema msg reg field
  let fs ← (if field.comment ≠ "" then fs.setDescription field.comment else pure fs)
  return fs.get (← get).wellKnownSchemas

def msgSchema : Nat → Message → Registry → Conv JSONSchemaProps
  | 0, _, _ => failure
  | fuel + 1, msg, reg => do
    let s ← msg.fields.foldlM (fun s field => do
      return s.setProperty field.name (← fieldSchema (msgSchema fuel) msg reg field))
      { type := some .object, description := msg.comment }
    if s.properties.isEmpty then return { s with xPreserveUnknownFields := true }
    return s

/-- `MessageToSchema`, as a function of what is in `wellKnownSchemas` at the time of the call. -/
def messageToSchema (fuel : Nat) (msg : Message) (reg : Registry) : StateT Table Option JSONSchemaProps := fun table => do
  let (s, st) ← msgSchema fuel msg reg ⟨table, []⟩
  return (s, st.wellKnownSchemas)

/-- One conversion after the other, as in the message loop of `generator.Run`. -/
def convertAll (fuel : Nat) (reg : Registry) : List Message → StateT Table Option (List JSONSchemaProps)
  | [] => return []
  | msg :: msgs => do
    let s ← messageToSchema fuel msg reg
    return s :: (← convertAll fuel reg msgs)

end EnvoyMesh.CrdGen
