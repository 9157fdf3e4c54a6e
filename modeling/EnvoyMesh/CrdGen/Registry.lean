import EnvoyMesh.Lib.Store

/-! # The registry of parsed protos (`crd-gen/internal/parser/parser.go`)

Messages and enums by their fully-qualified names, and how a type name in a field is resolved to one of
them (`resolveFQN` of `crd-gen/internal/schema/convert.go`). -/

namespace EnvoyMesh.CrdGen

/-- A normal field, a map field (of type `map`), or a member of a oneof. -/
structure Field where
  name : String
  /-- A scalar type, or a message or enum name, which may be relative. -/
  type : String
  repeated : Bool := false
  mapKey : String := ""
  mapValue : String := ""
  comment : String := ""
  deriving DecidableEq

structure Message where
  fullName : String
  name : String
  package : String
  fields : List Field
  comment : String := ""
  deriving DecidableEq

def isIdentChar (c : Char) : Bool := c.isAlphanum || c == '_'

/-- A proto enum. The names of its values are identifiers. -/
structure Enum where
  fullName : String
  values : List String
  identifiers : ∀ v ∈ values, ∀ c ∈ v.toList, isIdentChar c = true
  deriving DecidableEq

/-- Every entry is kept under its own full name. -/
structure Registry where
  messages : Store Message.fullName
  enums : Store Enum.fullName

/-! ### Type names -/

/-- `strings.Split(s, ".")`. -/
def split (s : String) : List String := (s.toList.splitOn '.').map String.ofList

/-- `strings.Join(parts, ".")`. -/
def join (parts : List String) : String := ".".intercalate parts

/-- `strings.TrimPrefix(s, ".")`. -/
def trimDot (s : String) : String :=
  match s.toList with
  | '.' :: cs => String.ofList cs
  | _ => s

def inRegistry (name : String) (reg : Registry) : Bool :=
  (reg.messages.get? name).isSome || (reg.enums.get? name).isSome

/-- The first of `parts[:i]`, `parts[:i-1]`, … in which the registry has the type. -/
def walkUp (typeName : String) (reg : Registry) (parts : List String) : Nat → Option String
  | 0 => none
  | i + 1 =>
    let candidate := join (parts.take (i + 1)) ++ "." ++ typeName
    if inRegistry candidate reg then some candidate else walkUp typeName reg parts i

def resolveFQN (typeName pkg msgFQN : String) (reg : Registry) : String :=
  if inRegistry typeName reg then typeName
  else
    let walk (name : String) := walkUp typeName reg (split name) (split name).length
    ((if msgFQN ≠ "" then walk msgFQN else none).or (walk pkg)).getD typeName

end EnvoyMesh.CrdGen
