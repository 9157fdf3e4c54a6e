import EnvoyMesh.CrdGen.Schema
import EnvoyMesh.Lib.Index

/-! # What a conversion is to give

The types that fields have in a registry, the messages that a conversion expands on its way, and what a
schema for a message looks like, description texts apart. -/

namespace EnvoyMesh.CrdGen

/-- What a type name stands for. -/
inductive Kind where
  | scalar (t : Scalar)
  | wellKnown (w : WellKnown)
  | message (msg : Message)
  | enum (e : Enum)
  | unknown
  deriving DecidableEq

inductive FieldType where
  | one (k : Kind)
  | list (k : Kind)
  /-- A map of strings to values of the kind. -/
  | map (k : Kind)
  deriving DecidableEq

/-- The kind of a type name that a field of `msg` uses. -/
def kind (reg : Registry) (msg : Message) (typeName : String) : Kind :=
  match Scalar.ofName? typeName with
  | some t => .scalar t
  | none =>
    match resolution typeName msg.package msg.fullName reg [] with
    | .wellKnown w => .wellKnown w
    | .message _ m => .message m
    | .enum e => .enum e
    | .cycle | .unknown => .unknown

namespace Field

/-- The type of the field, or of the values of a map. -/
def valueType (f : Field) : String := if f.type = "map" then f.mapValue else f.type

def fieldType (reg : Registry) (msg : Message) (f : Field) : FieldType :=
  let k := kind reg msg f.valueType
  if f.type = "map" then .map k else if f.repeated then .list k else .one k

/-- The well-known type that the field or its values are of. -/
def wellKnown? (f : Field) : Option WellKnown :=
  match Scalar.ofName? f.valueType with
  | some _ => none
  | none => WellKnown.ofName? (trimDot f.valueType)

/-- The entry of `wellKnownSchemas` that the field itself, not its elements or values, has for its schema. -/
def shared? (f : Field) : Option WellKnown := if f.type = "map" ∨ f.repeated then none else f.wellKnown?

end Field

/-- The declared field of a name: the last one, as in `s.Properties`. -/
def Message.field? (msg : Message) (name : String) : Option Field := Index.byName Field.name msg.fields name

/-- The calls of `msgSchema` in a conversion of `root`: the message, the map it is given, and the names of
    the messages that are being expanded from just below the root on, the innermost first. -/
inductive Expands (reg : Registry) (root : Message) : List String → Visited → Message → Prop where
  | root : Expands reg root [] [] root
  | field {path : List String} {visited : Visited} {msg msg' : Message} {f : Field} {fqn : String}
      (h : Expands reg root path visited msg) (hf : f ∈ msg.fields) (hs : Scalar.ofName? f.valueType = none)
      (hr : resolution f.valueType msg.package msg.fullName reg (cloneVisited visited) = .message fqn msg') :
      Expands reg root (fqn :: path) ((cloneVisited visited).insert fqn) msg'

/-- Equal but for the description. -/
def JSONSchemaProps.Like (s t : JSONSchemaProps) : Prop := { s with description := "" } = { t with description := "" }

/-- What a schema is for: the fields of a message, or a value of a type. -/
inductive Position where
  | fields (msg : Message)
  | value (t : FieldType)

/-- The schemas for a position below the expansion of the messages `visited`, descriptions apart. `D` relates
    the fields to the descriptions of their properties. -/
inductive SchemaFor (reg : Registry) (D : Field → String → Prop) : Visited → Position → Ptr JSONSchemaProps → Prop where
  | scalar {visited : Visited} {t : Scalar} {s : JSONSchemaProps} (hs : s.Like t.schema) :
      SchemaFor reg D visited (.value (.one (.scalar t))) (.new s)
  | shared {visited : Visited} {w : WellKnown} : SchemaFor reg D visited (.value (.one (.wellKnown w))) (.wellKnown w)
  | copied {visited : Visited} {w : WellKnown} {s : JSONSchemaProps} (hs : s.Like (wellKnownSchemas w)) :
      SchemaFor reg D visited (.value (.one (.wellKnown w))) (.new s)
  | enum {visited : Visited} {e : Enum} {s : JSONSchemaProps} (hs : s.Like e.schema) :
      SchemaFor reg D visited (.value (.one (.enum e))) (.new s)
  | unknown {visited : Visited} {s : JSONSchemaProps} (hs : s.Like freeForm) :
      SchemaFor reg D visited (.value (.one .unknown)) (.new s)
  | cycle {visited : Visited} {msg : Message} {s : JSONSchemaProps} (hv : msg.fullName ∈ visited) (hs : s.Like freeForm) :
      SchemaFor reg D visited (.value (.one (.message msg))) (.new s)
  | message {visited : Visited} {msg : Message} {s : JSONSchemaProps} (hv : msg.fullName ∉ visited)
      (h : SchemaFor reg D (visited.insert msg.fullName) (.fields msg) (.new s)) :
      SchemaFor reg D visited (.value (.one (.message msg))) (.new s)
  | list {visited : Visited} {k : Kind} {p : Ptr JSONSchemaProps} {s : JSONSchemaProps}
      (h : SchemaFor reg D visited (.value (.one k)) p) (hs : s.Like { type := some .array, items := some p }) :
      SchemaFor reg D visited (.value (.list k)) (.new s)
  | map {visited : Visited} {k : Kind} {p : Ptr JSONSchemaProps} {s : JSONSchemaProps}
      (h : SchemaFor reg D visited (.value (.one k)) p)
      (hs : s.Like { type := some .object, additionalProperties := some p }) :
      SchemaFor reg D visited (.value (.map k)) (.new s)
  | fields {visited : Visited} {msg : Message} {s : JSONSchemaProps}
      (hs : s.Like { type := some .object, properties := s.properties, xPreserveUnknownFields := s.properties.isEmpty })
      (hnames : ∀ name, (s.property? name).isSome = (msg.field? name).isSome)
      (hD : ∀ name f p, msg.field? name = some f → s.property? name = some p → D f p.description)
      (h : ∀ name f p, msg.field? name = some f → s.property? name = some p →
        SchemaFor reg D visited (.value (f.fieldType reg msg)) (.new p)) :
      SchemaFor reg D visited (.fields msg) (.new s)

end EnvoyMesh.CrdGen
