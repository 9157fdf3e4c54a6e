import EnvoyMesh.CrdGen.Schema
import EnvoyMesh.Lib.Prog
import EnvoyMesh.Lib.SlashPath

/-! # Generating CRDs (`crd-gen/internal/generator/generator.go`, `crd-gen/cmd/root.go`)

`Run` works on the package variable `wellKnownSchemas` through the conversion, and on the file system
through calls that the environment answers. -/

namespace EnvoyMesh.CrdGen

/-- Messages that no CRD is generated for. -/
def blockedMessages : List String := ["envoy.config.bootstrap.v3.Bootstrap"]

/-- Additional properties by name. -/
abbrev ExtraProps := Store (Prod.fst : String × JSONSchemaProps → String)

structure Config where
  protoDir : String
  outDir : String
  group : String
  version : String
  /-- Fully-qualified names. -/
  messages : List String
  /-- By the simple name of the message; a kind without an entry has none. -/
  kindExtraProps : String → ExtraProps

/-! ### Manifests -/

structure CustomResourceDefinitionNames where
  kind : String
  listKind : String
  plural : String
  singular : String

inductive ResourceScope where
  | clusterScoped | namespaceScoped

structure CustomResourceDefinitionVersion where
  name : String
  served : Bool
  storage : Bool
  openAPIV3Schema : JSONSchemaProps
  /-- Whether there is the subresource `status`. -/
  status : Bool

/-- `apiextensionsv1.CustomResourceDefinition`, with the fields that the generator sets. -/
structure CustomResourceDefinition where
  apiVersion : String
  kind : String
  name : String
  annotations : List (String × String)
  group : String
  names : CustomResourceDefinitionNames
  scope : ResourceScope
  versions : List CustomResourceDefinitionVersion

/-- What the generator takes from libraries. -/
structure Libraries where
  /-- `unicode.ToLower`. -/
  lowerRune : Char → Char
  /-- `strconv.Quote`, for the verb `%q`. -/
  quote : String → String
  /-- `yaml.Marshal`, with the contents of the table that the schemas point into. -/
  marshal : Table → CustomResourceDefinition → Except String String

/-- `strings.ToLower`. -/
def Libraries.toLower (lib : Libraries) (s : String) : String := String.ofList (s.toList.map lib.lowerRune)

def plural (lib : Libraries) (kind : String) : String := lib.toLower kind ++ "s"

def targetRefSchema : JSONSchemaProps where
  type := some .object
  description := "Reference to the EnvoyProxy CR that this resource is assigned to."
  required := ["name"]
  properties := [
    ("name", { type := some .string, description := "Name of the EnvoyProxy CR." }),
    ("namespace", {
      type := some .string
      description := "Namespace of the EnvoyProxy CR. Defaults to the namespace of this resource." })]

def statusSchema : JSONSchemaProps := { type := some .object, xPreserveUnknownFields := true }

/-- The schema of a resource with the given schema for `spec`. -/
def topLevelSchema (spec : JSONSchemaProps) (extra : ExtraProps) : JSONSchemaProps :=
  extra.items.foldl (fun s p => s.setProperty p.1 p.2)
    { type := some .object
      required := ["targetRef"]
      properties := [("targetRef", targetRefSchema), ("spec", spec), ("status", statusSchema)] }

/-- The manifest for a message with the given schema for `spec`. -/
def manifest (lib : Libraries) (msg : Message) (cfg : Config) (specSchema : JSONSchemaProps) :
    CustomResourceDefinition where
  apiVersion := "apiextensions.k8s.io/v1"
  kind := "CustomResourceDefinition"
  name := plural lib msg.name ++ "." ++ cfg.group
  annotations := [("mesh.iglin.io/proto-source", msg.fullName)]
  group := cfg.group
  names := {
    kind := msg.name
    listKind := msg.name ++ "List"
    plural := plural lib msg.name
    singular := lib.toLower msg.name }
  scope := .namespaceScoped
  versions := [{
    name := cfg.version
    served := true
    storage := true
    openAPIV3Schema := topLevelSchema specSchema (cfg.kindExtraProps msg.name)
    status := true }]

def buildCRD (lib : Libraries) (fuel : Nat) (msg : Message) (cfg : Config) (reg : Registry) :
    StateT Table Option CustomResourceDefinition := do
  let specSchema ← messageToSchema fuel msg reg
  return manifest lib msg cfg specSchema

/-- The text starts with a document separator. -/
def marshalCRD (lib : Libraries) (table : Table) (crd : CustomResourceDefinition) : Except String String :=
  (lib.marshal table crd).map ("---\n" ++ ·)

/-- `kindExtraProps` of `crd-gen/cmd/root.go`. -/
def kindExtraProps : String → ExtraProps
  | "Cluster" => Store.empty.put ("kubernetesServiceRef", {
      type := some .object
      description :=
        "Auto-discovers endpoints from a Kubernetes Service and synthesises a ClusterLoadAssignment in memory. " ++
        "The cluster spec must use type: EDS with ads: \x7b\x7d as the eds_config source."
      required := ["name"]
      properties := [
        ("name", { type := some .string, description := "Name of the Kubernetes Service." }),
        ("namespace", {
          type := some .string
          description := "Namespace of the Service. Defaults to the Cluster CR's namespace." }),
        ("port", {
          type := some .integer
          format := some .int32
          description := "Port to expose as Envoy endpoints. If omitted, the first port of the Service is used."
          minimum := some 1
          maximum := some 65535 })] })
  | _ => .empty

/-! ### The run -/

inductive FileCall where
  | mkdirAll (dir : String)
  | writeFile (path data : String)

/-- The answer is the text of an error, if there is one. -/
@[reducible] def FileCall.Answer (_ : FileCall) : Type := Option String

abbrev FileCalls := Prog FileCall FileCall.Answer

def outPath (lib : Libraries) (cfg : Config) (msg : Message) : String :=
  SlashPath.join [cfg.outDir, plural lib msg.name ++ "." ++ cfg.group ++ ".yaml"]

/-- The message loop. A run whose conversions run out of fuel has no result. -/
def generate (lib : Libraries) (fuel : Nat) (cfg : Config) (reg : Registry) :
    List String → Table → FileCalls (Option (Except String Unit))
  | [], _ => return some (.ok ())
  | fqn :: fqns, table =>
    if fqn ∈ blockedMessages then generate lib fuel cfg reg fqns table
    else
      match reg.messages.get? fqn with
      | none =>
        return some (.error s!"message {lib.quote fqn} not found in proto directory — check the fully-qualified name")
      | some msg =>
        match buildCRD lib fuel msg cfg reg table with
        | none => return none
        | some (crd, table') =>
          match marshalCRD lib table' crd with
          | .error err => return some (.error s!"marshaling CRD for {fqn}: {err}")
          | .ok data => do
            match ← Prog.ask (.writeFile (outPath lib cfg msg) data) with
            | some err => return some (.error s!"writing {outPath lib cfg msg}: {err}")
            | none => generate lib fuel cfg reg fqns table'

/-- `Run`, given the registry and the error that `parser.ParseDir` returns. -/
def run (lib : Libraries) (fuel : Nat) (cfg : Config) (parsed : Registry × Option String) (table : Table) :
    FileCalls (Option (Except String Unit)) :=
  match parsed with
  | (_, some err) => return some (.error s!"parsing proto directory {lib.quote cfg.protoDir}: {err}")
  | (reg, none) => do
    match ← Prog.ask (.mkdirAll cfg.outDir) with
    | some err => return some (.error s!"creating output directory {lib.quote cfg.outDir}: {err}")
    | none => generate lib fuel cfg reg cfg.messages table

/-! ### Files -/

/-- The contents of the files, by their paths. -/
abbrev Files := String → Option String

/-- What the file system may answer to a call, and the files after it. A write that fails may leave anything in
    its file. -/
def Files.Answers (files : Files) : (c : FileCall) → c.Answer → Files → Prop
  | .mkdirAll _, _, files' => files' = files
  | .writeFile path data, none, files' => files' = Function.update files path (some data)
  | .writeFile path _, some _, files' => ∃ content, files' = Function.update files path content

end EnvoyMesh.CrdGen
