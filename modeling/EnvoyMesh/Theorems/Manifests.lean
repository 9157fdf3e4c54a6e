import EnvoyMesh.CrdGen.Generator
import EnvoyMesh.Theorems.Admission

/-! # The schemas of the manifests are structural

The API server refuses a CRD with a single node that is not structural. -/

namespace EnvoyMesh.CrdGen
open Structural

section Nodes
variable {table : Table} {s t : JSONSchemaProps} {p : Ptr JSONSchemaProps}

/-- The server sees the entries of the table as they were at first. -/
theorem Table.Shaped.view_eq (h : table.Shaped) : Ptr.view table = Ptr.view wellKnownSchemas := by
  funext p
  cases p with
  | wellKnown w => exact h.view_wellKnown w
  | new s => rfl

/-- Every node of the schema is structural, with the table as it was at first. -/
def Sound (p : Ptr JSONSchemaProps) : Prop := IsStructural (Ptr.view wellKnownSchemas) p

theorem JSONSchemaProps.Like.sound (h : s.Like t) (ht : Sound (.new t)) : Sound (.new s) :=
  isStructural_of_view_eq (t := .new t) h.node_eq ht

theorem sound_of_leaf (hleaf : s.node.Leaf) (htype : s.type.isSome ∨ s.xPreserveUnknownFields = true)
    (harray : s.type ≠ some .array) (henum : s.enum ≠ [] → s.type = some .string) : Sound (.new s) :=
  isStructural_of_leaf hleaf ⟨htype, fun h => absurd h harray, fun _ _ => hleaf.additionalProperties, henum⟩

theorem sound_freeForm : Sound (.new freeForm) := sound_of_leaf leaf_freeForm (Or.inl rfl) nofun nofun

theorem sound_scalar (t : Scalar) : Sound (.new t.schema) := by
  refine sound_of_leaf (leaf_scalar t) ?_ ?_ ?_ <;> cases t <;> simp [Scalar.schema]

theorem sound_enum (e : Enum) : Sound (.new e.schema) :=
  sound_of_leaf ⟨fun _ => rfl, rfl, rfl⟩ (Or.inl rfl) nofun fun _ => rfl

theorem sound_array (h : Sound p) : Sound (.new { type := some .array, items := some p }) := by
  refine isStructural_of_parts ⟨Or.inl rfl, fun _ => rfl, nofun, nofun⟩ fun c hc => ?_
  rcases hc with ⟨key, hc⟩ | hc | hc
  · cases hc
  · cases hc
    exact h
  · cases hc

theorem sound_map (h : Sound p) : Sound (.new { type := some .object, additionalProperties := some p }) := by
  refine isStructural_of_parts ⟨Or.inl rfl, nofun, nofun, nofun⟩ fun c hc => ?_
  rcases hc with ⟨key, hc⟩ | hc | hc
  · cases hc
  · cases hc
  · cases hc
    exact h

theorem sound_wellKnown (w : WellKnown) : Sound (.new (wellKnownSchemas w)) := by
  cases w with
  | listValue => exact sound_array (sound_of_leaf ⟨fun _ => rfl, rfl, rfl⟩ (Or.inr rfl) nofun nofun)
  | _ => exact sound_of_leaf (leaf_wellKnown nofun) (by decide) nofun nofun

/-- An object with properties only, all of them structural. -/
structure SoundObject (s : JSONSchemaProps) : Prop where
  type : s.type = some .object
  enum : s.enum = []
  items : s.items = none
  additionalProperties : s.additionalProperties = none
  properties : ∀ name q, s.property? name = some q → Sound (.new q)

namespace SoundObject

theorem sound (h : SoundObject s) : Sound (.new s) := by
  have htyped : s.type.isSome := by rw [h.type]; rfl
  refine isStructural_of_parts
    ⟨Or.inl htyped, fun ha => ?_, fun _ _ => h.additionalProperties, fun he => absurd h.enum he⟩ fun c hc => ?_
  · cases h.type.symm.trans ha
  rcases hc with ⟨key, hc⟩ | hc | hc
  · obtain ⟨q, hq, rfl⟩ := Option.map_eq_some_iff.mp hc
    exact h.properties key q hq
  · cases h.items.symm.trans hc
  · cases h.additionalProperties.symm.trans hc

theorem setProperty (h : SoundObject s) (name : String) {q : JSONSchemaProps} (hq : Sound (.new q)) :
    SoundObject (s.setProperty name q) where
  type := h.type
  enum := h.enum
  items := h.items
  additionalProperties := h.additionalProperties
  properties name' q' hq' := by
    rw [JSONSchemaProps.property?_setProperty] at hq'
    split at hq'
    · cases hq'
      exact hq
    · exact h.properties name' q' hq'

theorem of_properties {properties : List (String × JSONSchemaProps)} (h : ∀ q ∈ properties, Sound (.new q.2))
    (description : String) (required : List String) :
    SoundObject { type := some .object, description, required, properties } where
  type := rfl
  enum := rfl
  items := rfl
  additionalProperties := rfl
  properties name q hq := by
    obtain ⟨m, hm, rfl⟩ := Option.map_eq_some_iff.mp hq
    exact h m (List.mem_of_find?_eq_some hm)

end SoundObject

end Nodes

theorem SchemaFor.sound {reg : Registry} {D : Field → String → Prop} {visited : Visited} {pos : Position}
    {p : Ptr JSONSchemaProps} (h : SchemaFor reg D visited pos p) : Sound p := by
  induction h with
  | @scalar _ t _ hs => exact hs.sound (sound_scalar t)
  | @shared _ w => exact isStructural_of_view_eq (t := .new (wellKnownSchemas w)) rfl (sound_wellKnown w)
  | @copied _ w _ hs => exact hs.sound (sound_wellKnown w)
  | @enum _ e _ hs => exact hs.sound (sound_enum e)
  | unknown hs => exact hs.sound sound_freeForm
  | cycle _ hs => exact hs.sound sound_freeForm
  | message _ _ ih => exact ih
  | list _ hs ih => exact hs.sound (sound_array ih)
  | map _ hs ih => exact hs.sound (sound_map ih)
  | @fields _ msg s hs hnames _ _ ih =>
    have hnode := hs.node_eq
    refine SoundObject.sound ⟨congrArg Node.type hnode, congrArg Node.enum hnode, congrArg Node.items hnode,
      congrArg Node.additionalProperties hnode, fun name q hq => ?_⟩
    obtain ⟨f, hf⟩ := Option.isSome_iff_exists.mp ((hnames name).symm.trans (by rw [hq]; rfl))
    exact ih name f q hf hq

/-! ### Manifests -/

/-- A node for a single value that is not enumerated. -/
theorem sound_plain {t : DataType} (ht : t ≠ .array) (format : Option Format) (description : String)
    (minimum maximum : Option Rat) : Sound (.new { type := some t, format, description, minimum, maximum }) :=
  sound_of_leaf ⟨fun _ => rfl, rfl, rfl⟩ (Or.inl rfl) (fun h => ht (Option.some.inj h)) nofun

theorem sound_targetRefSchema : Sound (.new targetRefSchema) := by
  refine SoundObject.sound (.of_properties (fun q hq => ?_) _ _)
  rcases List.mem_pair.mp hq with rfl | rfl
  · exact sound_plain (t := .string) nofun none _ none none
  · exact sound_plain (t := .string) nofun none _ none none

theorem sound_topLevelSchema {spec : JSONSchemaProps} {extra : ExtraProps} (hspec : Sound (.new spec))
    (hextra : ∀ p ∈ extra.items, Sound (.new p.2)) : Sound (.new (topLevelSchema spec extra)) := by
  have hstart : ∀ q ∈ [("targetRef", targetRefSchema), ("spec", spec), ("status", statusSchema)], Sound (.new q.2) := by
    simp only [List.forall_mem_cons]
    exact ⟨sound_targetRefSchema, hspec, sound_freeForm, nofun⟩
  exact SoundObject.sound (List.foldlRecOn (motive := SoundObject) _ _ (.of_properties hstart _ _)
    fun s hs p hp => hs.setProperty p.1 (hextra p hp))

/-- The schemas that are given for the kinds are structural. -/
def Config.ExtrasStructural (cfg : Config) : Prop :=
  ∀ kind, ∀ p ∈ (cfg.kindExtraProps kind).items, IsStructural (Ptr.view wellKnownSchemas) (.new p.2)

theorem buildCRD_of_messageToSchema (lib : Libraries) (cfg : Config) {fuel : Nat} {msg : Message} {reg : Registry}
    {table table' : Table} {spec : JSONSchemaProps} (h : messageToSchema fuel msg reg table = some (spec, table')) :
    buildCRD lib fuel msg cfg reg table = some (manifest lib msg cfg spec, table') := by
  simp only [buildCRD, bind, StateT.bind, h, Option.bind]
  rfl

/-- Whatever was converted before: the CRD of a message is built, and every node of its schema is structural,
    as the schema is written. -/
theorem generated_schemas_structural (lib : Libraries) (cfg : Config) (hextra : cfg.ExtrasStructural) (reg : Registry)
    (msg : Message) {table : Table} (hshaped : table.Shaped) :
    ∃ crd table', (∀ fuel, reg.messages.items.length < fuel → buildCRD lib fuel msg cfg reg table = some (crd, table')) ∧
      table'.Shaped ∧ ∃ v, crd.versions = [v] ∧ IsStructural (Ptr.view table') (.new v.openAPIV3Schema) := by
  obtain ⟨spec, table', hrun, hshaped', hs⟩ := messageToSchema_total reg msg hshaped
  refine ⟨manifest lib msg cfg spec, table', fun fuel hfuel => buildCRD_of_messageToSchema lib cfg (hrun fuel hfuel),
    hshaped', _, rfl, ?_⟩
  rw [hshaped'.view_eq]
  exact sound_topLevelSchema hs.sound (hextra msg.name)

theorem sound_kindExtraProps : ∀ kind, ∀ p ∈ (kindExtraProps kind).items, Sound (.new p.2) := by
  intro kind p hp
  unfold kindExtraProps at hp
  split at hp
  · obtain rfl := List.mem_singleton.mp hp
    refine SoundObject.sound (.of_properties (fun q hq => ?_) _ _)
    simp only [List.mem_cons, List.not_mem_nil, or_false] at hq
    rcases hq with rfl | rfl | rfl
    · exact sound_plain (t := .string) nofun none _ none none
    · exact sound_plain (t := .string) nofun none _ none none
    · exact sound_plain (t := .integer) nofun _ _ _ _
  · cases hp

namespace Sample

/-- The tool as it is called without options, for the messages of the given names. -/
def config (messages : List String) : Config where
  protoDir := "../proto"
  outDir := "../crds"
  group := "mesh.iglin.io"
  version := "v1alpha1"
  messages := messages
  kindExtraProps := kindExtraProps

/-- Libraries of which the YAML shows the metadata of a manifest only. -/
def libraries : Libraries where
  lowerRune := Char.toLower
  quote s := "\"" ++ s ++ "\""
  marshal _ crd := .ok ("metadata:\n  annotations:\n" ++
    String.join (crd.annotations.map fun a => "    " ++ a.1 ++ ": " ++ a.2 ++ "\n") ++ "  name: " ++ crd.name ++ "\n")

/-- A message of a kind that has an extra property. -/
def cluster : Message where
  fullName := "envoy.config.cluster.v3.Cluster"
  name := "Cluster"
  package := "envoy.config.cluster.v3"
  fields := [⟨"name", "string", false, "", "", ""⟩, ⟨"filters", "mesh.v1.Filter", true, "", "", ""⟩]

end Sample

theorem generated_schemas_structural_cluster :
    (Sample.config []).ExtrasStructural ∧
    ∃ crd table', (∀ fuel, 1 < fuel →
        buildCRD Sample.libraries fuel Sample.cluster (Sample.config []) Sample.filters wellKnownSchemas =
          some (crd, table')) ∧
      table'.Shaped ∧ ∃ v, crd.versions = [v] ∧ IsStructural (Ptr.view table') (.new v.openAPIV3Schema) :=
  ⟨sound_kindExtraProps,
    generated_schemas_structural _ (Sample.config []) sound_kindExtraProps Sample.filters Sample.cluster
      shaped_wellKnownSchemas⟩

end EnvoyMesh.CrdGen
