import EnvoyMesh.Theorems.Cycles

/-! # Declared fields are not pruned -/

namespace EnvoyMesh.CrdGen
open Structural

/-- A value without parts. -/
def isAtom : Json → Bool
  | .obj _ | .arr _ => false
  | _ => true

/-- Of these kinds are arbitrary values. -/
def Kind.isFree : Kind → Bool
  | .wellKnown .any | .wellKnown .struct | .wellKnown .value | .unknown => true
  | _ => false

/-- The values of a type that use declared fields only, under their proto names. Which atoms stand where
    does not matter here. -/
inductive WellFormed (reg : Registry) : FieldType → Json → Prop where
  | atom {t : FieldType} {v : Json} (hv : isAtom v = true) : WellFormed reg t v
  | free {k : Kind} {v : Json} (hk : k.isFree = true) : WellFormed reg (.one k) v
  | listValue {items : List Json} : WellFormed reg (.one (.wellKnown .listValue)) (.arr items)
  | empty : WellFormed reg (.one (.wellKnown .empty)) (.obj [])
  | message {msg : Message} {members : List (String × Json)} (hnames : ∀ m ∈ members, (msg.field? m.1).isSome)
      (h : ∀ m ∈ members, ∀ f, msg.field? m.1 = some f → WellFormed reg (f.fieldType reg msg) m.2) :
      WellFormed reg (.one (.message msg)) (.obj members)
  | list {k : Kind} {items : List Json} (h : ∀ v ∈ items, WellFormed reg (.one k) v) : WellFormed reg (.list k) (.arr items)
  | map {k : Kind} {members : List (String × Json)} (h : ∀ m ∈ members, WellFormed reg (.one k) m.2) :
      WellFormed reg (.map k) (.obj members)

/-- The type of the values that a schema at the position is for. -/
def Position.type : Position → FieldType
  | .fields msg => .one (.message msg)
  | .value t => t

section Pruning
variable {reg : Registry} {D : Field → String → Prop} {visited : Visited} {pos : Position} {p : Ptr JSONSchemaProps}
variable {table : Table} {s t : JSONSchemaProps} {v : Json}

theorem JSONSchemaProps.Like.node_eq (h : s.Like t) : s.node = t.node := by
  have h : ({ s with description := "" } : JSONSchemaProps) = { t with description := "" } := h
  have := congrArg JSONSchemaProps.node h
  exact this

theorem child_new {name : String} (h : s.property? name = some t) :
    ((Ptr.new s).view table).child name = some (.new t) := by
  show ((s.property? name).map Ptr.new).or s.additionalProperties = _
  rw [h]
  rfl

theorem Table.Shaped.view_wellKnown (h : table.Shaped) (w : WellKnown) :
    (Ptr.wellKnown w).view table = (wellKnownSchemas w).node := (h w).node_eq

theorem prune_atom (hv : isAtom v = true) : prune (Ptr.view table) p v = v := by
  cases v with
  | obj | arr => cases hv
  | _ => rfl

theorem leaf_freeForm : freeForm.node.Leaf := ⟨fun _ => rfl, rfl, rfl⟩

theorem prune_freeForm (hs : s.Like freeForm) : prune (Ptr.view table) (.new s) v = v := by
  have hnode : (Ptr.new s).view table = freeForm.node := hs.node_eq
  exact prune_of_leaf (hnode ▸ leaf_freeForm) (hnode ▸ rfl)

theorem leaf_wellKnown {w : WellKnown} (hw : w ≠ .listValue) : (wellKnownSchemas w).node.Leaf := by
  cases w with
  | listValue => exact absurd rfl hw
  | _ => exact ⟨fun _ => rfl, rfl, rfl⟩

theorem prune_wellKnown {w : WellKnown} (hnode : p.view table = (wellKnownSchemas w).node)
    (hv : WellFormed reg (.one (.wellKnown w)) v) : prune (Ptr.view table) p v = v := by
  cases hv with
  | atom hv => exact prune_atom hv
  | free hk =>
    cases w with
    | any | struct | value => exact prune_of_leaf (hnode ▸ leaf_wellKnown nofun) (hnode ▸ rfl)
    | _ => cases hk
  | listValue =>
    refine prune_arr (congrArg Node.preserveUnknownFields hnode) (congrArg Node.items hnode) fun v _ => ?_
    exact prune_of_leaf ⟨fun _ => rfl, rfl, rfl⟩ rfl
  | empty => exact prune_obj fun m hm => nomatch hm

theorem SchemaFor.prune (hshaped : table.Shaped) (h : SchemaFor reg D visited pos p) (hv : WellFormed reg pos.type v) :
    prune (Ptr.view table) p v = v := by
  induction h generalizing v with
  | scalar =>
    cases hv with
    | atom hv => exact prune_atom hv
    | free hk => cases hk
  | shared => exact prune_wellKnown (hshaped.view_wellKnown _) hv
  | copied hs => exact prune_wellKnown hs.node_eq hv
  | enum =>
    cases hv with
    | atom hv => exact prune_atom hv
    | free hk => cases hk
  | unknown hs => exact prune_freeForm hs
  | cycle _ hs => exact prune_freeForm hs
  | message _ _ ih => exact ih hv
  | list _ hs ih =>
    have hnode := hs.node_eq
    cases hv with
    | atom hv => exact prune_atom hv
    | list hitems =>
      exact prune_arr (congrArg Node.preserveUnknownFields hnode) (congrArg Node.items hnode) fun v hv => ih (hitems v hv)
  | map _ hs ih =>
    have hnode := hs.node_eq
    cases hv with
    | atom hv => exact prune_atom hv
    | map hmembers =>
      exact prune_obj fun m hm => ⟨_, congrArg (Node.child · m.1) hnode, ih (hmembers m hm)⟩
  | fields _ hnames _ _ ih =>
    cases hv with
    | atom hv => exact prune_atom hv
    | free hk => cases hk
    | message hdeclared hmembers =>
      refine prune_obj fun m hm => ?_
      obtain ⟨f, hf⟩ := Option.isSome_iff_exists.mp (hdeclared m hm)
      obtain ⟨q, hq⟩ := Option.isSome_iff_exists.mp ((hnames m.1).trans (by rw [hf]; rfl))
      exact ⟨_, child_new hq, ih m.1 f q hf hq (hmembers m hm f hf)⟩

end Pruning

/-- Whatever was converted before: the conversion of a message ends with a schema by which no well-formed
    value of the message is pruned. -/
theorem declared_fields_kept (reg : Registry) (msg : Message) {table : Table} (hshaped : table.Shaped) {v : Json}
    (hv : WellFormed reg (.one (.message msg)) v) :
    ∃ s table', (∀ fuel, reg.messages.items.length < fuel → messageToSchema fuel msg reg table = some (s, table')) ∧
      prune (Ptr.view table') (.new s) v = v := by
  obtain ⟨s, table', hrun, hshaped', hs⟩ := messageToSchema_total reg msg hshaped
  exact ⟨s, table', hrun, hs.prune hshaped' hv⟩

namespace Sample

/-- A filter that holds filters, in a list and by name. -/
def filter : Message where
  fullName := "mesh.v1.Filter"
  name := "Filter"
  package := "mesh.v1"
  fields := [⟨"name", "string", false, "", "", ""⟩, ⟨"filters", "Filter", true, "", "", ""⟩,
    ⟨"by_name", "map", false, "string", "mesh.v1.Filter", ""⟩, ⟨"config", ".google.protobuf.Struct", false, "", "", ""⟩]

def filters : Registry := ⟨Store.empty.put filter, .empty⟩

/-- Filters nested deeper than the schema, which is cut below the second one. -/
def nested : Json :=
  .obj [("filters", .arr [.obj [("by_name", .obj [("a", .obj [("config", .obj [("x", .null)])])])]])]

theorem wellFormed_singleton {name : String} {v : Json} (t : FieldType)
    (ht : (filter.field? name).map (Field.fieldType filters filter) = some t) (hv : WellFormed filters t v) :
    WellFormed filters (.one (.message filter)) (.obj [(name, v)]) := by
  obtain ⟨f, hf, rfl⟩ := Option.map_eq_some_iff.mp ht
  refine .message (fun m hm => ?_) fun m hm f' hf' => ?_
  · rw [List.mem_singleton.mp hm, hf]
    rfl
  · rw [List.mem_singleton.mp hm] at hf' ⊢
    cases hf.symm.trans hf'
    exact hv

theorem wellFormed_nested : WellFormed filters (.one (.message filter)) nested := by
  have hconfig : WellFormed filters (.one (.message filter)) (.obj [("config", .obj [("x", .null)])]) :=
    wellFormed_singleton (.one (.wellKnown .struct)) (by decide +kernel) (.free rfl)
  have hmap : WellFormed filters (.one (.message filter))
    (.obj [("by_name", .obj [("a", .obj [("config", .obj [("x", .null)])])])]) :=
    wellFormed_singleton (.map (.message filter)) (by decide +kernel) (.map (by simpa using hconfig))
  exact wellFormed_singleton (.list (.message filter)) (by decide +kernel) (.list (by simpa using hmap))

end Sample

theorem declared_fields_kept_filters :
    WellFormed Sample.filters (.one (.message Sample.filter)) Sample.nested ∧
    ∃ s table', (∀ fuel, 1 < fuel → messageToSchema fuel Sample.filter Sample.filters wellKnownSchemas = some (s, table')) ∧
      prune (Ptr.view table') (.new s) Sample.nested = Sample.nested :=
  ⟨Sample.wellFormed_nested, declared_fields_kept _ _ shaped_wellKnownSchemas Sample.wellFormed_nested⟩

end EnvoyMesh.CrdGen
