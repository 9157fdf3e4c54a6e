import EnvoyMesh.Lib.JsonText
import EnvoyMesh.Theorems.Pruning

/-! # Which specs a schema admits

The values that `protojson` reads as a message, and those of them that the generated schema admits. The
unsigned types are given the formats of the signed ones, the schemas have no nullable fields and take
numbers for numbers only, the API server does not take every literal of a large integer for one, and a type
that is not in the registry is taken for a message. -/

namespace EnvoyMesh.CrdGen
open Structural

/-! ### Proto JSON -/

/-- The range of an integer type. -/
def Scalar.range? : Scalar → Option (Int × Int)
  | .int32 | .sint32 | .sfixed32 => some (-2147483648, 2147483647)
  | .int64 | .sint64 | .sfixed64 => some (-9223372036854775808, 9223372036854775807)
  | .uint32 | .fixed32 => some (0, 4294967295)
  | .uint64 | .fixed64 => some (0, 18446744073709551615)
  | .string | .bytes | .bool | .float | .double => none

/-- The strings that stand for floating-point numbers. -/
def IsFloatText (s : String) : Prop :=
  s = "NaN" ∨ s = "Infinity" ∨ s = "-Infinity" ∨ ∃ literal, Json.parse s = some (.num literal)

/-- The values that are read as a scalar, integers as numbers. The texts of strings and the ranges of
    floating-point numbers are left open. -/
def Scalar.Reads (t : Scalar) (v : Json) : Prop :=
  match t with
  | .string | .bytes => ∃ s, v = .str s
  | .bool => ∃ b, v = .bool b
  | .float | .double => (∃ literal, v = .num literal) ∨ ∃ s, v = .str s ∧ IsFloatText s
  | _ => ∃ literal n lo hi, v = .num literal ∧ Json.integer? literal = some n ∧ t.range? = some (lo, hi) ∧ lo ≤ n ∧ n ≤ hi

/-- The scalar that a wrapper type holds. -/
def WellKnown.wrapped? : WellKnown → Option Scalar
  | .stringValue => some .string
  | .boolValue => some .bool
  | .int32Value => some .int32
  | .uint32Value => some .uint32
  | .int64Value => some .int64
  | .uint64Value => some .uint64
  | .floatValue => some .float
  | .doubleValue => some .double
  | .bytesValue => some .bytes
  | .any | .struct | .value | .duration | .timestamp | .empty | .listValue => none

/-- The proto3 JSON forms of the well-known types. -/
def WellKnown.Reads (w : WellKnown) (v : Json) : Prop :=
  match w with
  | .any | .struct | .empty => ∃ members, v = .obj members
  | .value => True
  | .duration | .timestamp => ∃ s, v = .str s
  | .listValue => ∃ items, v = .arr items
  | _ => ∃ t, w.wrapped? = some t ∧ t.Reads v

/-- The values of a type as `protojson` reads them: unknown fields are discarded, a null field counts as
    unset, and enums are given by name. Nothing is known of types that are not in the registry. -/
inductive Instance (reg : Registry) : FieldType → Json → Prop where
  | scalar {t : Scalar} {v : Json} (h : t.Reads v) : Instance reg (.one (.scalar t)) v
  | wellKnown {w : WellKnown} {v : Json} (h : w.Reads v) : Instance reg (.one (.wellKnown w)) v
  | enum {e : Enum} {name : String} (h : name ∈ e.values) : Instance reg (.one (.enum e)) (.str name)
  | unknown {v : Json} : Instance reg (.one .unknown) v
  | message {msg : Message} {members : List (String × Json)}
      (h : ∀ m ∈ members, ∀ f, msg.field? m.1 = some f → m.2 ≠ .null → Instance reg (f.fieldType reg msg) m.2) :
      Instance reg (.one (.message msg)) (.obj members)
  | list {k : Kind} {items : List Json} (h : ∀ v ∈ items, Instance reg (.one k) v) : Instance reg (.list k) (.arr items)
  | map {k : Kind} {members : List (String × Json)} (h : ∀ m ∈ members, Instance reg (.one k) m.2) :
      Instance reg (.map k) (.obj members)

/-! ### What is admitted of it -/

/-- The integer is written without fraction and exponent, or it is at most 2^53 - 1 in absolute value. -/
def Written (literal : String) (n : Int) : Prop :=
  Json.isPlain literal = true ∨ (-9007199254740991 ≤ n ∧ n ≤ 9007199254740991)

/-- No unsigned integer above the largest signed one, large integers without fraction and exponent, and floating-point
    numbers as numbers. -/
def Scalar.Fits (t : Scalar) (v : Json) : Prop :=
  match t with
  | .uint32 | .fixed32 => ∀ literal n, v = .num literal → Json.integer? literal = some n → n ≤ 2147483647
  | .int64 | .sint64 | .sfixed64 => ∀ literal n, v = .num literal → Json.integer? literal = some n → Written literal n
  | .uint64 | .fixed64 => ∀ literal n, v = .num literal → Json.integer? literal = some n →
      n ≤ 9223372036854775807 ∧ Written literal n
  | .float | .double => ∃ literal, v = .num literal
  | _ => True

/-- The values that stay within what the schemas can express: scalars that fit, no null but for a `Value`,
    objects for the types that are not in the registry. Where the expansion is cut nothing is asked for. -/
inductive Expressible (reg : Registry) : Visited → Position → Json → Prop where
  | scalar {visited : Visited} {t : Scalar} {v : Json} (h : t.Fits v) :
      Expressible reg visited (.value (.one (.scalar t))) v
  | wellKnown {visited : Visited} {w : WellKnown} {v : Json} (h : ∀ t, w.wrapped? = some t → t.Fits v) :
      Expressible reg visited (.value (.one (.wellKnown w))) v
  | enum {visited : Visited} {e : Enum} {v : Json} : Expressible reg visited (.value (.one (.enum e))) v
  | unknown {visited : Visited} {members : List (String × Json)} :
      Expressible reg visited (.value (.one .unknown)) (.obj members)
  | cycle {visited : Visited} {msg : Message} {v : Json} (hv : msg.fullName ∈ visited) :
      Expressible reg visited (.value (.one (.message msg))) v
  | message {visited : Visited} {msg : Message} {v : Json} (hv : msg.fullName ∉ visited)
      (h : Expressible reg (visited.insert msg.fullName) (.fields msg) v) :
      Expressible reg visited (.value (.one (.message msg))) v
  | list {visited : Visited} {k : Kind} {items : List Json} (h : ∀ v ∈ items, Expressible reg visited (.value (.one k)) v) :
      Expressible reg visited (.value (.list k)) (.arr items)
  | map {visited : Visited} {k : Kind} {members : List (String × Json)}
      (h : ∀ m ∈ members, Expressible reg visited (.value (.one k)) m.2) :
      Expressible reg visited (.value (.map k)) (.obj members)
  | fields {visited : Visited} {msg : Message} {members : List (String × Json)}
      (hnull : ∀ m ∈ members, ∀ f, msg.field? m.1 = some f → m.2 = .null → f.fieldType reg msg = .one (.wellKnown .value))
      (h : ∀ m ∈ members, ∀ f, msg.field? m.1 = some f → m.2 ≠ .null →
        Expressible reg visited (.value (f.fieldType reg msg)) m.2) :
      Expressible reg visited (.fields msg) (.obj members)

section Admission
variable {reg : Registry} {D : Field → String → Prop} {visited : Visited} {pos : Position} {p : Ptr JSONSchemaProps}
variable {table : Table} {v : Json}

/-- Without enumerated values, and where the format says nothing of the value, only the type matters. -/
theorem allows_of_type {s : JSONSchemaProps} {t : DataType} (ht : s.type = some t) (he : s.enum = [])
    (hf : ∀ f literal i, s.format = some f → v = .num literal → Json.integer? literal = some i → f.range i) :
    s.node.Allows v ↔ t.Allows v :=
  ⟨fun h => h.type t ht, fun h => ⟨fun t' ht' => by cases ht.symm.trans ht'; exact h, hf, Or.inl he⟩⟩

theorem allows_of_not_num {s : JSONSchemaProps} {t : DataType} (h : t.Allows v) (hnum : ∀ literal, v ≠ .num literal)
    (ht : s.type = some t) (he : s.enum = []) : s.node.Allows v :=
  (allows_of_type ht he fun _ literal _ _ hv => absurd hv (hnum literal)).mpr h

theorem asInteger_iff {literal : String} {n : Int} (hn : Json.integer? literal = some n)
    (hrange : -9223372036854775808 ≤ n ∧ n ≤ 9223372036854775807) : AsInteger literal n ↔ Written literal n := by
  unfold AsInteger Written
  by_cases hplain : Json.isPlain literal = true
  · rw [if_pos hplain]
    exact iff_of_true ⟨hn, hrange⟩ (Or.inl hplain)
  · rw [if_neg hplain]
    exact ⟨fun h => Or.inr h.2, fun h => ⟨hn, h.resolve_left hplain⟩⟩

theorem allows_integer {s : JSONSchemaProps} {f : Format} {literal : String} {n : Int} (hn : Json.integer? literal = some n)
    (ht : s.type = some .integer) (hf : s.format = some f) (he : s.enum = []) :
    s.node.Allows (.num literal) ↔ f.range n ∧ AsInteger literal n := by
  have hliteral {literal' : String} {n' : Int} (hlit : Json.num literal = .num literal')
      (hn' : Json.integer? literal' = some n') : n' = n := by
    cases hlit
    exact Option.some.inj (hn'.symm.trans hn)
  constructor
  · intro h
    obtain ⟨literal', n', hlit, hinteger⟩ := h.type .integer ht
    obtain rfl := hliteral hlit hinteger.1
    cases hlit
    exact ⟨h.format f literal n' hf rfl hn, hinteger⟩
  · rintro ⟨hrange, hinteger⟩
    refine (allows_of_type ht he ?_).mpr ⟨literal, n, rfl, hinteger⟩
    intro f' literal' i hf' hlit hi
    cases hf.symm.trans hf'
    rwa [hliteral hlit hi]

/-- An integer that has the format int32 is small enough for every way to write it. -/
theorem allows_int32 {s : JSONSchemaProps} {literal : String} {n : Int} (hn : Json.integer? literal = some n)
    (ht : s.type = some .integer) (hf : s.format = some .int32) (he : s.enum = []) :
    s.node.Allows (.num literal) ↔ -2147483648 ≤ n ∧ n ≤ 2147483647 := by
  rw [allows_integer hn ht hf he]
  refine and_iff_left_of_imp fun ⟨hlo, hhi⟩ => ?_
  exact (asInteger_iff hn ⟨by omega, by omega⟩).mpr (Or.inr ⟨by omega, by omega⟩)

theorem allows_int64 {s : JSONSchemaProps} {literal : String} {n : Int} (hn : Json.integer? literal = some n)
    (ht : s.type = some .integer) (hf : s.format = some .int64) (he : s.enum = []) :
    s.node.Allows (.num literal) ↔ (-9223372036854775808 ≤ n ∧ n ≤ 9223372036854775807) ∧ Written literal n := by
  rw [allows_integer hn ht hf he]
  exact and_congr_right fun hrange => asInteger_iff hn hrange

/-- What is asked of the integer that a literal denotes. -/
theorem forall_integer_iff {literal : String} {n : Int} (hn : Json.integer? literal = some n) {P : String → Int → Prop} :
    (∀ literal' n', Json.num literal = .num literal' → Json.integer? literal' = some n' → P literal' n') ↔ P literal n := by
  constructor
  · intro h
    exact h literal n rfl hn
  · intro h literal' n' hlit hn'
    cases hlit
    cases hn.symm.trans hn'
    exact h

theorem allows_scalar {t : Scalar} (h : t.Reads v) : t.schema.node.Allows v ↔ t.Fits v := by
  cases t with
  | string | bytes =>
    obtain ⟨s, rfl⟩ := h
    exact iff_of_true (allows_of_not_num (t := .string) ⟨s, rfl⟩ nofun rfl rfl) trivial
  | bool =>
    obtain ⟨b, rfl⟩ := h
    exact iff_of_true (allows_of_not_num (t := .boolean) ⟨b, rfl⟩ nofun rfl rfl) trivial
  | float | double =>
    refine allows_of_type (t := .number) ?_ ?_ ?_
    · rfl
    · rfl
    · rintro _ _ _ ⟨⟩ - -
      trivial
  | int32 | sint32 | sfixed32 =>
    obtain ⟨literal, n, lo, hi, rfl, hn, ⟨⟩, hlo, hhi⟩ := h
    refine iff_of_true ?_ trivial
    rw [allows_int32 hn rfl rfl rfl]
    exact ⟨hlo, hhi⟩
  | int64 | sint64 | sfixed64 =>
    obtain ⟨literal, n, lo, hi, rfl, hn, ⟨⟩, hlo, hhi⟩ := h
    rw [allows_int64 hn rfl rfl rfl, Scalar.Fits, forall_integer_iff hn]
    exact and_iff_right ⟨hlo, hhi⟩
  | uint32 | fixed32 =>
    obtain ⟨literal, n, lo, hi, rfl, hn, ⟨⟩, hlo, hhi⟩ := h
    rw [allows_int32 hn rfl rfl rfl, Scalar.Fits, forall_integer_iff hn (P := fun _ n => n ≤ 2147483647)]
    exact and_iff_right (by omega)
  | uint64 | fixed64 =>
    obtain ⟨literal, n, lo, hi, rfl, hn, ⟨⟩, hlo, hhi⟩ := h
    rw [allows_int64 hn rfl rfl rfl, Scalar.Fits,
      forall_integer_iff hn (P := fun literal n => n ≤ 9223372036854775807 ∧ Written literal n)]
    exact and_congr_left fun _ => and_iff_right (by omega)

theorem leaf_scalar (t : Scalar) : t.schema.node.Leaf := by
  cases t <;> exact ⟨fun _ => rfl, rfl, rfl⟩

/-- A node that asks for nothing allows all. -/
theorem allows_open {s : JSONSchemaProps} (ht : s.type = none) (hf : s.format = none) (he : s.enum = []) :
    s.node.Allows v := by
  refine ⟨fun t h => ?_, fun f _ _ h => ?_, Or.inl he⟩
  · exact nomatch ht.symm.trans h
  · exact nomatch hf.symm.trans h

/-- A wrapper has the schema of what it holds. -/
theorem node_wrapped {w : WellKnown} {t : Scalar} (h : w.wrapped? = some t) :
    (wellKnownSchemas w).node = t.schema.node := by
  cases w <;> cases h <;> rfl

theorem reads_wrapped {w : WellKnown} {t : Scalar} (h : w.wrapped? = some t) (hv : w.Reads v) : t.Reads v := by
  cases w <;> cases h <;>
  · obtain ⟨t, ⟨⟩, ht⟩ := hv
    exact ht

theorem valid_wellKnown {w : WellKnown} (hnode : p.view table = (wellKnownSchemas w).node) (hv : w.Reads v) :
    Valid (Ptr.view table) p v ↔ ∀ t, w.wrapped? = some t → t.Fits v := by
  cases hw : w.wrapped? with
  | some t =>
    rw [node_wrapped hw] at hnode
    rw [valid_of_leaf (hnode ▸ leaf_scalar t), hnode, allows_scalar (reads_wrapped hw hv)]
    simp
  | none =>
    refine iff_of_true ?_ nofun
    cases w with
    | any | struct | empty =>
      obtain ⟨members, rfl⟩ := hv
      rw [valid_of_leaf (hnode ▸ leaf_wellKnown nofun), hnode]
      exact allows_of_not_num (t := .object) ⟨members, rfl⟩ nofun rfl rfl
    | value =>
      rw [valid_of_leaf (hnode ▸ leaf_wellKnown nofun), hnode]
      exact allows_open rfl rfl rfl
    | duration | timestamp =>
      obtain ⟨s, rfl⟩ := hv
      rw [valid_of_leaf (hnode ▸ leaf_wellKnown nofun), hnode]
      exact allows_of_not_num (t := .string) ⟨s, rfl⟩ nofun rfl rfl
    | listValue =>
      obtain ⟨items, rfl⟩ := hv
      refine valid_arr.mpr ⟨?_, fun v _ c hc => ?_⟩
      · rw [hnode]
        exact allows_of_not_num (t := .array) ⟨items, rfl⟩ nofun rfl rfl
      · rw [hnode] at hc
        cases hc
        exact (valid_of_leaf ⟨fun _ => rfl, rfl, rfl⟩).mpr (allows_open rfl rfl rfl)
    | _ => cases hw

theorem escape_ident {c : Char} (h : isIdentChar c = true) : Json.escape c = [c] := by
  have hquote : c ≠ '"' := by rintro rfl; exact absurd h (by decide)
  have hslash : c ≠ '\\' := by rintro rfl; exact absurd h (by decide)
  have hcontrol : ¬c.toNat < 0x20 := by
    intro hc
    have hnone : ∀ n < 0x20, isIdentChar (Char.ofNat n) = false := by decide
    rw [← Char.ofNat_toNat c, hnone _ hc] at h
    cases h
  rw [Json.escape, if_neg hquote, if_neg hslash, if_neg hcontrol]

/-- The raw text of the name of an enum value is read as that name. -/
theorem parse_quoted {name : String} (h : ∀ c ∈ name.toList, isIdentChar c = true) :
    Json.parse ("\"" ++ name ++ "\"") = some (.str name) := by
  have hflat : name.toList.flatMap Json.escape = name.toList := by
    rw [List.flatMap_congr fun c hc => escape_ident (h c hc)]
    simp
  have hquote : "\"" ++ name ++ "\"" = String.ofList (Json.quote name) := by
    rw [← String.toList_inj, String.toList_ofList, Json.quote, hflat]
    simp
  rw [hquote]
  exact Json.parse_of_reads (Json.reads_quote _ name)

theorem valid_enum {e : Enum} {s : JSONSchemaProps} {name : String} (hs : s.Like e.schema) (h : name ∈ e.values) :
    Valid (Ptr.view table) (.new s) (.str name) := by
  have hnode : (Ptr.new s).view table = e.schema.node := hs.node_eq
  refine (valid_of_leaf (hnode ▸ ⟨fun _ => rfl, rfl, rfl⟩)).mpr ?_
  rw [hnode]
  refine ⟨fun t ht => ?_, nofun, Or.inr ⟨_, List.mem_map_of_mem h, parse_quoted (e.identifiers name h)⟩⟩
  cases ht
  exact ⟨name, rfl⟩

theorem valid_freeForm {s : JSONSchemaProps} (hs : s.Like freeForm) :
    Valid (Ptr.view table) (.new s) v ↔ ∃ members, v = .obj members := by
  have hnode : (Ptr.new s).view table = freeForm.node := hs.node_eq
  rw [valid_of_leaf (hnode ▸ leaf_freeForm), hnode]
  exact allows_of_type (t := .object) rfl rfl nofun

section Nodes
variable {s : JSONSchemaProps} {items : List Json} {members : List (String × Json)}

theorem valid_list (hs : s.Like { type := some .array, items := some p }) :
    Valid (Ptr.view table) (.new s) (.arr items) ↔ ∀ v ∈ items, Valid (Ptr.view table) p v := by
  have hnode : (Ptr.new s).view table = _ := hs.node_eq
  have hitems : ((Ptr.new s).view table).items = some p := congrArg Node.items hnode
  have hallows : ((Ptr.new s).view table).Allows (.arr items) :=
    hnode ▸ allows_of_not_num (t := .array) ⟨items, rfl⟩ nofun rfl rfl
  simp [valid_arr, hallows, hitems]

theorem valid_map (hs : s.Like { type := some .object, additionalProperties := some p }) :
    Valid (Ptr.view table) (.new s) (.obj members) ↔ ∀ m ∈ members, Valid (Ptr.view table) p m.2 := by
  have hnode : (Ptr.new s).view table = _ := hs.node_eq
  have hchild (key : String) : ((Ptr.new s).view table).child key = some p := congrArg (Node.child · key) hnode
  have hallows : ((Ptr.new s).view table).Allows (.obj members) :=
    hnode ▸ allows_of_not_num (t := .object) ⟨members, rfl⟩ nofun rfl rfl
  simp [valid_obj, hallows, hchild]

theorem valid_fields {preserves : Bool}
    (hs : s.Like { type := some .object, properties := s.properties, xPreserveUnknownFields := preserves }) :
    Valid (Ptr.view table) (.new s) (.obj members) ↔
      ∀ m ∈ members, ∀ q, s.property? m.1 = some q → Valid (Ptr.view table) (.new q) m.2 := by
  have hnode : (Ptr.new s).view table = _ := hs.node_eq
  have hchild (key : String) : ((Ptr.new s).view table).child key = (s.property? key).map .new := by
    have hadd : s.additionalProperties = none := congrArg Node.additionalProperties hnode
    show ((s.property? key).map Ptr.new).or s.additionalProperties = _
    rw [hadd, Option.or_none]
  have hallows : ((Ptr.new s).view table).Allows (.obj members) :=
    hnode ▸ allows_of_not_num (t := .object) ⟨members, rfl⟩ nofun rfl rfl
  simp [valid_obj, hallows, hchild]

end Nodes

theorem not_allows_null {n : Node (Ptr JSONSchemaProps)} {t : DataType} (h : n.type = some t) : ¬n.Allows .null := by
  intro hn
  have := hn.type t h
  cases t <;> simp [DataType.Allows] at this

/-- The only schema that admits null is the one of `Value`. -/
theorem SchemaFor.valid_null {s : JSONSchemaProps} (h : SchemaFor reg D visited pos (.new s)) :
    Valid (Ptr.view table) (.new s) .null ↔ pos = .value (.one (.wellKnown .value)) := by
  have hrejects {t : JSONSchemaProps} {d : DataType} (hs : s.Like t) (ht : t.type = some d)
      (hpos : pos ≠ .value (.one (.wellKnown .value))) :
      Valid (Ptr.view table) (.new s) .null ↔ pos = .value (.one (.wellKnown .value)) :=
    iff_of_false (not_allows_null ((congrArg Node.type hs.node_eq).trans ht)) hpos
  cases h with
  | @scalar _ t _ hs =>
    obtain ⟨d, hd⟩ : ∃ d, t.schema.type = some d := by cases t <;> exact ⟨_, rfl⟩
    exact hrejects hs hd nofun
  | @copied _ w _ hs =>
    cases w with
    | value =>
      refine iff_of_true ?_ rfl
      have hnode : (Ptr.new s).view table = (wellKnownSchemas .value).node := hs.node_eq
      show ((Ptr.new s).view table).Allows .null
      rw [hnode]
      exact allows_open rfl rfl rfl
    | _ => exact hrejects hs rfl nofun
  | enum hs => exact hrejects hs rfl nofun
  | unknown hs => exact hrejects hs rfl nofun
  | cycle _ hs => exact hrejects hs rfl nofun
  | message _ h =>
    cases h with
    | fields hs => exact hrejects hs rfl nofun
  | list _ hs => exact hrejects hs rfl nofun
  | map _ hs => exact hrejects hs rfl nofun
  | fields hs => exact hrejects hs rfl nofun

section Inversion
variable {k : Kind} {items : List Json} {members : List (String × Json)}

theorem expressible_scalar {t : Scalar} : Expressible reg visited (.value (.one (.scalar t))) v ↔ t.Fits v := by
  refine ⟨fun h => ?_, .scalar⟩
  cases h with
  | scalar h => exact h

theorem expressible_wellKnown {w : WellKnown} :
    Expressible reg visited (.value (.one (.wellKnown w))) v ↔ ∀ t, w.wrapped? = some t → t.Fits v := by
  refine ⟨fun h => ?_, .wellKnown⟩
  cases h with
  | wellKnown h => exact h

theorem expressible_unknown : Expressible reg visited (.value (.one .unknown)) v ↔ ∃ members, v = .obj members := by
  constructor
  · intro h
    cases h
    exact ⟨_, rfl⟩
  · rintro ⟨members, rfl⟩
    exact .unknown

theorem expressible_message {msg : Message} (hv : msg.fullName ∉ visited) :
    Expressible reg visited (.value (.one (.message msg))) v ↔
      Expressible reg (visited.insert msg.fullName) (.fields msg) v := by
  refine ⟨fun h => ?_, .message hv⟩
  cases h with
  | cycle hmem => exact absurd hmem hv
  | message _ h => exact h

theorem expressible_list : Expressible reg visited (.value (.list k)) (.arr items) ↔
    ∀ v ∈ items, Expressible reg visited (.value (.one k)) v := by
  refine ⟨fun h => ?_, .list⟩
  cases h with
  | list h => exact h

theorem expressible_map : Expressible reg visited (.value (.map k)) (.obj members) ↔
    ∀ m ∈ members, Expressible reg visited (.value (.one k)) m.2 := by
  refine ⟨fun h => ?_, .map⟩
  cases h with
  | map h => exact h

end Inversion

/-- Of the values that `protojson` reads, a schema admits those that it can express. -/
theorem SchemaFor.valid_iff (hshaped : table.Shaped) (h : SchemaFor reg D visited pos p) (hv : Instance reg pos.type v) :
    Valid (Ptr.view table) p v ↔ Expressible reg visited pos v := by
  induction h generalizing v with
  | @scalar visited t s hs =>
    cases hv with
    | scalar hv =>
      have hnode : (Ptr.new s).view table = t.schema.node := hs.node_eq
      rw [valid_of_leaf (hnode ▸ leaf_scalar t), hnode, allows_scalar hv, expressible_scalar]
  | shared =>
    cases hv with
    | wellKnown hv => rw [valid_wellKnown (hshaped.view_wellKnown _) hv, expressible_wellKnown]
  | copied hs =>
    cases hv with
    | wellKnown hv =>
      have hnode : (Ptr.new _).view table = _ := hs.node_eq
      rw [valid_wellKnown hnode hv, expressible_wellKnown]
  | enum hs =>
    cases hv with
    | enum hv => exact iff_of_true (valid_enum hs hv) .enum
  | unknown hs => rw [valid_freeForm hs, expressible_unknown]
  | cycle hmem hs =>
    cases hv with
    | message => exact iff_of_true ((valid_freeForm hs).mpr ⟨_, rfl⟩) (.cycle hmem)
  | message hmem _ ih => rw [ih hv, expressible_message hmem]
  | list _ hs ih =>
    cases hv with
    | list hv =>
      rw [valid_list hs, expressible_list]
      exact forall₂_congr fun v hmem => ih (hv v hmem)
  | map _ hs ih =>
    cases hv with
    | map hv =>
      rw [valid_map hs, expressible_map]
      exact forall₂_congr fun m hm => ih (hv m hm)
  | @fields _ msg s hs hnames _ hsub ih =>
    cases hv with
    | @message _ members hv =>
      rw [valid_fields hs]
      constructor
      · intro h
        have hprop (m : String × Json) (hm : m ∈ members) (f : Field) (hf : msg.field? m.1 = some f) :
            ∃ q, s.property? m.1 = some q ∧ Valid (Ptr.view table) (.new q) m.2 := by
          obtain ⟨q, hq⟩ := Option.isSome_iff_exists.mp ((hnames m.1).trans (by rw [hf]; rfl))
          exact ⟨q, hq, h m hm q hq⟩
        refine .fields (fun m hm f hf hnull => ?_) fun m hm f hf hne => ?_
        · obtain ⟨q, hq, hvalid⟩ := hprop m hm f hf
          rw [hnull] at hvalid
          exact Position.value.inj ((hsub m.1 f q hf hq).valid_null.mp hvalid)
        · obtain ⟨q, hq, hvalid⟩ := hprop m hm f hf
          exact (ih m.1 f q hf hq (hv m hm f hf hne)).mp hvalid
      · intro h m hm q hq
        obtain ⟨f, hf⟩ := Option.isSome_iff_exists.mp ((hnames m.1).symm.trans (by rw [hq]; rfl))
        cases h with
        | fields hnull h =>
          by_cases hne : m.2 = .null
          · rw [hne, (hsub m.1 f q hf hq).valid_null, hnull m hm f hf hne]
          · exact (ih m.1 f q hf hq (hv m hm f hf hne)).mpr (h m hm f hf hne)

end Admission

/-- Whatever was converted before: of the specs that `protojson` reads as the message, its schema admits
    exactly those that it can express. -/
theorem specs_admitted_iff (reg : Registry) (msg : Message) {table : Table} (hshaped : table.Shaped) {v : Json}
    (hv : Instance reg (.one (.message msg)) v) :
    ∃ s table', (∀ fuel, reg.messages.items.length < fuel → messageToSchema fuel msg reg table = some (s, table')) ∧
      (Valid (Ptr.view table') (.new s) v ↔ Expressible reg [] (.fields msg) v) := by
  obtain ⟨s, table', hrun, hshaped', hs⟩ := messageToSchema_total reg msg hshaped
  exact ⟨s, table', hrun, hs.valid_iff hshaped' hv⟩

namespace Sample

/-- Circuit breakers, as in `envoy.config.cluster.v3.CircuitBreakers.Thresholds`. -/
def thresholds : Message where
  fullName := "mesh.v1.Thresholds"
  name := "Thresholds"
  package := "mesh.v1"
  fields := [⟨"max_connections", "google.protobuf.UInt32Value", false, "", "", ""⟩]

def breakers : Registry := ⟨Store.empty.put thresholds, .empty⟩

def limit (literal : String) : Json := .obj [("max_connections", .num literal)]

theorem field?_thresholds {name : String} {f : Field} (h : thresholds.field? name = some f) :
    f.fieldType breakers thresholds = .one (.wellKnown .uint32Value) := by
  obtain ⟨hf, -⟩ := Index.name_of_byName h
  obtain rfl := List.mem_singleton.mp hf
  decide +kernel

theorem instance_limit {literal : String} {n : Int} (h : Json.integer? literal = some n) (hn : 0 ≤ n ∧ n ≤ 4294967295) :
    Instance breakers (.one (.message thresholds)) (limit literal) := by
  refine .message fun m hm f hf _ => ?_
  rw [List.mem_singleton.mp hm, field?_thresholds hf]
  exact .wellKnown ⟨.uint32, rfl, literal, n, _, _, rfl, h, rfl, hn⟩

end Sample

theorem specs_admitted_limit : Instance Sample.breakers (.one (.message Sample.thresholds)) (Sample.limit "1024") ∧
    ∃ s table', (∀ fuel, 1 < fuel →
        messageToSchema fuel Sample.thresholds Sample.breakers wellKnownSchemas = some (s, table')) ∧
      (Valid (Ptr.view table') (.new s) (Sample.limit "1024") ↔
        Expressible Sample.breakers [] (.fields Sample.thresholds) (Sample.limit "1024")) := by
  have hv : Instance Sample.breakers (.one (.message Sample.thresholds)) (Sample.limit "1024") :=
    Sample.instance_limit (n := 1024) (by decide +kernel) (by decide)
  exact ⟨hv, specs_admitted_iff _ _ shaped_wellKnownSchemas hv⟩

/-- An unlimited circuit breaker is not admitted. -/
theorem unlimited_not_admitted : ¬∀ (reg : Registry) (msg : Message) (v : Json), Instance reg (.one (.message msg)) v →
    ∃ s table', (∀ fuel, reg.messages.items.length < fuel →
      messageToSchema fuel msg reg wellKnownSchemas = some (s, table')) ∧ Valid (Ptr.view table') (.new s) v := by
  intro h
  have hliteral : Json.integer? "4294967295" = some 4294967295 := by decide +kernel
  have hv := Sample.instance_limit hliteral (by decide)
  obtain ⟨s, table', hrun, hvalid⟩ := h _ _ _ hv
  obtain ⟨s', table'', hrun', hshaped, hs⟩ := messageToSchema_total Sample.breakers Sample.thresholds
    shaped_wellKnownSchemas
  cases (hrun 2 (by decide)).symm.trans (hrun' 2 (by decide))
  cases (hs.valid_iff hshaped hv).mp hvalid with
  | fields _ hmembers =>
    have hfield : Sample.thresholds.field? "max_connections" =
        some ⟨"max_connections", "google.protobuf.UInt32Value", false, "", "", ""⟩ := by decide +kernel
    have hexp := hmembers _ List.mem_cons_self _ hfield nofun
    rw [Sample.field?_thresholds hfield] at hexp
    cases hexp with
    | wellKnown hfits => exact absurd (hfits .uint32 rfl _ _ rfl hliteral) (by decide)

end EnvoyMesh.CrdGen
