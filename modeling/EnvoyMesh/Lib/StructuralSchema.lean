import EnvoyMesh.Lib.Json
import Mathlib.Logic.Relation

/-! # Structural schemas

Schemas as the Kubernetes API server applies them to the objects it stores: it prunes what a schema does
not specify, and admits what a schema allows. A schema is anything that can be looked at node by node, so
the same rules serve schemas that share nodes. The server takes schemas only whose nodes are structural. -/

namespace Structural

inductive DataType where
  | object | array | string | boolean | integer | number
  deriving DecidableEq

inductive Format where
  | byte | int32 | int64 | float | double | dateTime
  deriving DecidableEq

/-- What a schema says at one node. `σ` is the type of the schemas below it. -/
structure Node (σ : Type) where
  type : Option DataType
  format : Option Format
  /-- The allowed values as JSON texts; all values if there are none. -/
  enum : List String
  property : String → Option σ
  items : Option σ
  additionalProperties : Option σ
  preserveUnknownFields : Bool

namespace Node
variable {σ : Type}

/-- The schema for the value of a key. -/
def child (n : Node σ) (key : String) : Option σ := (n.property key).or n.additionalProperties

/-- Nothing is said about what is below the node. -/
structure Leaf (n : Node σ) : Prop where
  property : ∀ key, n.property key = none
  items : n.items = none
  additionalProperties : n.additionalProperties = none

end Node

/-- The literal counts as the integer `n`. The server reads a literal without fraction and exponent as an int64 and any
    other one as a float64, which counts as an integer up to 2^53 - 1. -/
def AsInteger (literal : String) (n : Int) : Prop :=
  Json.integer? literal = some n ∧
    if Json.isPlain literal then -9223372036854775808 ≤ n ∧ n ≤ 9223372036854775807
    else -9007199254740991 ≤ n ∧ n ≤ 9007199254740991

def DataType.Allows : DataType → Json → Prop
  | .object, v => ∃ members, v = .obj members
  | .array, v => ∃ items, v = .arr items
  | .string, v => ∃ s, v = .str s
  | .boolean, v => ∃ b, v = .bool b
  | .number, v => ∃ literal, v = .num literal
  | .integer, v => ∃ literal n, v = .num literal ∧ AsInteger literal n

def Format.range : Format → Int → Prop
  | .int32, n => -2147483648 ≤ n ∧ n ≤ 2147483647
  | .int64, n => -9223372036854775808 ≤ n ∧ n ≤ 9223372036854775807
  | _, _ => True

/-- The checks of a node on the value itself: its type, the range of an integer, and enumerated values. -/
structure Node.Allows {σ : Type} (n : Node σ) (v : Json) : Prop where
  type : ∀ t, n.type = some t → t.Allows v
  format : ∀ f literal i, n.format = some f → v = .num literal → Json.integer? literal = some i → f.range i
  enum : n.enum = [] ∨ ∃ text ∈ n.enum, Json.parse text = some v

section Rules
variable {σ : Type} (view : σ → Node σ)

def preserves (s : Option σ) : Bool := s.any fun s => (view s).preserveUnknownFields

def childOf (s : Option σ) (key : String) : Option σ := s.bind fun s => (view s).child key

def itemsOf (s : Option σ) : Option σ := s.bind fun s => (view s).items

mutual
/-- Pruning below a node. `keep` says that unknown fields stay; in an array below such a node they stay in
    the elements too. -/
def pruneBelow (keep : Bool) (s : Option σ) : Json → Json
  | .obj members => .obj (pruneMembers keep s members)
  | .arr items => .arr (pruneItems (keep || preserves view (itemsOf view s)) (itemsOf view s) items)
  | v => v
def pruneMembers (keep : Bool) (s : Option σ) : List (String × Json) → List (String × Json)
  | [] => []
  | (key, v) :: members =>
    match childOf view s key with
    | some c => (key, pruneBelow (view c).preserveUnknownFields (some c) v) :: pruneMembers keep s members
    | none => if keep then (key, v) :: pruneMembers keep s members else pruneMembers keep s members
def pruneItems (keep : Bool) (s : Option σ) : List Json → List Json
  | [] => []
  | v :: items => pruneBelow keep s v :: pruneItems keep s items
end

/-- What is left of a value when the fields that the schema does not specify are dropped. -/
def prune (s : σ) (v : Json) : Json := pruneBelow view (view s).preserveUnknownFields (some s) v

mutual
/-- The value is valid: each node allows the part of it that it is for. -/
def Valid (s : σ) : Json → Prop
  | .obj members => (view s).Allows (.obj members) ∧ ValidMembers s members
  | .arr items => (view s).Allows (.arr items) ∧ ValidItems s items
  | v => (view s).Allows v
def ValidMembers (s : σ) : List (String × Json) → Prop
  | [] => True
  | (key, v) :: members =>
    (match (view s).child key with
      | some c => Valid c v
      | none => True) ∧ ValidMembers s members
def ValidItems (s : σ) : List Json → Prop
  | [] => True
  | v :: items =>
    (match (view s).items with
      | some c => Valid c v
      | none => True) ∧ ValidItems s items
end

variable {view} {s : σ} {members : List (String × Json)} {items : List Json} {v : Json}

/-! ### Pruning -/

mutual
theorem pruneBelow_none : (v : Json) → pruneBelow view true none v = v
  | .null | .bool _ | .num _ | .str _ => rfl
  | .obj members => congrArg Json.obj (pruneMembers_none members)
  | .arr items => congrArg Json.arr (pruneItems_none items)
theorem pruneMembers_none : (members : List (String × Json)) → pruneMembers view true none members = members
  | [] => rfl
  | (key, v) :: members => congrArg ((key, v) :: ·) (pruneMembers_none members)
theorem pruneItems_none : (items : List Json) → pruneItems view true none items = items
  | [] => rfl
  | v :: items => congrArg₂ List.cons (pruneBelow_none v) (pruneItems_none items)
end

theorem prune_of_leaf (h : (view s).Leaf) (hkeep : (view s).preserveUnknownFields = true) : prune view s v = v := by
  have hchild (key : String) : childOf view (some s) key = none := by
    simp [childOf, Node.child, h.property, h.additionalProperties]
  have hmembers : ∀ members, pruneMembers view true (some s) members = members := by
    intro members
    induction members with
    | nil => rfl
    | cons m members ih => rw [pruneMembers, hchild, ih, if_pos rfl]
  rw [prune, hkeep]
  cases v with
  | obj members => rw [pruneBelow, hmembers]
  | arr items =>
    have hitems : itemsOf view (some s) = none := h.items
    rw [pruneBelow, hitems, Bool.true_or, pruneItems_none]
  | _ => rfl

theorem prune_obj (h : ∀ m ∈ members, ∃ c, (view s).child m.1 = some c ∧ prune view c m.2 = m.2) :
    prune view s (.obj members) = .obj members := by
  rw [prune, pruneBelow]
  congr 1
  induction members with
  | nil => rfl
  | cons m members ih =>
    obtain ⟨c, hc, hm⟩ := h m List.mem_cons_self
    have hchild : childOf view (some s) m.1 = some c := hc
    rw [pruneMembers, hchild, ih fun m' hm' => h m' (List.mem_cons_of_mem _ hm')]
    exact congrArg (fun v => (m.1, v) :: members) hm

theorem prune_arr {c : σ} (hkeep : (view s).preserveUnknownFields = false) (hc : (view s).items = some c)
    (h : ∀ v ∈ items, prune view c v = v) : prune view s (.arr items) = .arr items := by
  have hitems : itemsOf view (some s) = some c := hc
  rw [prune, pruneBelow, hitems, hkeep, Bool.false_or]
  congr 1
  induction items with
  | nil => rfl
  | cons v items ih =>
    rw [pruneItems, ih fun v' hv' => h v' (List.mem_cons_of_mem _ hv')]
    exact congrArg (· :: items) (h v List.mem_cons_self)

/-! ### Validity -/

theorem valid_obj : Valid view s (.obj members) ↔
    (view s).Allows (.obj members) ∧ ∀ m ∈ members, ∀ c, (view s).child m.1 = some c → Valid view c m.2 := by
  rw [Valid]
  refine and_congr Iff.rfl ?_
  induction members with
  | nil => simp [ValidMembers]
  | cons m members ih =>
    rw [ValidMembers, ih, List.forall_mem_cons]
    refine and_congr_left fun _ => ?_
    cases (view s).child m.1 <;> simp

theorem valid_arr : Valid view s (.arr items) ↔
    (view s).Allows (.arr items) ∧ ∀ v ∈ items, ∀ c, (view s).items = some c → Valid view c v := by
  rw [Valid]
  refine and_congr Iff.rfl ?_
  induction items with
  | nil => simp [ValidItems]
  | cons v items ih =>
    rw [ValidItems, ih, List.forall_mem_cons]
    refine and_congr_left fun _ => ?_
    cases (view s).items <;> simp

theorem Valid.allows (h : Valid view s v) : (view s).Allows v := by
  cases v with
  | obj members => exact (valid_obj.mp h).1
  | arr items => exact (valid_arr.mp h).1
  | _ => exact h

theorem valid_of_leaf (h : (view s).Leaf) : Valid view s v ↔ (view s).Allows v := by
  refine ⟨Valid.allows, fun ha => ?_⟩
  cases v with
  | obj members =>
    refine valid_obj.mpr ⟨ha, fun m _ c hc => ?_⟩
    rw [Node.child, h.property, h.additionalProperties] at hc
    cases hc
  | arr items =>
    refine valid_arr.mpr ⟨ha, fun v _ c hc => ?_⟩
    rw [h.items] at hc
    cases hc
  | _ => exact ha

/-! ### What a value is checked against -/

variable (view) in
/-- In the validation of a value against a schema, a part of the value is checked against a part of the schema. -/
inductive Meets : σ → Json → σ → Json → Prop where
  | here (s : σ) (v : Json) : Meets s v s v
  | member {s c t : σ} {members : List (String × Json)} {m : String × Json} {w : Json} (hm : m ∈ members)
      (hc : (view s).child m.1 = some c) (h : Meets c m.2 t w) : Meets s (.obj members) t w
  | item {s c t : σ} {items : List Json} {v w : Json} (hv : v ∈ items) (hc : (view s).items = some c)
      (h : Meets c v t w) : Meets s (.arr items) t w

theorem Meets.of_leaf {t : σ} {w : Json} (hleaf : (view s).Leaf) (h : Meets view s v t w) : t = s ∧ w = v := by
  cases h with
  | here => exact ⟨rfl, rfl⟩
  | member _ hc =>
    rw [Node.child, hleaf.property, hleaf.additionalProperties] at hc
    cases hc
  | item _ hc =>
    rw [hleaf.items] at hc
    cases hc

/-! ### Structural nodes -/

/-- The schema is one of those right below the node. -/
def Node.Part (n : Node σ) (c : σ) : Prop :=
  (∃ key, n.property key = some c) ∨ n.items = some c ∨ n.additionalProperties = some c

/-- What the server asks of a single node. -/
structure Node.IsStructural (n : Node σ) : Prop where
  typed : n.type.isSome ∨ n.preserveUnknownFields = true
  items : n.type = some .array → n.items.isSome
  exclusive : ∀ key, (n.property key).isSome → n.additionalProperties = none
  enum : n.enum ≠ [] → n.type = some .string

variable (view) in
/-- Every node of the schema is structural, at any depth. -/
def IsStructural (s : σ) : Prop :=
  ∀ t, Relation.ReflTransGen (fun s c => (view s).Part c) s t → (view t).IsStructural

theorem isStructural_of_parts (h : (view s).IsStructural) (hparts : ∀ c, (view s).Part c → IsStructural view c) :
    IsStructural view s := by
  intro t ht
  rcases ht.cases_head with rfl | ⟨c, hc, hct⟩
  · exact h
  · exact hparts c hc t hct

theorem IsStructural.part {c : σ} (h : IsStructural view s) (hc : (view s).Part c) : IsStructural view c :=
  fun t ht => h t (.head hc ht)

theorem isStructural_of_view_eq {t : σ} (h : view s = view t) (ht : IsStructural view t) : IsStructural view s :=
  isStructural_of_parts (h ▸ ht t .refl) fun _ hc => ht.part (h ▸ hc)

theorem isStructural_of_leaf (hleaf : (view s).Leaf) (h : (view s).IsStructural) : IsStructural view s := by
  refine isStructural_of_parts h fun c hc => ?_
  rcases hc with ⟨key, hc⟩ | hc | hc
  · rw [hleaf.property] at hc
    cases hc
  · rw [hleaf.items] at hc
    cases hc
  · rw [hleaf.additionalProperties] at hc
    cases hc

end Rules

/-! ### Schemas that act alike -/

/-- The nodes say the same, and the schemas below them are related. -/
structure Node.Alike {σ τ : Type} (R : σ → τ → Prop) (n : Node σ) (m : Node τ) : Prop where
  type : n.type = m.type
  format : n.format = m.format
  enum : n.enum = m.enum
  property : ∀ key, Option.Rel R (n.property key) (m.property key)
  items : Option.Rel R n.items m.items
  additionalProperties : Option.Rel R n.additionalProperties m.additionalProperties
  preserveUnknownFields : n.preserveUnknownFields = m.preserveUnknownFields

/-- Related schemas say the same, node by node. -/
def Bisimulation {σ τ : Type} (view : σ → Node σ) (view' : τ → Node τ) (R : σ → τ → Prop) : Prop :=
  ∀ s t, R s t → (view s).Alike R (view' t)

section Bisimulation
variable {σ τ : Type} {view : σ → Node σ} {view' : τ → Node τ} {R : σ → τ → Prop} {n : Node σ} {m : Node τ}
variable {s : σ} {t : τ} {o : Option σ} {o' : Option τ}

theorem Node.Alike.child (h : n.Alike R m) (key : String) : Option.Rel R (n.child key) (m.child key) := by
  unfold Node.child
  have hproperty := h.property key
  generalize n.property key = c at hproperty
  generalize m.property key = c' at hproperty
  cases hproperty with
  | some hR => exact .some hR
  | none => exact h.additionalProperties

theorem rel_symm {r : σ → τ → Prop} (h : Option.Rel r o o') : Option.Rel (fun b a => r a b) o' o := by
  cases h with
  | none => exact .none
  | some h => exact .some h

theorem exists_of_rel {r : σ → τ → Prop} {a : σ} (h : Option.Rel r (some a) o') : ∃ b, o' = some b ∧ r a b := by
  cases h with
  | some h => exact ⟨_, rfl, h⟩

theorem Node.Alike.symm (h : n.Alike R m) : m.Alike (fun b a => R a b) n :=
  ⟨h.type.symm, h.format.symm, h.enum.symm, fun key => rel_symm (h.property key), rel_symm h.items,
    rel_symm h.additionalProperties, h.preserveUnknownFields.symm⟩

theorem Bisimulation.symm (hR : Bisimulation view view' R) : Bisimulation view' view fun b a => R a b :=
  fun _ _ h => (hR _ _ h).symm

theorem Node.Alike.allows (h : n.Alike R m) (v : Json) : n.Allows v ↔ m.Allows v := by
  constructor
  · rintro ⟨htype, hformat, henum⟩
    exact ⟨h.type ▸ htype, h.format ▸ hformat, h.enum ▸ henum⟩
  · rintro ⟨htype, hformat, henum⟩
    exact ⟨h.type ▸ htype, h.format ▸ hformat, h.enum ▸ henum⟩

theorem Bisimulation.preserves (hR : Bisimulation view view' R) (h : Option.Rel R o o') :
    preserves view o = preserves view' o' := by
  cases h with
  | none => rfl
  | some h => exact (hR _ _ h).preserveUnknownFields

theorem Bisimulation.childOf (hR : Bisimulation view view' R) (h : Option.Rel R o o') (key : String) :
    Option.Rel R (childOf view o key) (childOf view' o' key) := by
  cases h with
  | none => exact .none
  | some h => exact (hR _ _ h).child key

theorem Bisimulation.itemsOf (hR : Bisimulation view view' R) (h : Option.Rel R o o') :
    Option.Rel R (itemsOf view o) (itemsOf view' o') := by
  cases h with
  | none => exact .none
  | some h => exact (hR _ _ h).items

mutual
theorem pruneBelow_congr (hR : Bisimulation view view' R) (keep : Bool) {o : Option σ} {o' : Option τ}
    (h : Option.Rel R o o') :
    (v : Json) → pruneBelow view keep o v = pruneBelow view' keep o' v
  | .null | .bool _ | .num _ | .str _ => rfl
  | .obj members => congrArg Json.obj (pruneMembers_congr hR keep h members)
  | .arr items => by
    rw [pruneBelow, pruneBelow, hR.preserves (hR.itemsOf h)]
    exact congrArg Json.arr (pruneItems_congr hR _ (hR.itemsOf h) items)
theorem pruneMembers_congr (hR : Bisimulation view view' R) (keep : Bool) {o : Option σ} {o' : Option τ}
    (h : Option.Rel R o o') :
    (members : List (String × Json)) → pruneMembers view keep o members = pruneMembers view' keep o' members
  | [] => rfl
  | (key, v) :: members => by
    have hchild := hR.childOf h key
    rw [pruneMembers, pruneMembers, pruneMembers_congr hR keep h members]
    generalize childOf view o key = c at hchild
    generalize childOf view' o' key = c' at hchild
    cases hchild with
    | none => rfl
    | @some c c' hc =>
      simp only [(hR _ _ hc).preserveUnknownFields, pruneBelow_congr hR (view' c').preserveUnknownFields (.some hc) v]
theorem pruneItems_congr (hR : Bisimulation view view' R) (keep : Bool) {o : Option σ} {o' : Option τ}
    (h : Option.Rel R o o') :
    (items : List Json) → pruneItems view keep o items = pruneItems view' keep o' items
  | [] => rfl
  | v :: items => congrArg₂ List.cons (pruneBelow_congr hR keep h v) (pruneItems_congr hR keep h items)
end

/-- Related schemas prune alike. -/
theorem Bisimulation.prune (hR : Bisimulation view view' R) (h : R s t) (v : Json) : prune view s v = prune view' t v := by
  rw [Structural.prune, Structural.prune, (hR s t h).preserveUnknownFields]
  exact pruneBelow_congr hR _ (.some h) v

mutual
/-- Related schemas admit alike. -/
theorem Bisimulation.valid (hR : Bisimulation view view' R) {s : σ} {t : τ} (h : R s t) :
    (v : Json) → (Valid view s v ↔ Valid view' t v)
  | .null | .bool _ | .num _ | .str _ => (hR s t h).allows _
  | .obj members => and_congr ((hR s t h).allows _) (validMembers_congr hR h members)
  | .arr items => and_congr ((hR s t h).allows _) (validItems_congr hR h items)
theorem validMembers_congr (hR : Bisimulation view view' R) {s : σ} {t : τ} (h : R s t) :
    (members : List (String × Json)) → (ValidMembers view s members ↔ ValidMembers view' t members)
  | [] => Iff.rfl
  | (key, v) :: members => by
    have hchild := (hR s t h).child key
    rw [ValidMembers, ValidMembers, validMembers_congr hR h members]
    refine and_congr_left fun _ => ?_
    generalize (view s).child key = c at hchild
    generalize (view' t).child key = c' at hchild
    cases hchild with
    | none => exact Iff.rfl
    | some hc => exact hR.valid hc v
theorem validItems_congr (hR : Bisimulation view view' R) {s : σ} {t : τ} (h : R s t) :
    (items : List Json) → (ValidItems view s items ↔ ValidItems view' t items)
  | [] => Iff.rfl
  | v :: items => by
    have hitems := (hR s t h).items
    rw [ValidItems, ValidItems, validItems_congr hR h items]
    refine and_congr_left fun _ => ?_
    generalize (view s).items = c at hitems
    generalize (view' t).items = c' at hitems
    cases hitems with
    | none => exact Iff.rfl
    | some hc => exact hR.valid hc v
end

/-- What a value is checked against in the one schema, it is checked against something related in the other. -/
theorem Bisimulation.meets (hR : Bisimulation view view' R) {s' : σ} {v w : Json} (h : R s t) (hm : Meets view s v s' w) :
    ∃ t', R s' t' ∧ Meets view' t v t' w := by
  induction hm generalizing t with
  | here s v => exact ⟨t, h, .here t v⟩
  | @member s c s' members m w hmem hc _ ih =>
    obtain ⟨c', hchild, hc'⟩ := exists_of_rel (hc ▸ (hR s t h).child m.1)
    obtain ⟨t', ht', hmeets⟩ := ih hc'
    exact ⟨t', ht', .member hmem hchild hmeets⟩
  | @item s c s' items v w hmem hc _ ih =>
    obtain ⟨c', hitems, hc'⟩ := exists_of_rel (hc ▸ (hR s t h).items)
    obtain ⟨t', ht', hmeets⟩ := ih hc'
    exact ⟨t', ht', .item hmem hitems hmeets⟩

end Bisimulation

end Structural
