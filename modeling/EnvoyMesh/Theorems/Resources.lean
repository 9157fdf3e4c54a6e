import EnvoyMesh.Resource
import EnvoyMesh.Theorems.Manifests

/-! # What the API server makes of a resource

It checks and prunes the documents of custom resources by the schema of the manifest: by that of `spec`, which is generated
from the message, and by those of the references next to it. -/

namespace EnvoyMesh.CrdGen
open Structural GoStruct

/-! ### Admission -/

/-- The API server admits the value: it is valid, the required members are there and integers are within the bounds. -/
structure Admits (table : Table) (p : Ptr JSONSchemaProps) (v : Json) : Prop where
  valid : Valid (Ptr.view table) p v
  required : ∀ t members, Meets (Ptr.view table) p v t (.obj members) →
    ∀ key ∈ (t.get table).required, ∃ m ∈ members, m.1 = key
  bounds : ∀ t literal n, Meets (Ptr.view table) p v t (.num literal) → Json.integer? literal = some n →
    (∀ lo, (t.get table).minimum = some lo → lo ≤ n) ∧ ∀ hi, (t.get table).maximum = some hi → n ≤ hi

/-- The nodes ask for the same members and set the same bounds. -/
structure JSONSchemaProps.SameConstraints (s t : JSONSchemaProps) : Prop where
  required : s.required = t.required
  minimum : s.minimum = t.minimum
  maximum : s.maximum = t.maximum

/-- The node asks for no member and sets no bounds. -/
abbrev JSONSchemaProps.Unconstrained (s : JSONSchemaProps) : Prop := s.SameConstraints {}

section Admission
variable {table table' : Table} {s t u : JSONSchemaProps} {p p' : Ptr JSONSchemaProps} {v : Json}

theorem JSONSchemaProps.SameConstraints.symm (h : s.SameConstraints t) : t.SameConstraints s :=
  ⟨h.required.symm, h.minimum.symm, h.maximum.symm⟩

theorem JSONSchemaProps.SameConstraints.trans (h : s.SameConstraints t) (h' : t.SameConstraints u) : s.SameConstraints u :=
  ⟨h.required.trans h'.required, h.minimum.trans h'.minimum, h.maximum.trans h'.maximum⟩

theorem JSONSchemaProps.Like.sameConstraints (h : s.Like t) : s.SameConstraints t := by
  have h : ({ s with description := "" } : JSONSchemaProps) = { t with description := "" } := h
  exact ⟨(congrArg JSONSchemaProps.required h :), (congrArg JSONSchemaProps.minimum h :),
    (congrArg JSONSchemaProps.maximum h :)⟩

/-- Schemas that act alike and have the same constraints at related nodes admit the same values. -/
theorem Admits.of_bisimulation {R : Ptr JSONSchemaProps → Ptr JSONSchemaProps → Prop}
    (hR : Bisimulation (Ptr.view table) (Ptr.view table') R)
    (hsame : ∀ q q', R q q' → (q.get table).SameConstraints (q'.get table')) (h : R p p') (hv : Admits table p v) :
    Admits table' p' v where
  valid := (hR.valid h v).mp hv.valid
  required t' members hmeets := by
    obtain ⟨t, ht, hmeets⟩ := hR.symm.meets h hmeets
    exact (hsame t t' ht).required ▸ hv.required t members hmeets
  bounds t' literal n hmeets hn := by
    obtain ⟨t, ht, hmeets⟩ := hR.symm.meets h hmeets
    rw [← (hsame t t' ht).minimum, ← (hsame t t' ht).maximum]
    exact hv.bounds t literal n hmeets hn

theorem unconstrained_wellKnown (w : WellKnown) : (wellKnownSchemas w).Unconstrained := by
  cases w <;> exact ⟨rfl, rfl, rfl⟩

theorem unconstrained_of_leaf {q : Ptr JSONSchemaProps} {w : Json} (h : Meets (Ptr.view table) p v q w)
    (hleaf : (p.view table).Leaf) (hp : (p.get table).Unconstrained) : (q.get table).Unconstrained := by
  obtain ⟨rfl, -⟩ := h.of_leaf hleaf
  exact hp

theorem unconstrained_of_wellKnown {w : WellKnown} {q : Ptr JSONSchemaProps} {x : Json}
    (h : Meets (Ptr.view table) p v q x) (hlike : (p.get table).Like (wellKnownSchemas w)) :
    (q.get table).Unconstrained := by
  have hnode : p.view table = (wellKnownSchemas w).node := hlike.node_eq
  have hp := hlike.sameConstraints.trans (unconstrained_wellKnown w)
  by_cases hw : w = .listValue
  · subst hw
    cases h with
    | here => exact hp
    | member _ hc =>
      rw [hnode] at hc
      cases hc
    | item _ hc h =>
      rw [hnode] at hc
      cases hc
      exact unconstrained_of_leaf h ⟨fun _ => rfl, rfl, rfl⟩ ⟨rfl, rfl, rfl⟩
  · exact unconstrained_of_leaf h (hnode ▸ leaf_wellKnown hw) hp

/-- The schemas of messages have no constraints of this kind. -/
theorem SchemaFor.unconstrained {reg : Registry} {D : Field → String → Prop} {visited : Visited} {pos : Position}
    {q : Ptr JSONSchemaProps} {w : Json} (hshaped : table.Shaped) (h : SchemaFor reg D visited pos p)
    (hmeets : Meets (Ptr.view table) p v q w) : (q.get table).Unconstrained := by
  induction h generalizing v q w with
  | @scalar _ t s hs =>
    have hnode : (Ptr.new s).view table = t.schema.node := hs.node_eq
    refine unconstrained_of_leaf hmeets (hnode ▸ leaf_scalar t) (hs.sameConstraints.trans ?_)
    cases t <;> exact ⟨rfl, rfl, rfl⟩
  | shared => exact unconstrained_of_wellKnown hmeets (hshaped _)
  | copied hs => exact unconstrained_of_wellKnown hmeets hs
  | enum hs =>
    have hnode : (Ptr.new _).view table = _ := hs.node_eq
    exact unconstrained_of_leaf hmeets (hnode ▸ ⟨fun _ => rfl, rfl, rfl⟩) (hs.sameConstraints.trans ⟨rfl, rfl, rfl⟩)
  | unknown hs | cycle _ hs =>
    have hnode : (Ptr.new _).view table = freeForm.node := hs.node_eq
    exact unconstrained_of_leaf hmeets (hnode ▸ leaf_freeForm) (hs.sameConstraints.trans ⟨rfl, rfl, rfl⟩)
  | message _ _ ih => exact ih hmeets
  | list _ hs ih =>
    have hnode : (Ptr.new _).view table = _ := hs.node_eq
    cases hmeets with
    | here => exact hs.sameConstraints.trans ⟨rfl, rfl, rfl⟩
    | member _ hc =>
      rw [hnode] at hc
      cases hc
    | item _ hc h =>
      rw [hnode] at hc
      cases hc
      exact ih h
  | map _ hs ih =>
    have hnode : (Ptr.new _).view table = _ := hs.node_eq
    cases hmeets with
    | here => exact hs.sameConstraints.trans ⟨rfl, rfl, rfl⟩
    | member _ hc h =>
      rw [hnode] at hc
      cases hc
      exact ih h
    | item _ hc =>
      rw [hnode] at hc
      cases hc
  | @fields _ msg s hs hnames _ _ ih =>
    have hnode : (Ptr.new s).view table = _ := hs.node_eq
    cases hmeets with
    | here => exact hs.sameConstraints.trans ⟨rfl, rfl, rfl⟩
    | @member _ c _ _ m _ _ hc h =>
      have hchild : (s.property? m.1).map Ptr.new = some c := by
        rw [hnode, Node.child] at hc
        exact (Option.or_none ..).symm.trans hc
      obtain ⟨q, hq, rfl⟩ := Option.map_eq_some_iff.mp hchild
      obtain ⟨f, hf⟩ := Option.isSome_iff_exists.mp ((hnames m.1).symm.trans (by rw [hq]; rfl))
      exact ih m.1 f q hf hq h
    | item _ hc =>
      rw [hnode] at hc
      cases hc

theorem SchemaFor.admits {reg : Registry} {D : Field → String → Prop} {visited : Visited} {pos : Position}
    (hshaped : table.Shaped) (h : SchemaFor reg D visited pos p) (hv : Valid (Ptr.view table) p v) : Admits table p v where
  valid := hv
  required t members hmeets key hkey := by
    rw [(h.unconstrained hshaped hmeets).required] at hkey
    cases hkey
  bounds t literal n hmeets _ := by
    have ht := h.unconstrained hshaped hmeets
    rw [ht.minimum, ht.maximum]
    exact ⟨nofun, nofun⟩

theorem admits_obj {members : List (String × Json)} : Admits table p (.obj members) ↔
    (p.view table).Allows (.obj members) ∧ (∀ key ∈ (p.get table).required, ∃ m ∈ members, m.1 = key) ∧
      ∀ m ∈ members, ∀ c, (p.view table).child m.1 = some c → Admits table c m.2 := by
  constructor
  · intro h
    obtain ⟨hallows, hparts⟩ := valid_obj.mp h.valid
    refine ⟨hallows, h.required _ _ (.here _ _), fun m hm c hc => ⟨hparts m hm c hc, ?_, ?_⟩⟩
    · exact fun t members hmeets => h.required t members (.member hm hc hmeets)
    · exact fun t literal n hmeets => h.bounds t literal n (.member hm hc hmeets)
  · rintro ⟨hallows, hrequired, hparts⟩
    refine ⟨valid_obj.mpr ⟨hallows, fun m hm c hc => (hparts m hm c hc).valid⟩, ?_, ?_⟩
    · intro t members hmeets
      cases hmeets with
      | here => exact hrequired
      | member hm hc h => exact (hparts _ hm _ hc).required t members h
    · intro t literal n hmeets
      cases hmeets with
      | member hm hc h => exact (hparts _ hm _ hc).bounds t literal n h

theorem admits_string (htype : s.type = some .string) (henum : s.enum = []) (hleaf : s.node.Leaf) :
    Admits table (.new s) v ↔ ∃ text, v = .str text := by
  constructor
  · intro h
    exact h.valid.allows.type .string htype
  · rintro ⟨text, rfl⟩
    refine ⟨(valid_of_leaf hleaf).mpr (allows_of_not_num (t := .string) ⟨text, rfl⟩ nofun htype henum), ?_, ?_⟩
    · intro t members hmeets
      cases (hmeets.of_leaf hleaf).2
    · intro t literal n hmeets
      cases (hmeets.of_leaf hleaf).2

/-- A schema for objects that lists their properties. -/
structure IsObject (s : JSONSchemaProps) : Prop where
  type : s.type = some .object
  enum : s.enum = []
  additionalProperties : s.additionalProperties = none
  names : (s.properties.map Prod.fst).Nodup

namespace IsObject

theorem child (hs : IsObject s) (key : String) : ((Ptr.new s).view table).child key = (s.property? key).map .new := by
  change ((s.property? key).map Ptr.new).or s.additionalProperties = _
  rw [hs.additionalProperties, Option.or_none]

theorem property?_eq_some (hs : IsObject s) {key : String} {q : JSONSchemaProps} :
    s.property? key = some q ↔ (key, q) ∈ s.properties := by
  constructor
  · intro h
    obtain ⟨m, hm, rfl⟩ := Option.map_eq_some_iff.mp h
    have hkey : m.1 = key := by simpa using List.find?_some hm
    exact hkey ▸ List.mem_of_find?_eq_some hm
  · intro h
    have hsome : (s.properties.find? fun m => m.1 = key).isSome := by
      rw [List.find?_isSome]
      exact ⟨_, h, by simp⟩
    obtain ⟨m, hm⟩ := Option.isSome_iff_exists.mp hsome
    have hkey : m.1 = key := by simpa using List.find?_some hm
    have heq := List.inj_on_of_nodup_map hs.names (List.mem_of_find?_eq_some hm) h hkey
    rw [JSONSchemaProps.property?, hm, heq]
    rfl

theorem child_eq_some (hs : IsObject s) {key : String} {c : Ptr JSONSchemaProps} :
    ((Ptr.new s).view table).child key = some c ↔ ∃ q, c = .new q ∧ (key, q) ∈ s.properties := by
  rw [hs.child, Option.map_eq_some_iff]
  constructor
  · rintro ⟨q, hq, rfl⟩
    exact ⟨q, rfl, hs.property?_eq_some.mp hq⟩
  · rintro ⟨q, rfl, hq⟩
    exact ⟨q, hs.property?_eq_some.mpr hq, rfl⟩

theorem unique (hs : IsObject s) {key : String} {q q' : JSONSchemaProps} (h : (key, q) ∈ s.properties)
    (h' : (key, q') ∈ s.properties) : q = q' :=
  congrArg Prod.snd (List.inj_on_of_nodup_map hs.names h h' rfl)

/-- Objects are admitted that have the required members, and members that the properties admit. -/
theorem admits_iff (hs : IsObject s) : Admits table (.new s) v ↔ ∃ members, v = .obj members ∧
    (∀ key ∈ s.required, ∃ m ∈ members, m.1 = key) ∧
      ∀ m ∈ members, ∀ q, (m.1, q) ∈ s.properties → Admits table (.new q) m.2 := by
  have hparts (members : List (String × Json)) :
      (∀ m ∈ members, ∀ c, ((Ptr.new s).view table).child m.1 = some c → Admits table c m.2) ↔
        ∀ m ∈ members, ∀ q, (m.1, q) ∈ s.properties → Admits table (.new q) m.2 := by
    simp only [hs.child_eq_some, forall_exists_index, and_imp]
    exact forall₂_congr fun m _ => forall_comm.trans (forall_congr' fun q => by simp)
  constructor
  · intro h
    obtain ⟨members, rfl⟩ := h.valid.allows.type .object hs.type
    obtain ⟨-, hrequired, hmembers⟩ := admits_obj.mp h
    exact ⟨members, rfl, hrequired, (hparts members).mp hmembers⟩
  · rintro ⟨members, rfl, hrequired, hmembers⟩
    have hallows : ((Ptr.new s).view table).Allows (.obj members) :=
      allows_of_not_num (t := .object) ⟨members, rfl⟩ nofun hs.type hs.enum
    exact admits_obj.mpr ⟨hallows, hrequired, (hparts members).mpr hmembers⟩

/-- Pruning keeps the members that are listed, if it keeps what is below them. -/
theorem prune_obj (hs : IsObject s) {members : List (String × Json)}
    (h : ∀ m ∈ members, ∃ q, (m.1, q) ∈ s.properties ∧ prune (Ptr.view table) (.new q) m.2 = m.2) :
    prune (Ptr.view table) (.new s) (.obj members) = .obj members := by
  refine Structural.prune_obj fun m hm => ?_
  obtain ⟨q, hq, hprune⟩ := h m hm
  exact ⟨.new q, hs.child_eq_some.mpr ⟨q, rfl, hq⟩, hprune⟩

/-- A struct can be read from what is admitted, if each field can be read from what its property admits. -/
theorem decode_admitted (hs : IsObject s) {α : Type} {fields : List (GoStruct.Field α)} {P : α → Prop}
    (hfields : ∀ f ∈ fields, ∃ q, (f.name, q) ∈ s.properties ∧
      ∀ v, Admits table (.new q) v → ∀ a, P a → ∃ a', f.set a v = some a' ∧ P a')
    (h : Admits table (.new s) v) {a : α} (ha : P a) : ∃ a', decode fields a v = some a' ∧ P a' := by
  obtain ⟨members, rfl, -, hmembers⟩ := hs.admits_iff.mp h
  refine decode_spec ha fun m hm f hf hname a ha => ?_
  obtain ⟨q, hq, hset⟩ := hfields f hf
  exact hset m.2 (hmembers m hm q (hname ▸ hq)) a ha

end IsObject

end Admission

/-! ### The references of a resource -/

/-- The schema of `kubernetesServiceRef`. -/
def serviceRefSchema : JSONSchemaProps := (((kindExtraProps "Cluster").get? "kubernetesServiceRef").map (·.2)).getD {}

theorem isObject_targetRefSchema : IsObject targetRefSchema := ⟨rfl, rfl, rfl, by decide⟩

theorem isObject_serviceRefSchema : IsObject serviceRefSchema := ⟨rfl, rfl, rfl, by decide⟩

section References
variable {table : Table} {v : Json}

theorem admits_string_schema (description : String) :
    Admits table (.new { type := some .string, description }) v ↔ ∃ text, v = .str text :=
  admits_string rfl rfl ⟨fun _ => rfl, rfl, rfl⟩

theorem admits_port_schema (description : String) :
    Admits table
        (.new { type := some .integer, format := some .int32, description, minimum := some 1, maximum := some 65535 }) v ↔
      ∃ literal n, v = .num literal ∧ Json.integer? literal = some n ∧ 1 ≤ n ∧ n ≤ 65535 := by
  set s : JSONSchemaProps :=
    { type := some .integer, format := some .int32, description, minimum := some 1, maximum := some 65535 }
  have hleaf : s.node.Leaf := ⟨fun _ => rfl, rfl, rfl⟩
  constructor
  · intro h
    obtain ⟨literal, n, rfl, hn, -⟩ := h.valid.allows.type .integer rfl
    obtain ⟨hlo, hhi⟩ := h.bounds _ literal n (.here _ _) hn
    exact ⟨literal, n, rfl, hn, by exact_mod_cast hlo 1 rfl, by exact_mod_cast hhi 65535 rfl⟩
  · rintro ⟨literal, n, rfl, hn, hlo, hhi⟩
    have hallows : s.node.Allows (.num literal) := (allows_int32 hn rfl rfl rfl).mpr ⟨by omega, by omega⟩
    refine ⟨(valid_of_leaf hleaf).mpr hallows, ?_, ?_⟩
    · intro t members hmeets
      cases (hmeets.of_leaf hleaf).2
    · intro t literal' n' hmeets hn'
      obtain ⟨rfl, heq⟩ := hmeets.of_leaf hleaf
      cases heq
      obtain rfl : n = n' := Option.some.inj (hn.symm.trans hn')
      refine ⟨fun lo hlo' => ?_, fun hi hhi' => ?_⟩
      · cases hlo'
        exact_mod_cast hlo
      · cases hhi'
        exact_mod_cast hhi

theorem reads_targetRef (h : Admits table (.new targetRefSchema) v) (r : TargetRef) :
    ∃ r', decode TargetRef.fields r v = some r' := by
  have hfields : ∀ f ∈ TargetRef.fields, ∃ q, (f.name, q) ∈ targetRefSchema.properties ∧
      ∀ v, Admits table (.new q) v → ∀ r, True → ∃ r', f.set r v = some r' ∧ True := by
    simp only [TargetRef.fields, List.forall_mem_cons]
    refine ⟨⟨_, List.mem_cons_self, fun v hv r _ => ?_⟩,
      ⟨_, List.mem_cons_of_mem _ List.mem_cons_self, fun v hv r _ => ?_⟩, List.forall_mem_nil _⟩
    all_goals
      obtain ⟨text, rfl⟩ := (admits_string_schema _).mp hv
      exact ⟨_, rfl, trivial⟩
  obtain ⟨r', hr', -⟩ := isObject_targetRefSchema.decode_admitted hfields h trivial
  exact ⟨r', hr'⟩

theorem reads_serviceRef (h : Admits table (.new serviceRefSchema) v) {r : KubernetesServiceRef}
    (hr : r.PortInRange) :
    ∃ r', decode KubernetesServiceRef.fields r v = some r' ∧ r'.PortInRange := by
  refine isObject_serviceRefSchema.decode_admitted ?_ h hr
  simp only [KubernetesServiceRef.fields, List.forall_mem_cons]
  refine ⟨⟨_, List.mem_cons_self, fun v hv r hr => ?_⟩,
    ⟨_, List.mem_cons_of_mem _ List.mem_cons_self, fun v hv r hr => ?_⟩,
    ⟨_, List.mem_cons_of_mem _ (List.mem_cons_of_mem _ List.mem_cons_self), fun v hv r hr => ?_⟩, List.forall_mem_nil _⟩
  · obtain ⟨text, rfl⟩ := (admits_string_schema _).mp hv
    exact ⟨_, rfl, hr⟩
  · obtain ⟨text, rfl⟩ := (admits_string_schema _).mp hv
    exact ⟨_, rfl, hr⟩
  · obtain ⟨literal, n, rfl, hn, hlo, hhi⟩ := (admits_port_schema _).mp hv
    have hread : readInt32 (.num literal) = some (.ofInt n) := by
      rw [readInt32, hn, Option.bind_some, if_pos ⟨by omega, by omega⟩]
    refine ⟨{ r with port := some (.ofInt n) }, ?_, fun p hp => ?_⟩
    · change ((readInt32 (.num literal)).map some).map _ = _
      rw [hread]
      rfl
    · cases hp
      rw [Int32.toInt_ofInt_of_le (by omega) (by omega)]
      exact ⟨hlo, hhi⟩

end References

/-! ### Documents -/

section Documents
variable {table : Table} {spec : JSONSchemaProps}

theorem mem_json_names {m : String × Json} {name ns : String}
    (h : m ∈ ("name", Json.str name) :: if ns = "" then [] else [("namespace", Json.str ns)]) :
    m = ("name", .str name) ∨ m = ("namespace", .str ns) := by
  rcases List.mem_cons.mp h with rfl | h
  · exact Or.inl rfl
  · split at h
    · cases h
    · exact Or.inr (List.mem_singleton.mp h)

theorem admits_targetRef (r : TargetRef) : Admits table (.new targetRefSchema) r.json := by
  refine isObject_targetRefSchema.admits_iff.mpr ⟨_, rfl, fun key hkey => ?_, fun m hm q hq => ?_⟩
  · rw [List.mem_singleton.mp hkey]
    exact ⟨_, List.mem_cons_self, rfl⟩
  · rcases mem_json_names hm with rfl | rfl
    · obtain rfl := isObject_targetRefSchema.unique hq List.mem_cons_self
      exact (admits_string_schema _).mpr ⟨_, rfl⟩
    · obtain rfl := isObject_targetRefSchema.unique hq (List.mem_cons_of_mem _ List.mem_cons_self)
      exact (admits_string_schema _).mpr ⟨_, rfl⟩

theorem prune_targetRef (r : TargetRef) : prune (Ptr.view table) (.new targetRefSchema) r.json = r.json := by
  refine isObject_targetRefSchema.prune_obj fun m hm => ?_
  rcases mem_json_names hm with rfl | rfl
  · exact ⟨_, List.mem_cons_self, rfl⟩
  · exact ⟨_, List.mem_cons_of_mem _ List.mem_cons_self, rfl⟩

theorem mem_serviceRef_json {r : KubernetesServiceRef} {members : List (String × Json)} {m : String × Json}
    (hr : r.json = .obj members) (h : m ∈ members) :
    m = ("name", .str r.name) ∨ m = ("namespace", .str r.ns) ∨ ∃ p, r.port = some p ∧ m = ("port", .num p.toInt.repr) := by
  cases hr
  rcases List.mem_append.mp h with h | h
  · exact (mem_json_names h).imp id Or.inl
  · obtain ⟨p, hp, rfl⟩ := List.mem_map.mp h
    exact Or.inr (Or.inr ⟨p, Option.mem_toList.mp hp, rfl⟩)

theorem admits_serviceRef {r : KubernetesServiceRef} (hr : r.PortInRange) :
    Admits table (.new serviceRefSchema) r.json := by
  refine isObject_serviceRefSchema.admits_iff.mpr ⟨_, rfl, fun key hkey => ?_, fun m hm q hq => ?_⟩
  · rw [List.mem_singleton.mp hkey]
    exact ⟨_, List.mem_cons_self, rfl⟩
  · rcases mem_serviceRef_json rfl hm with rfl | rfl | ⟨p, hp, rfl⟩
    · obtain rfl := isObject_serviceRefSchema.unique hq List.mem_cons_self
      exact (admits_string_schema _).mpr ⟨_, rfl⟩
    · obtain rfl := isObject_serviceRefSchema.unique hq (List.mem_cons_of_mem _ List.mem_cons_self)
      exact (admits_string_schema _).mpr ⟨_, rfl⟩
    · obtain rfl := isObject_serviceRefSchema.unique hq
        (List.mem_cons_of_mem _ (List.mem_cons_of_mem _ List.mem_cons_self))
      exact (admits_port_schema _).mpr ⟨_, p.toInt, rfl, Json.integer?_repr _, hr p hp⟩

theorem prune_serviceRef (r : KubernetesServiceRef) : prune (Ptr.view table) (.new serviceRefSchema) r.json = r.json := by
  refine isObject_serviceRefSchema.prune_obj fun m hm => ?_
  rcases mem_serviceRef_json rfl hm with rfl | rfl | ⟨p, -, rfl⟩
  · exact ⟨_, List.mem_cons_self, rfl⟩
  · exact ⟨_, List.mem_cons_of_mem _ List.mem_cons_self, rfl⟩
  · exact ⟨_, List.mem_cons_of_mem _ (List.mem_cons_of_mem _ List.mem_cons_self), rfl⟩

end Documents

/-! ### Resources -/

section Resources
variable {table : Table} {spec : JSONSchemaProps} {kind : String} {doc v : Json}

theorem isObject_resource (spec : JSONSchemaProps) (kind : String) :
    IsObject (topLevelSchema spec (kindExtraProps kind)) := by
  unfold kindExtraProps
  split
  · exact ⟨rfl, rfl, rfl, show ["targetRef", "spec", "status", "kubernetesServiceRef"].Nodup by decide⟩
  · exact ⟨rfl, rfl, rfl, show ["targetRef", "spec", "status"].Nodup by decide⟩

theorem required_resource (spec : JSONSchemaProps) (kind : String) :
    (topLevelSchema spec (kindExtraProps kind)).required = ["targetRef"] := by
  unfold kindExtraProps
  split <;> rfl

theorem targetRef_mem (spec : JSONSchemaProps) (kind : String) :
    ("targetRef", targetRefSchema) ∈ (topLevelSchema spec (kindExtraProps kind)).properties := by
  unfold kindExtraProps
  split <;> exact List.mem_cons_self

theorem spec_mem (spec : JSONSchemaProps) (kind : String) :
    ("spec", spec) ∈ (topLevelSchema spec (kindExtraProps kind)).properties := by
  unfold kindExtraProps
  split <;> exact List.mem_cons_of_mem _ List.mem_cons_self

theorem serviceRef_mem (spec : JSONSchemaProps) :
    ("kubernetesServiceRef", serviceRefSchema) ∈ (topLevelSchema spec (kindExtraProps "Cluster")).properties :=
  List.mem_cons_of_mem _ (List.mem_cons_of_mem _ (List.mem_cons_of_mem _ List.mem_cons_self))

theorem mem_resourceJson {ref : Option KubernetesServiceRef} {targetRef : TargetRef} {m : String × Json}
    (h : m ∈ ref.toList.map (fun r => ("kubernetesServiceRef", r.json)) ++ [("spec", v), ("targetRef", targetRef.json)]) :
    (∃ r, ref = some r ∧ m = ("kubernetesServiceRef", r.json)) ∨ m = ("spec", v) ∨ m = ("targetRef", targetRef.json) := by
  rcases List.mem_append.mp h with h | h
  · obtain ⟨r, hr, rfl⟩ := List.mem_map.mp h
    exact Or.inl ⟨r, Option.mem_toList.mp hr, rfl⟩
  · exact Or.inr (List.mem_pair.mp h)

/-- Only a Cluster may refer to a Service, by a port number. -/
def RefAllowed (kind : String) (ref : Option KubernetesServiceRef) : Prop :=
  ∀ r, ref = some r → kind = "Cluster" ∧ r.PortInRange

theorem admits_resourceJson {ref : Option KubernetesServiceRef} (href : RefAllowed kind ref)
    (hv : Admits table (.new spec) v) (targetRef : TargetRef) :
    Admits table (.new (topLevelSchema spec (kindExtraProps kind))) (resourceJson ref v targetRef) := by
  have hobj := isObject_resource spec kind
  refine hobj.admits_iff.mpr ⟨_, rfl, fun key hkey => ?_, fun m hm q hq => ?_⟩
  · rw [required_resource] at hkey
    rw [List.mem_singleton.mp hkey]
    exact ⟨_, List.mem_append_right _ (List.mem_cons_of_mem _ List.mem_cons_self), rfl⟩
  · rcases mem_resourceJson hm with ⟨r, hr, rfl⟩ | rfl | rfl
    · obtain ⟨rfl, hport⟩ := href r hr
      obtain rfl := hobj.unique hq (serviceRef_mem spec)
      exact admits_serviceRef hport
    · obtain rfl := hobj.unique hq (spec_mem spec kind)
      exact hv
    · obtain rfl := hobj.unique hq (targetRef_mem spec kind)
      exact admits_targetRef targetRef

theorem prune_resourceJson {ref : Option KubernetesServiceRef} (href : RefAllowed kind ref)
    (hv : prune (Ptr.view table) (.new spec) v = v) (targetRef : TargetRef) :
    prune (Ptr.view table) (.new (topLevelSchema spec (kindExtraProps kind))) (resourceJson ref v targetRef) =
      resourceJson ref v targetRef := by
  refine (isObject_resource spec kind).prune_obj fun m hm => ?_
  rcases mem_resourceJson hm with ⟨r, hr, rfl⟩ | rfl | rfl
  · obtain ⟨rfl, -⟩ := href r hr
    exact ⟨_, serviceRef_mem spec, prune_serviceRef r⟩
  · exact ⟨_, spec_mem spec kind, hv⟩
  · exact ⟨_, targetRef_mem spec kind, prune_targetRef targetRef⟩

end Resources

end EnvoyMesh.CrdGen
