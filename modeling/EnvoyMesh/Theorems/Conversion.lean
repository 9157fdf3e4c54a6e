import EnvoyMesh.CrdGen.Expansion
import EnvoyMesh.Lib.Runs
import Mathlib.Data.List.Nodup

/-! # What a conversion gives

A conversion ends after a nesting of at most one more than the number of messages in the registry, and it
gives a schema for the fields of the message. -/

namespace EnvoyMesh.CrdGen

/-! ### Resolution -/

section Resolution
variable {reg : Registry} {msg : Message} {typeName fqn fqn' : String} {visited : Visited}

theorem entryResolution_message (h : entryResolution fqn reg visited = .message fqn' msg) :
    fqn' ∉ visited ∧ reg.messages.get? fqn' = some msg := by
  unfold entryResolution at h
  split at h
  · cases h
  · next hv =>
    split at h
    · next hm =>
      cases h
      exact ⟨hv, hm⟩
    · split at h <;> cases h

theorem resolution_message {msg' : Message}
    (h : resolution typeName msg.package msg.fullName reg visited = .message fqn msg') :
    fqn ∉ visited ∧ reg.messages.get? fqn = some msg' := by
  unfold resolution at h
  split at h
  · cases h
  · exact entryResolution_message h

theorem resolution_wellKnown {w : WellKnown} : resolution typeName msg.package msg.fullName reg visited = .wellKnown w ↔
    WellKnown.ofName? (trimDot typeName) = some w := by
  unfold resolution
  cases WellKnown.ofName? (trimDot typeName) with
  | some w' => simp
  | none =>
    simp only [reduceCtorEq, iff_false]
    unfold entryResolution
    intro h
    split at h
    · cases h
    · split at h
      · cases h
      · split at h <;> cases h

/-- The map of the messages that are being expanded only turns messages into cycles. -/
inductive Resolves (reg : Registry) (msg : Message) (typeName : String) (visited : Visited) : Resolution → Kind → Prop where
  | wellKnown {w : WellKnown} : Resolves reg msg typeName visited (.wellKnown w) (.wellKnown w)
  | cycle {m : Message} (hv : m.fullName ∈ visited) : Resolves reg msg typeName visited .cycle (.message m)
  | message {m : Message} (hv : m.fullName ∉ visited) :
      Resolves reg msg typeName visited (.message m.fullName m) (.message m)
  | enum {e : Enum} : Resolves reg msg typeName visited (.enum e) (.enum e)
  | unknown : Resolves reg msg typeName visited .unknown .unknown

theorem resolves (msg : Message) (hs : Scalar.ofName? typeName = none) (hv : ∀ n ∈ visited, (reg.messages.get? n).isSome) :
    Resolves reg msg typeName visited (resolution typeName msg.package msg.fullName reg visited)
      (kind reg msg typeName) := by
  unfold kind resolution
  simp only [hs]
  cases hw : WellKnown.ofName? (trimDot typeName) with
  | some w => exact .wellKnown
  | none =>
    generalize resolveFQN (trimDot typeName) msg.package msg.fullName reg = fqn
    unfold entryResolution
    cases hm : reg.messages.get? fqn with
    | some m =>
      obtain rfl := (Store.get?_eq_some.mp hm).2
      by_cases hmem : m.fullName ∈ visited
      · simpa [hmem] using .cycle hmem
      · simpa [hmem] using .message hmem
    | none =>
      have hmem : fqn ∉ visited := fun hmem => by simpa [hm] using hv fqn hmem
      simp only [if_neg hmem, List.not_mem_nil, if_false]
      cases reg.enums.get? fqn with
      | some e => exact .enum
      | none => exact .unknown

end Resolution

/-! ### Expansion -/

section Expansion
variable {reg : Registry} {root msg : Message} {path : List String} {visited : Visited}

/-- The map holds the messages that are being expanded, each once. -/
theorem Expands.visited_eq (h : Expands reg root path visited msg) :
    visited = path ∧ path.Nodup ∧ ∀ n ∈ path, (reg.messages.get? n).isSome := by
  induction h with
  | root => simp
  | field h hf hs hr ih =>
    obtain ⟨rfl, hnodup, hreg⟩ := ih
    obtain ⟨hnew, hget⟩ := resolution_message hr
    refine ⟨List.insert_of_not_mem hnew, List.nodup_cons.mpr ⟨hnew, hnodup⟩, ?_⟩
    rw [List.forall_mem_cons]
    exact ⟨by rw [hget]; rfl, hreg⟩

theorem Expands.length_le (h : Expands reg root path visited msg) : path.length ≤ reg.messages.items.length := by
  obtain ⟨-, hnodup, hreg⟩ := h.visited_eq
  have hsub : path ⊆ reg.messages.items.map Message.fullName := by
    intro n hn
    obtain ⟨m, hm⟩ := Option.isSome_iff_exists.mp (hreg n hn)
    obtain ⟨hmem, rfl⟩ := Store.get?_eq_some.mp hm
    exact List.mem_map_of_mem hmem
  simpa using (List.subperm_of_subset hnodup hsub).length_le

end Expansion

/-! ### Schemas up to descriptions -/

namespace JSONSchemaProps
variable {s t : JSONSchemaProps}

theorem Like.refl (s : JSONSchemaProps) : s.Like s := rfl

theorem Like.describe (h : s.Like t) (d : String) : Like { s with description := d } t := h

theorem property?_setProperty {name n : String} {p : JSONSchemaProps} :
    (s.setProperty n p).property? name = if n = name then some p else s.property? name := by
  unfold property? setProperty
  by_cases h : n = name
  · subst h
    have hnone : (s.properties.filter (·.1 ≠ n)).find? (fun q => q.1 = n) = none := by
      simp [List.find?_eq_none]
    rw [List.find?_append, hnone]
    simp
  · have hfind : (s.properties.filter (·.1 ≠ n)).find? (fun q => q.1 = name) = s.properties.find? fun q => q.1 = name := by
      rw [List.find?_filter]
      congr 1
      funext q
      by_cases hq : q.1 = name
      · simp [hq, Ne.symm h]
      · simp [hq]
    rw [List.find?_append, hfind]
    simp [h]

end JSONSchemaProps

theorem SchemaFor.describe {reg : Registry} {D : Field → String → Prop} {visited : Visited} {pos : Position}
    {s : JSONSchemaProps} (h : SchemaFor reg D visited pos (.new s)) (d : String) :
    SchemaFor reg D visited pos (.new { s with description := d }) := by
  generalize hp : Ptr.new s = p at h
  induction h with
  | shared => cases hp
  | scalar hs => cases hp; exact .scalar hs
  | copied hs => cases hp; exact .copied hs
  | enum hs => cases hp; exact .enum hs
  | unknown hs => cases hp; exact .unknown hs
  | cycle hv hs => cases hp; exact .cycle hv hs
  | message hv _ ih => exact .message hv (ih hp)
  | list h hs => cases hp; exact .list h hs
  | map h hs => cases hp; exact .map h hs
  | fields hs hnames hD h => cases hp; exact .fields hs hnames hD h

/-- A copy of a schema is a schema for the same. -/
theorem SchemaFor.get {reg : Registry} {D : Field → String → Prop} {visited : Visited} {pos : Position}
    {p : Ptr JSONSchemaProps} {table : Table} (h : SchemaFor reg D visited pos p)
    (hlike : ∀ w, (table w).Like (wellKnownSchemas w)) : SchemaFor reg D visited pos (.new (p.get table)) := by
  cases p with
  | new s => exact h
  | wellKnown w =>
    cases h
    exact .copied (hlike w)

/-! ### The run of a conversion -/

/-- The description that a property gets, with `table` in place at the time. -/
structure Described (table : Table) (f : Field) (d : String) : Prop where
  commented : f.comment ≠ "" → d = f.comment
  shared : f.comment = "" → ∀ w, f.shared? = some w → d = (table w).description
  elements : f.comment = "" → f.shared? = none → f.wellKnown?.isSome → d = ""

/-- An invariant of the table in a conversion of `root`, which gives the properties descriptions in `D`. -/
structure Keeps (reg : Registry) (root : Message) (I : Table → Prop) (D : Field → String → Prop) : Prop where
  like : ∀ {table : Table} (w : WellKnown), I table → (table w).Like (wellKnownSchemas w)
  write : ∀ {path : List String} {visited : Visited} {msg : Message} {f : Field} {w : WellKnown} {table : Table},
    Expands reg root path visited msg → f ∈ msg.fields → f.shared? = some w → f.comment ≠ "" → I table →
    I (Function.update table w { table w with description := f.comment })
  describes : ∀ {table : Table} {f : Field} {d : String}, I table → Described table f d → D f d

section Run
variable {reg : Registry} {root : Message} {I : Table → Prop} {D : Field → String → Prop} {n : Nat}
variable {path : List String} {visited : Visited} {msg : Message} {f : Field} {table : Table}

/-- The calls of `msgSchema` give schemas for the fields of their messages, keep the invariant of the table,
    and leave the map as they found it. -/
def Converts (reg : Registry) (root : Message) (I : Table → Prop) (D : Field → String → Prop) (n : Nat)
    (convert : Message → Registry → Conv JSONSchemaProps) : Prop :=
  ∀ {path : List String} {visited : Visited} {msg : Message} {table : Table}, Expands reg root path visited msg →
    reg.messages.items.length < n + path.length → I table →
    Runs (convert msg reg) ⟨table, visited⟩ fun s st =>
      st.visited = visited ∧ I st.wellKnownSchemas ∧ SchemaFor reg D visited (.fields msg) (.new s)

theorem runs_withClone {α : Type} {call : Conv α} {Q : α → State → Prop}
    (h : Runs call ⟨table, visited⟩ fun a st => Q a { st with visited }) : Runs (withClone call) ⟨table, visited⟩ Q :=
  .bind (.read (.bind (.write (.bind (h.mono fun _ _ hq => .bind (.write (.ret hq)))))))

theorem runs_resolveMessageOrEnum {convert : Message → Registry → Conv JSONSchemaProps}
    (hconv : Converts reg root I D n convert) (h : Expands reg root path visited msg)
    (hn : reg.messages.items.length < n + (path.length + 1)) (hf : f ∈ msg.fields)
    (hs : Scalar.ofName? f.valueType = none) (hI : I table) :
    Runs (resolveMessageOrEnum convert f.valueType msg.package msg.fullName reg) ⟨table, visited⟩ fun p st =>
      I st.wellKnownSchemas ∧ SchemaFor reg D visited (.value (.one (kind reg msg f.valueType))) p ∧
      ∀ w, p = .wellKnown w ↔ f.wellKnown? = some w := by
  obtain ⟨hvis, -, hkeys⟩ := h.visited_eq
  have hres := resolves msg hs (hvis ▸ hkeys)
  have hwell (w : WellKnown) : resolution f.valueType msg.package msg.fullName reg visited = .wellKnown w ↔
      f.wellKnown? = some w := by
    rw [resolution_wellKnown, Field.wellKnown?, hs]
  have hexp {fqn : String} {msg' : Message}
      (hr : resolution f.valueType msg.package msg.fullName reg visited = .message fqn msg') :=
    h.field hf hs hr
  refine .bind (.read ?_)
  -- the case that the code finds itself in goes with the kind of the type
  generalize kind reg msg f.valueType = k at hres
  generalize resolution f.valueType msg.package msg.fullName reg visited = r at hres hwell hexp
  cases hres with
  | wellKnown => exact .ret ⟨hI, .shared, fun w => by simpa using hwell w⟩
  | cycle hv => exact .ret ⟨hI, .cycle hv rfl, fun w => by simpa using hwell w⟩
  | message hv =>
    refine .bind (.write (.bind ((hconv (hexp rfl) hn hI).mono fun s st hst => ?_)))
    exact .ret ⟨hst.2.1, .message hv hst.2.2, fun w => by simpa using hwell w⟩
  | enum => exact .ret ⟨hI, .enum rfl, fun w => by simpa using hwell w⟩
  | unknown => exact .ret ⟨hI, .unknown rfl, fun w => by simpa using hwell w⟩

theorem runs_resolveType {convert : Message → Registry → Conv JSONSchemaProps} (hconv : Converts reg root I D n convert)
    (h : Expands reg root path visited msg) (hn : reg.messages.items.length < n + (path.length + 1)) (hf : f ∈ msg.fields)
    (hI : I table) :
    Runs (resolveType convert f.valueType false msg.package msg.fullName reg) ⟨table, visited⟩ fun p st =>
      I st.wellKnownSchemas ∧ SchemaFor reg D visited (.value (.one (kind reg msg f.valueType))) p ∧
      ∀ w, p = .wellKnown w ↔ f.wellKnown? = some w := by
  refine .bind ?_
  cases hs : Scalar.ofName? f.valueType with
  | some t =>
    simp only [scalarSchema, hs, Option.map_some, Option.elim_some, kind]
    exact .ret (.ret ⟨hI, .scalar rfl, fun w => by simp [Field.wellKnown?, hs]⟩)
  | none =>
    simp only [scalarSchema, hs, Option.map_none, Option.elim_none]
    exact (runs_resolveMessageOrEnum hconv h hn hf hs hI).mono fun p st hst => .ret hst

theorem resolveType_repeated (convert : Message → Registry → Conv JSONSchemaProps) (typeName pkg msgFQN : String) :
    resolveType convert typeName true pkg msgFQN reg = do
      let s ← resolveType convert typeName false pkg msgFQN reg
      return .new { type := some .array, items := some s } := by
  simp [resolveType]

/-- The schema of a field, from that of its elements or values. -/
def Field.wrap (f : Field) (p : Ptr JSONSchemaProps) : Ptr JSONSchemaProps :=
  if f.type = "map" then .new { type := some .object, additionalProperties := some p }
  else if f.repeated then .new { type := some .array, items := some p }
  else p

theorem runs_fieldPtr_of_value {convert : Message → Registry → Conv JSONSchemaProps}
    {P : Ptr JSONSchemaProps → Table → Prop}
    (h : Runs (resolveType convert f.valueType false msg.package msg.fullName reg) ⟨table, visited⟩ fun p st =>
      P p st.wellKnownSchemas) :
    Runs (fieldPtr convert msg reg f) ⟨table, visited⟩ fun q st =>
      st.visited = visited ∧ ∃ p, q = f.wrap p ∧ P p st.wellKnownSchemas := by
  unfold fieldPtr Field.wrap
  by_cases hmap : f.type = "map"
  · simp only [Field.valueType, hmap, if_true] at h ⊢
    exact .bind (runs_withClone (h.mono fun p st hp => .ret ⟨rfl, p, rfl, hp⟩))
  · simp only [Field.valueType, hmap, if_false] at h ⊢
    refine runs_withClone ?_
    cases f.repeated with
    | true =>
      rw [resolveType_repeated]
      exact .bind (h.mono fun p st hp => .ret ⟨rfl, p, rfl, hp⟩)
    | false => exact h.mono fun p st hp => ⟨rfl, p, rfl, hp⟩

theorem SchemaFor.wrap {p : Ptr JSONSchemaProps}
    (h : SchemaFor reg D visited (.value (.one (kind reg msg f.valueType))) p) :
    SchemaFor reg D visited (.value (f.fieldType reg msg)) (f.wrap p) := by
  unfold Field.fieldType Field.wrap
  split
  · exact .map h rfl
  · split
    · exact .list h rfl
    · exact h

theorem runs_fieldPtr {convert : Message → Registry → Conv JSONSchemaProps} (hconv : Converts reg root I D n convert)
    (h : Expands reg root path visited msg) (hn : reg.messages.items.length < n + (path.length + 1)) (hf : f ∈ msg.fields)
    (hI : I table) :
    Runs (fieldPtr convert msg reg f) ⟨table, visited⟩ fun p st =>
      st.visited = visited ∧ I st.wellKnownSchemas ∧ SchemaFor reg D visited (.value (f.fieldType reg msg)) p ∧
      (∀ w, p = .wellKnown w ↔ f.shared? = some w) ∧ ∀ s, p = .new s → f.wellKnown?.isSome → s.description = "" := by
  refine (runs_fieldPtr_of_value (P := fun p table => I table ∧
    SchemaFor reg D visited (.value (.one (kind reg msg f.valueType))) p ∧
    ∀ w, p = .wellKnown w ↔ f.wellKnown? = some w) (runs_resolveType hconv h hn hf hI)).mono fun q st hst => ?_
  obtain ⟨hvis, p, rfl, hI, hfor, hwell⟩ := hst
  refine ⟨hvis, hI, hfor.wrap, ?_⟩
  unfold Field.wrap Field.shared?
  by_cases hmap : f.type = "map"
  · simp only [hmap, if_true, true_or]
    exact ⟨by simp, fun s hs _ => by cases hs; rfl⟩
  · simp only [hmap, if_false, false_or]
    cases f.repeated with
    | true =>
      simp only [if_true]
      exact ⟨by simp, fun s hs _ => by cases hs; rfl⟩
    | false =>
      refine ⟨by simpa using hwell, ?_⟩
      rintro s rfl hsome
      obtain ⟨w, hw⟩ := Option.isSome_iff_exists.mp hsome
      cases (hwell w).mpr hw

theorem runs_fieldSchema {convert : Message → Registry → Conv JSONSchemaProps} (hkeeps : Keeps reg root I D)
    (hconv : Converts reg root I D n convert) (h : Expands reg root path visited msg)
    (hn : reg.messages.items.length < n + (path.length + 1)) (hf : f ∈ msg.fields) (hI : I table) :
    Runs (fieldSchema convert msg reg f) ⟨table, visited⟩ fun p st =>
      st.visited = visited ∧ I st.wellKnownSchemas ∧ D f p.description ∧
      SchemaFor reg D visited (.value (f.fieldType reg msg)) (.new p) := by
  refine .bind ((runs_fieldPtr hconv h hn hf hI).mono fun fs st hst => ?_)
  obtain ⟨rfl, hI, hfor, hshared, hnew⟩ := hst
  by_cases hc : f.comment = ""
  · -- the schema is read as it is
    simp only [hc, ne_eq, not_true_eq_false, if_false]
    refine .bind (.ret (.bind (.read (.ret ⟨rfl, hI, ?_, ?_⟩))))
    · refine hkeeps.describes hI ⟨fun h => absurd hc h, fun _ w hw => ?_, fun _ hnone hsome => ?_⟩
      · rw [(hshared w).mpr hw]
        rfl
      · cases fs with
        | wellKnown w =>
          rw [(hshared w).mp rfl] at hnone
          cases hnone
        | new s => exact hnew s rfl hsome
    · exact hfor.get fun w => hkeeps.like w hI
  · -- the comment goes into the new schema, or into the entry that is shared
    simp only [hc, ne_eq, not_false_eq_true, if_true]
    have hD : D f f.comment := hkeeps.describes hI ⟨fun _ => rfl, fun h => absurd h hc, fun h => absurd h hc⟩
    cases fs with
    | new s => exact .bind (.ret (.bind (.read (.ret ⟨rfl, hI, hD, hfor.describe f.comment⟩))))
    | wellKnown w =>
      have hI' := hkeeps.write h hf ((hshared w).mp rfl) hc hI
      refine .bind (.bind (.write (.ret (.bind (.read (.ret ⟨rfl, hI', ?_, hfor.get fun w => hkeeps.like w hI'⟩))))))
      simpa [Ptr.get] using hD

/-- What the loop over the fields has made of the first of them. -/
structure Made (reg : Registry) (D : Field → String → Prop) (visited : Visited) (msg : Message) (front : List Field)
    (s : JSONSchemaProps) : Prop where
  like : s.Like { type := some .object, properties := s.properties }
  names : ∀ name, (s.property? name).isSome = (Index.byName Field.name front name).isSome
  schemas : ∀ name f p, Index.byName Field.name front name = some f → s.property? name = some p →
    D f p.description ∧ SchemaFor reg D visited (.value (f.fieldType reg msg)) (.new p)

theorem Made.setProperty {front : List Field} {s p : JSONSchemaProps} (h : Made reg D visited msg front s)
    (hD : D f p.description) (hp : SchemaFor reg D visited (.value (f.fieldType reg msg)) (.new p)) :
    Made reg D visited msg (front ++ [f]) (s.setProperty f.name p) := by
  have hlike := h.like
  constructor
  · simp only [JSONSchemaProps.Like, JSONSchemaProps.setProperty] at hlike ⊢
    grind
  · intro name
    rw [JSONSchemaProps.property?_setProperty, Index.byName_concat]
    split
    · rfl
    · exact h.names name
  · intro name f' p' hf' hp'
    rw [JSONSchemaProps.property?_setProperty] at hp'
    rw [Index.byName_concat] at hf'
    split at hf'
    · next hname =>
      rw [if_pos hname] at hp'
      cases hf'
      cases hp'
      exact ⟨hD, hp⟩
    · next hname =>
      rw [if_neg hname] at hp'
      exact h.schemas name f' p' hf' hp'

/-- An object that specifies no property preserves all. -/
theorem Made.schemaFor {s : JSONSchemaProps} (h : Made reg D visited msg msg.fields s) :
    SchemaFor reg D visited (.fields msg)
      (.new (if s.properties.isEmpty then { s with xPreserveUnknownFields := true } else s)) := by
  have hlike := h.like
  simp only [JSONSchemaProps.Like] at hlike
  have hD (name : String) (f : Field) (p : JSONSchemaProps) (hf : msg.field? name = some f)
    (hp : s.property? name = some p) :=
    (h.schemas name f p hf hp).1
  have hsub (name : String) (f : Field) (p : JSONSchemaProps) (hf : msg.field? name = some f)
    (hp : s.property? name = some p) :=
    (h.schemas name f p hf hp).2
  split
  · next hempty =>
    refine .fields ?_ h.names hD hsub
    simp only [JSONSchemaProps.Like, hempty]
    grind
  · next hempty =>
    refine .fields ?_ h.names hD hsub
    simp only [JSONSchemaProps.Like, hempty]
    grind

theorem runs_msgSchema (hkeeps : Keeps reg root I D) (n : Nat) : Converts reg root I D n (msgSchema n) := by
  induction n with
  | zero =>
    intro path visited msg table h hn
    have := h.length_le
    omega
  | succ n ih =>
    intro path visited msg table h hn hI
    have hn' : reg.messages.items.length < n + (path.length + 1) := by omega
    refine .bind ((Runs.foldlM (fun front s st => st.visited = visited ∧ I st.wellKnownSchemas ∧
      Made reg D visited msg front s) ?_ ⟨rfl, hI, ?_⟩).mono fun s st hst => ?_)
    · rintro front f s ⟨table, _⟩ hf ⟨rfl, hI, hmade⟩
      refine .bind ((runs_fieldSchema hkeeps ih h hn' hf hI).mono fun p st hst => .ret ?_)
      exact ⟨hst.1, hst.2.1, hmade.setProperty hst.2.2.1 hst.2.2.2⟩
    · exact ⟨rfl, fun _ => rfl, fun _ _ _ _ hp => nomatch hp⟩
    · rw [← apply_ite pure]
      exact .ret ⟨hst.1, hst.2.1, hst.2.2.schemaFor⟩

theorem runs_messageToSchema (hkeeps : Keeps reg root I D) (hn : reg.messages.items.length < n) (hI : I table) :
    Runs (messageToSchema n root reg) table fun s table' => I table' ∧ SchemaFor reg D [] (.fields root) (.new s) := by
  obtain ⟨s, st, hrun, -, hI', hs⟩ := runs_msgSchema hkeeps n .root hn hI
  refine ⟨s, st.wellKnownSchemas, ?_, hI', hs⟩
  rw [messageToSchema, hrun]
  rfl

end Run

/-! ### More fuel -/

section Fuel
variable {reg : Registry} {c c' : Message → Registry → Conv JSONSchemaProps}

theorem extends_resolveType (h : ∀ msg, Extends (c msg reg) (c' msg reg)) (typeName : String) (repeated : Bool)
    (pkg msgFQN : String) :
    Extends (resolveType c typeName repeated pkg msgFQN reg) (resolveType c' typeName repeated pkg msgFQN reg) := by
  refine .bind ?_ fun _ => .refl _
  cases scalarSchema typeName with
  | some s => exact .refl _
  | none =>
    refine .bind (.refl _) fun st => ?_
    cases resolution typeName pkg msgFQN reg st.visited with
    | message fqn msg => exact .bind (.refl _) fun _ => .bind (h msg) fun _ => .refl _
    | _ => exact .refl _

theorem extends_withClone {α : Type} {x y : Conv α} (h : Extends x y) : Extends (withClone x) (withClone y) :=
  .bind (.refl _) fun _ => .bind (.refl _) fun _ => .bind h fun _ => .refl _

theorem extends_fieldSchema (h : ∀ msg, Extends (c msg reg) (c' msg reg)) (msg : Message) (f : Field) :
    Extends (fieldSchema c msg reg f) (fieldSchema c' msg reg f) := by
  refine .bind ?_ fun _ => .refl _
  unfold fieldPtr
  split
  · exact .bind (extends_withClone (extends_resolveType h _ _ _ _)) fun _ => .refl _
  · exact extends_withClone (extends_resolveType h _ _ _ _)

theorem extends_msgSchema (n : Nat) (msg : Message) : Extends (msgSchema n msg reg) (msgSchema (n + 1) msg reg) := by
  induction n generalizing msg with
  | zero => exact fun _ _ h => nomatch h
  | succ n ih =>
    rw [msgSchema, msgSchema]
    exact .bind (.foldlM (fun s f => .bind (extends_fieldSchema ih msg f) fun _ => .refl _) _ _) fun _ => .refl _

theorem extends_messageToSchema {m n : Nat} (hmn : m ≤ n) (msg : Message) :
    Extends (messageToSchema m msg reg) (messageToSchema n msg reg) := by
  have hmsg : Extends (msgSchema m msg reg) (msgSchema n msg reg) := by
    induction hmn with
    | refl => exact .refl _
    | step _ ih => exact fun s r h => extends_msgSchema _ msg s r (ih s r h)
  intro table r h
  obtain ⟨p, hp, hr⟩ := Option.bind_eq_some_iff.mp h
  exact Option.bind_eq_some_iff.mpr ⟨p, hmsg _ p hp, hr⟩

end Fuel

end EnvoyMesh.CrdGen
