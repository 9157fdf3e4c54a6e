import EnvoyMesh.CrdGen.Expansion
import EnvoyMesh.Lib.SlashPath

/-! # Scopes

How type names are resolved in proto: in the innermost enclosing scope that has them. `resolveFQN` asks for
the bare name before it walks up the scopes, and for the rest of an absolute name as if it were relative. -/

namespace EnvoyMesh.CrdGen

/-- The scopes that enclose the fields of a message: its full name and the dotted prefixes of it, the
    innermost first. -/
def scopes (fullName : String) : List String :=
  (List.range (split fullName).length).reverse.map fun i => join ((split fullName).take (i + 1))

/-- The entry of the type in the innermost scope that has it, the root scope apart. -/
def scoped? (reg : Registry) (fullName typeName : String) : Option String :=
  ((scopes fullName).map fun scope => scope ++ "." ++ typeName).find? (inRegistry · reg)

/-- The entry that proto resolves a name without a leading dot to. -/
def innermost? (reg : Registry) (fullName typeName : String) : Option String :=
  (scoped? reg fullName typeName).or (if inRegistry typeName reg then some typeName else none)

def Resolution.resolved? : Resolution → Option String
  | .message fqn _ => some fqn
  | .enum e => some e.fullName
  | .wellKnown _ | .cycle | .unknown => none

/-- The registry entry that `resolveMessageOrEnum` resolves a type name in a field of `msg` to. -/
def resolved? (reg : Registry) (msg : Message) (typeName : String) : Option String :=
  (resolution typeName msg.package msg.fullName reg []).resolved?

def isAbsolute (typeName : String) : Bool := typeName.toList.head? = some '.'

/-! ### Dotted names -/

section Names
variable {scope fullName : String}

theorem join_split (name : String) : join (split name) = name := by
  rw [← String.toList_inj, join, split, String.toList_intercalate, List.map_map]
  have hid : String.toList ∘ String.ofList = id := funext fun _ => String.toList_ofList
  rw [hid, List.map_id]
  exact List.intercalate_splitOn '.'

theorem split_append (name rest : String) : split (name ++ "." ++ rest) = split name ++ split rest :=
  splitText_append '.' name rest

/-- They are the name itself and what stands before a dot in it. -/
theorem mem_scopes : scope ∈ scopes fullName ↔ scope = fullName ∨ ∃ rest, fullName = scope ++ "." ++ rest := by
  simp only [scopes, List.mem_map, List.mem_reverse, List.mem_range]
  constructor
  · rintro ⟨i, hi, rfl⟩
    by_cases hall : (split fullName).drop (i + 1) = []
    · exact Or.inl (by rw [List.take_of_length_le (List.drop_eq_nil_iff.mp hall), join_split])
    · have htake : (split fullName).take (i + 1) ≠ [] := by
        intro h
        have := congrArg List.length h
        simp only [List.length_take, List.length_nil] at this
        omega
      refine Or.inr ⟨join ((split fullName).drop (i + 1)), ?_⟩
      have := String.intercalate_append_of_ne_nil (s := ".") htake hall
      rwa [List.take_append_drop, ← join, ← join, ← join, join_split] at this
  · have hpos (name : String) : 0 < (split name).length := by
      rw [split, List.length_map, List.length_pos_iff]
      exact List.splitOnP_ne_nil _ _
    rintro (rfl | ⟨rest, rfl⟩)
    · refine ⟨(split scope).length - 1, Nat.sub_one_lt (Nat.ne_of_gt (hpos scope)), ?_⟩
      rw [Nat.sub_add_cancel (hpos scope), List.take_length, join_split]
    · refine ⟨(split scope).length - 1, ?_, ?_⟩
      · have := hpos scope
        rw [split_append, List.length_append]
        omega
      · rw [Nat.sub_add_cancel (hpos scope), split_append, List.take_left, join_split]

theorem scopes_subset {inner outer : String} (h : ∃ rest, inner = outer ++ "." ++ rest) : scopes outer ⊆ scopes inner := by
  obtain ⟨path, rfl⟩ := h
  intro scope hscope
  rcases mem_scopes.mp hscope with rfl | ⟨rest, rfl⟩
  · exact mem_scopes.mpr (Or.inr ⟨path, rfl⟩)
  · exact mem_scopes.mpr (Or.inr ⟨rest ++ "." ++ path, by simp only [String.append_assoc]⟩)

end Names

/-! ### `resolveFQN` -/

section Resolve
variable {reg : Registry} {msg : Message} {typeName name : String}

theorem walkUp_eq (typeName : String) (reg : Registry) (parts : List String) (n : Nat) : walkUp typeName reg parts n =
    (((List.range n).reverse.map fun i => join (parts.take (i + 1))).map fun scope => scope ++ "." ++ typeName).find?
      (inRegistry · reg) := by
  induction n with
  | zero => rfl
  | succ n ih =>
    rw [walkUp, List.range_succ, List.reverse_append, List.reverse_singleton, List.singleton_append, List.map_cons,
      List.map_cons, List.find?_cons, ← ih]
    cases inRegistry (join (parts.take (n + 1)) ++ "." ++ typeName) reg <;> rfl

theorem scoped?_eq_none {fullName : String} : scoped? reg fullName typeName = none ↔
    ∀ scope ∈ scopes fullName, inRegistry (scope ++ "." ++ typeName) reg = false := by
  simp [scoped?]

theorem inRegistry_of_scoped? {fullName : String} (h : scoped? reg fullName typeName = some name) :
    inRegistry name reg = true ∧ ∃ scope, name = scope ++ "." ++ typeName := by
  obtain ⟨scope, -, hscope⟩ := List.mem_map.mp (List.mem_of_find?_eq_some h)
  exact ⟨List.find?_some (p := (inRegistry · reg)) h, scope, hscope.symm⟩

theorem isAbsolute_dot (name : String) : isAbsolute ("." ++ name) = true := by
  have hlist : ("." ++ name).toList = '.' :: name.toList := String.toList_append
  simp [isAbsolute, hlist]

/-- The full name of the message starts with its package, as in `qualify`. -/
def Qualified (msg : Message) : Prop := msg.package = "" ∨ ∃ path, msg.fullName = msg.package ++ "." ++ path

/-- Where there is no package, the walk up the packages still asks for one name: the type behind a dot. -/
def dotted? (reg : Registry) (msg : Message) (typeName : String) : Option String :=
  if msg.package = "" ∧ inRegistry ("." ++ typeName) reg then some ("." ++ typeName) else none

theorem scoped?_empty (reg : Registry) (typeName : String) :
    scoped? reg "" typeName = if inRegistry ("." ++ typeName) reg then some ("." ++ typeName) else none := by
  have hscopes : scopes "" = [""] := by decide
  have hdot : "" ++ "." ++ typeName = "." ++ typeName := by rw [String.empty_append]
  rw [scoped?, hscopes, List.map_singleton, hdot, List.find?_singleton]

theorem dotted?_eq_none : dotted? reg msg typeName = none ↔
    (msg.package = "" → inRegistry ("." ++ typeName) reg = false) := by
  simp [dotted?]

/-- With a package, the walk up the packages comes to nothing new. -/
theorem resolveFQN_eq (h : Qualified msg) (typeName : String) : resolveFQN typeName msg.package msg.fullName reg =
    if inRegistry typeName reg then typeName
    else ((scoped? reg msg.fullName typeName).or (dotted? reg msg typeName)).getD typeName := by
  have hwalk (name : String) : walkUp typeName reg (split name) (split name).length = scoped? reg name typeName :=
    walkUp_eq ..
  unfold resolveFQN
  simp only [hwalk]
  congr 2
  by_cases hpkg : msg.package = ""
  · have hdotted : dotted? reg msg typeName = scoped? reg "" typeName := by
      simp [dotted?, scoped?_empty, hpkg]
    rw [hpkg, hdotted]
    by_cases hname : msg.fullName = ""
    · simp [hname]
    · rw [if_pos hname]
  · obtain hempty | ⟨path, hpath⟩ := h
    · exact absurd hempty hpkg
    have hdotted : dotted? reg msg typeName = none := by
      simp [dotted?, hpkg]
    have hname : msg.fullName ≠ "" := by
      simp [hpath]
    rw [if_pos hname, hdotted, Option.or_none]
    cases hs : scoped? reg msg.fullName typeName with
    | some name => rfl
    | none => exact scoped?_eq_none.mpr fun scope hscope => scoped?_eq_none.mp hs scope (scopes_subset ⟨path, hpath⟩ hscope)

theorem entryResolution_resolved? (name : String) :
    (entryResolution name reg []).resolved? = if inRegistry name reg then some name else none := by
  unfold entryResolution inRegistry
  rw [if_neg List.not_mem_nil]
  cases hm : reg.messages.get? name with
  | some m => rfl
  | none =>
    cases he : reg.enums.get? name with
    | some e => exact congrArg some (Store.get?_eq_some.mp he).2
    | none => rfl

/-- What the code resolves a type name to, with the leading dot taken off. -/
theorem resolved?_eq (h : Qualified msg) (typeName : String) : resolved? reg msg typeName =
    if (WellKnown.ofName? (trimDot typeName)).isSome then none
    else if inRegistry (trimDot typeName) reg then some (trimDot typeName)
    else (scoped? reg msg.fullName (trimDot typeName)).or (dotted? reg msg (trimDot typeName)) := by
  unfold resolved? resolution
  cases WellKnown.ofName? (trimDot typeName) with
  | some w => rfl
  | none =>
    simp only [entryResolution_resolved?, resolveFQN_eq h, Option.isSome_none, Bool.false_eq_true, if_false]
    by_cases hroot : inRegistry (trimDot typeName) reg = true
    · simp [hroot]
    · simp only [hroot]
      cases hs : scoped? reg msg.fullName (trimDot typeName) with
      | some name => simp [(inRegistry_of_scoped? hs).1]
      | none =>
        by_cases hd : msg.package = "" ∧ inRegistry ("." ++ trimDot typeName) reg = true
        · simp [dotted?, hd]
        · simp [dotted?, hd, hroot]

theorem trimDot_of_relative (h : isAbsolute typeName = false) : trimDot typeName = typeName := by
  unfold trimDot
  split
  · next cs hcs => simp [isAbsolute, hcs] at h
  · rfl

theorem trimDot_dot (name : String) : trimDot ("." ++ name) = name := by
  have hlist : ("." ++ name).toList = '.' :: name.toList := String.toList_append
  rw [trimDot, hlist]
  exact String.ofList_toList

end Resolve

/-- A name without a leading dot is resolved to the innermost entry, and one with a leading dot to nothing
    but the entry of exactly that name. -/
structure FollowsScoping (reg : Registry) (msg : Message) (typeName : String) : Prop where
  relative : isAbsolute typeName = false → resolved? reg msg typeName = innermost? reg msg.fullName typeName
  absolute : ∀ name, typeName = "." ++ name → ∀ entry, resolved? reg msg typeName = some entry → entry = name

/-- The scopes have no entry that the lookup of the bare name comes before, and none that an absolute name
    would be taken for. The names behind a dot are those of `dotted?`. -/
structure Unshadowed (reg : Registry) (msg : Message) (typeName : String) : Prop where
  wellKnown : isAbsolute typeName = false → (WellKnown.ofName? typeName).isSome →
    innermost? reg msg.fullName typeName = none
  relative : isAbsolute typeName = false → inRegistry typeName reg → ∀ scope ∈ scopes msg.fullName,
    inRegistry (scope ++ "." ++ typeName) reg = false
  dotted : isAbsolute typeName = false → WellKnown.ofName? typeName = none → innermost? reg msg.fullName typeName = none →
    msg.package = "" → inRegistry ("." ++ typeName) reg = false
  absolute : ∀ name, typeName = "." ++ name → WellKnown.ofName? name = none → inRegistry name reg ∨
    (∀ scope ∈ scopes msg.fullName, inRegistry (scope ++ "." ++ name) reg = false) ∧
    (msg.package = "" → inRegistry ("." ++ name) reg = false)

section Scoping
variable {reg : Registry} {msg : Message} {typeName : String}

theorem dotted?_ne {name : String} (h : dotted? reg msg typeName = some name) : name ≠ typeName := by
  unfold dotted? at h
  split at h
  · cases h
    simp
  · cases h

theorem follows_relative_iff (h : Qualified msg) (hrel : isAbsolute typeName = false) :
    resolved? reg msg typeName = innermost? reg msg.fullName typeName ↔
      ((WellKnown.ofName? typeName).isSome → innermost? reg msg.fullName typeName = none) ∧
      (inRegistry typeName reg → scoped? reg msg.fullName typeName = none) ∧
      (WellKnown.ofName? typeName = none → innermost? reg msg.fullName typeName = none →
        dotted? reg msg typeName = none) := by
  rw [resolved?_eq h, trimDot_of_relative hrel]
  unfold innermost?
  cases hw : WellKnown.ofName? typeName <;> cases hroot : inRegistry typeName reg <;>
    cases hs : scoped? reg msg.fullName typeName with
  | none => simp
  | some name =>
    obtain ⟨-, scope, rfl⟩ := inRegistry_of_scoped? hs
    have hne : typeName ≠ scope ++ "." ++ typeName := Ne.symm (by simp)
    simp [hne]

theorem follows_absolute_iff (h : Qualified msg) (name : String) :
    (∀ entry, resolved? reg msg ("." ++ name) = some entry → entry = name) ↔
      (WellKnown.ofName? name = none → inRegistry name reg ∨
        scoped? reg msg.fullName name = none ∧ dotted? reg msg name = none) := by
  rw [resolved?_eq h, trimDot_dot]
  cases hw : WellKnown.ofName? name <;> cases hroot : inRegistry name reg <;>
    cases hs : scoped? reg msg.fullName name with
  | none =>
    cases hd : dotted? reg msg name with
    | none => simp
    | some entry => simp [dotted?_ne hd]
  | some entry =>
    obtain ⟨-, scope, rfl⟩ := inRegistry_of_scoped? hs
    simp

/-- Type names are resolved by proto's scoping exactly if nothing is shadowed. -/
theorem follows_scoping_iff (reg : Registry) (msg : Message) (h : Qualified msg) (typeName : String) :
    FollowsScoping reg msg typeName ↔ Unshadowed reg msg typeName := by
  constructor
  · intro hf
    have hrelative (hrel : isAbsolute typeName = false) := (follows_relative_iff h hrel).mp (hf.relative hrel)
    refine ⟨fun hrel => (hrelative hrel).1, fun hrel hroot => ?_, fun hrel hw hnone => ?_, ?_⟩
    · exact scoped?_eq_none.mp ((hrelative hrel).2.1 hroot)
    · exact dotted?_eq_none.mp ((hrelative hrel).2.2 hw hnone)
    · rintro name rfl hw
      have habsolute := (follows_absolute_iff h name).mp (hf.absolute name rfl) hw
      exact habsolute.imp_right fun hnone => ⟨scoped?_eq_none.mp hnone.1, dotted?_eq_none.mp hnone.2⟩
  · intro hu
    refine ⟨fun hrel => ?_, ?_⟩
    · refine (follows_relative_iff h hrel).mpr ⟨hu.wellKnown hrel, fun hroot => ?_, fun hw hnone => ?_⟩
      · exact scoped?_eq_none.mpr (hu.relative hrel hroot)
      · exact dotted?_eq_none.mpr (hu.dotted hrel hw hnone)
    · rintro name rfl
      refine (follows_absolute_iff h name).mpr fun hw => (hu.absolute name rfl hw).imp_right fun hnone => ?_
      exact ⟨scoped?_eq_none.mpr hnone.1, dotted?_eq_none.mpr hnone.2⟩

end Scoping

namespace Sample

/-- `Foo` stands in the package and, depending on the registry, in the root scope. -/
def rootFoo : Message := ⟨"Foo", "Foo", "", [], ""⟩
def foo : Message := ⟨"mesh.v1.Foo", "Foo", "mesh.v1", [], ""⟩
def bar : Message := ⟨"mesh.v1.Bar", "Bar", "mesh.v1", [⟨"foo", "Foo", false, "", "", ""⟩], ""⟩

def packaged : Registry := ⟨(Store.empty.put foo).put bar, .empty⟩
def shadowed : Registry := ⟨((Store.empty.put rootFoo).put foo).put bar, .empty⟩

theorem qualified_bar : Qualified bar := Or.inr ⟨"Bar", rfl⟩

end Sample

theorem follows_scoping_bar : Qualified Sample.bar ∧ FollowsScoping Sample.packaged Sample.bar "Foo" := by
  have hq := Sample.qualified_bar
  refine ⟨hq, (follows_scoping_iff _ _ hq _).mpr ⟨fun _ hw => ?_, fun _ hroot => ?_,
    fun _ _ _ hpkg => ?_, fun name hname => ?_⟩⟩
  · exact absurd hw (by decide +kernel)
  · exact absurd hroot (by decide +kernel)
  · exact absurd hpkg (by decide)
  · have := isAbsolute_dot name
    rw [← hname] at this
    exact absurd this (by decide)

/-- `Foo` in the root scope is taken where proto takes `mesh.v1.Foo`. -/
theorem scoping_not_followed : ¬∀ (reg : Registry) (msg : Message), msg ∈ reg.messages.items → Qualified msg →
    ∀ f ∈ msg.fields, FollowsScoping reg msg f.type := by
  intro h
  have hf := h Sample.shadowed Sample.bar (by decide +kernel) Sample.qualified_bar ⟨"foo", "Foo", false, "", "", ""⟩
    (by decide)
  have hentry : resolved? Sample.shadowed Sample.bar "Foo" = some "Foo" := by decide +kernel
  have hinner : innermost? Sample.shadowed Sample.bar.fullName "Foo" = some "mesh.v1.Foo" := by decide +kernel
  exact absurd (hentry.symm.trans ((hf.relative (by decide)).trans hinner)) (by decide)

end EnvoyMesh.CrdGen
