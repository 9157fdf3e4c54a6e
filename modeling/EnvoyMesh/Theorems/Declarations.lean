import EnvoyMesh.CrdGen.Parser
import EnvoyMesh.Lib.Index

/-! # The registry and the declarations

What the proto files declare, read off the syntax trees, and when the registry is that. The parser package
takes extend blocks for messages. -/

namespace EnvoyMesh.CrdGen

/-! ### Declarations -/

/-- A message or an enum, as the registry keeps it. -/
inductive Entry where
  | message (msg : Message)
  | enum (e : Enum)
  deriving DecidableEq

inductive EntryKind where
  | message | enum
  deriving DecidableEq

def Entry.fullName : Entry → String
  | .message msg => msg.fullName
  | .enum e => e.fullName

/-- Messages and enums are kept apart. -/
def Entry.key : Entry → EntryKind × String
  | .message msg => (.message, msg.fullName)
  | .enum e => (.enum, e.fullName)

theorem Entry.key_snd (e : Entry) : e.key.2 = e.fullName := by cases e <;> rfl

def OneofElement.field? : OneofElement → Option Field
  | .oneOfField name type comment => some { name, type, comment := commentText comment }
  | .other => none

/-- The fields that an element declares in its message, the members of a oneof in its place. -/
def Element.fields : Element → List Field
  | .normalField name type repeated comment => [{ name, type, repeated, comment := commentText comment }]
  | .mapField name keyType type => [{ name, type := "map", mapKey := keyType, mapValue := type }]
  | .oneof elements => elements.filterMap OneofElement.field?
  | _ => []

def EnumElement.value? : EnumElement → Option String
  | .enumField name => some name
  | .other => none

theorem EnumElement.identifiers (elements : List EnumElement) :
    ∀ v ∈ elements.filterMap EnumElement.value?, ∀ c ∈ v.toList, isIdentChar c = true := by
  intro v hv
  obtain ⟨e, -, he⟩ := List.mem_filterMap.mp hv
  cases e with
  | enumField name =>
    cases he
    exact name.property
  | other => cases he

/-- The full name of what is declared at the end of the path: the package, then the names on the path. -/
def qualified (pkg : String) (path : List Name) : String :=
  join ((if pkg = "" then [] else [pkg]) ++ path.map Name.text)

/-- A message or an enum of a file, or an extend block read as a message. -/
structure Block where
  entry : Entry
  /-- It is an extend block, or stands in one. -/
  extended : Bool

mutual
/-- The blocks of an element in the messages on the path, in reading order. -/
def Element.blocks (pkg : String) (path : List Name) (extended : Bool) : Element → List Block
  | .message name isExtend comment elements =>
    let msg := {
      fullName := qualified pkg (path ++ [name])
      name := name.text
      package := pkg
      fields := elements.flatMap Element.fields
      comment := commentText comment }
    ⟨.message msg, extended || isExtend⟩ :: blocks pkg (path ++ [name]) (extended || isExtend) elements
  | .enum name elements =>
    [⟨.enum ⟨qualified pkg (path ++ [name]), elements.filterMap EnumElement.value?, EnumElement.identifiers elements⟩,
      extended⟩]
  | _ => []
def blocks (pkg : String) (path : List Name) (extended : Bool) : List Element → List Block
  | [] => []
  | e :: elements => e.blocks pkg path extended ++ blocks pkg path extended elements
end

def fileBlocks (file : List Element) : List Block := blocks (packageOf file) [] false file

/-- The messages and enums that the files declare. -/
def declared (files : List (List Element)) : List Entry :=
  ((files.flatMap fileBlocks).filter fun b => !b.extended).map Block.entry

/-- The registry has each declared message and enum under its full name, as it is declared, and nothing else. -/
structure Exact (files : List (List Element)) (reg : Registry) : Prop where
  messages : ∀ name msg, reg.messages.get? name = some msg ↔ .message msg ∈ declared files ∧ msg.fullName = name
  enums : ∀ name e, reg.enums.get? name = some e ↔ .enum e ∈ declared files ∧ e.fullName = name

/-- Where a block that is no declaration is the last of its name in its file, it reads as a declaration. -/
def ExtendsHarmless (files : List (List Element)) : Prop :=
  ∀ file ∈ files, ∀ front b back, fileBlocks file = front ++ b :: back → b.extended = true →
    (∀ c ∈ back, c.entry.key ≠ b.entry.key) → b.entry ∈ declared files

/-- The registry after the files, one after the other. -/
def registryOf (files : List (List Element)) : Registry := files.foldl (fun reg file => parseFile (some file) reg) .empty

/-! ### Names and fields -/

/-- The `parentFQN` for what stands in the messages on the path. -/
def scope (pkg : String) (path : List Name) : String := if path = [] then "" else qualified pkg path

theorem scope_concat (pkg : String) (path : List Name) (name : Name) :
    scope pkg (path ++ [name]) = qualified pkg (path ++ [name]) := if_neg (by simp)

theorem join_concat {parts : List String} (h : parts ≠ []) (name : String) :
    join (parts ++ [name]) = join parts ++ "." ++ name := by
  rw [join, String.intercalate_append_of_ne_nil h (List.cons_ne_nil _ _), String.intercalate_singleton]
  rfl

theorem qualified_concat (pkg : String) (path : List Name) (name : Name) :
    qualified pkg (path ++ [name]) = join ((if pkg = "" then [] else [pkg]) ++ path.map Name.text ++ [name.text]) := by
  rw [qualified, List.map_append, List.append_assoc]
  rfl

theorem qualified_ne_empty (pkg : String) {path : List Name} (h : path ≠ []) : qualified pkg path ≠ "" := by
  obtain ⟨front, name, rfl⟩ : ∃ front name, path = front ++ [name] := ⟨_, _, (List.dropLast_append_getLast h).symm⟩
  rw [qualified_concat]
  generalize (if pkg = "" then [] else [pkg]) ++ front.map Name.text = parts
  by_cases hparts : parts = []
  · subst hparts
    simpa [join] using name.ne_empty
  · rw [join_concat hparts]
    simp

theorem qualify_eq (pkg : String) (path : List Name) (name : Name) :
    qualify name.text pkg (scope pkg path) = qualified pkg (path ++ [name]) := by
  rw [qualified_concat, qualify]
  by_cases hpath : path = []
  · subst hpath
    by_cases hpkg : pkg = ""
    · simp [scope, hpkg, join]
    · have hjoin := join_concat (List.cons_ne_nil pkg []) name.text
      simp_all [scope, join]
  · have hne := qualified_ne_empty pkg hpath
    rw [scope, if_neg hpath, if_pos hne, join_concat (by simpa using fun _ => hpath), qualified]

theorem foldl_addOneofField (elements : List OneofElement) (fields : List Field) :
    elements.foldl addOneofField fields = fields ++ elements.filterMap OneofElement.field? := by
  induction elements generalizing fields with
  | nil => simp
  | cons e elements ih => cases e <;> simp [addOneofField, OneofElement.field?, List.filterMap_cons, ih]

theorem foldl_addFields (elements : List Element) (fields : List Field) :
    elements.foldl addFields fields = fields ++ elements.flatMap Element.fields := by
  induction elements generalizing fields with
  | nil => simp
  | cons e elements ih => cases e <;> simp [addFields, Element.fields, ih, foldl_addOneofField]

theorem foldl_addValue (elements : List EnumElement) (e : Enum) :
    (elements.foldl Enum.addValue e).fullName = e.fullName ∧
    (elements.foldl Enum.addValue e).values = e.values ++ elements.filterMap EnumElement.value? := by
  induction elements generalizing e with
  | nil => simp
  | cons el elements ih => cases el <;> simp [Enum.addValue, EnumElement.value?, List.filterMap_cons, ih]

theorem enum_collected (elements : List EnumElement) (name : String) :
    elements.foldl Enum.addValue ⟨name, [], nofun⟩ =
      ⟨name, elements.filterMap EnumElement.value?, EnumElement.identifiers elements⟩ := by
  obtain ⟨hname, hvalues⟩ := foldl_addValue elements ⟨name, [], nofun⟩
  generalize elements.foldl Enum.addValue ⟨name, [], nofun⟩ = e at hname hvalues
  cases e
  cases hname
  cases hvalues
  rfl

/-! ### Collecting -/

def Registry.add (reg : Registry) : Entry → Registry
  | .message msg => { reg with messages := reg.messages.put msg }
  | .enum e => { reg with enums := reg.enums.put e }

mutual
theorem collectElement_eq (pkg : String) (path : List Name) (extended : Bool) : (e : Element) → (reg : Registry) →
    collectElement pkg (scope pkg path) e reg = ((e.blocks pkg path extended).map Block.entry).foldl Registry.add reg
  | .message name isExtend comment elements, reg => by
    have hrest := collectElements_eq pkg (path ++ [name]) (extended || isExtend) elements
    rw [collectElement, Element.blocks, List.map_cons, List.foldl_cons, ← hrest, scope_concat, qualify_eq,
      foldl_addFields, List.nil_append]
    rfl
  | .enum name elements, reg => by
    rw [collectElement, Element.blocks, qualify_eq, enum_collected]
    rfl
  | .package _, _ | .normalField .., _ | .mapField .., _ | .oneof _, _ | .other, _ => rfl
theorem collectElements_eq (pkg : String) (path : List Name) (extended : Bool) : (elements : List Element) →
    (reg : Registry) → collectElements pkg (scope pkg path) elements reg =
      ((blocks pkg path extended elements).map Block.entry).foldl Registry.add reg
  | [], _ => rfl
  | e :: elements, reg => by
    rw [collectElements, blocks, List.map_append, List.foldl_append, collectElement_eq pkg path extended e,
      collectElements_eq pkg path extended elements]
end

/-- What the registry has under a key. -/
def Registry.lookup (reg : Registry) : EntryKind × String → Option Entry
  | (.message, name) => (reg.messages.get? name).map .message
  | (.enum, name) => (reg.enums.get? name).map .enum

theorem Registry.lookup_add (reg : Registry) (e : Entry) :
    (reg.add e).lookup = Function.update reg.lookup e.key (some e) := by
  funext ⟨kind, name⟩
  rw [Function.update_apply]
  cases e with
  | message msg =>
    cases kind with
    | message =>
      simp only [lookup, add, Entry.key, Store.get?_put, Prod.mk.injEq, true_and, eq_comm (a := name)]
      split <;> rfl
    | enum => rfl
  | enum e =>
    cases kind with
    | message => rfl
    | enum =>
      simp only [lookup, add, Entry.key, Store.get?_put, Prod.mk.injEq, true_and, eq_comm (a := name)]
      split <;> rfl

/-- A later entry replaces an earlier one. -/
theorem lookup_foldl_add (entries : List Entry) :
    (entries.foldl Registry.add .empty).lookup = Index.byName Entry.key entries := by
  have hempty : Registry.empty.lookup = fun _ => none := by
    funext ⟨kind, name⟩
    cases kind <;> rfl
  rw [Index.byName, ← hempty]
  exact (List.foldl_hom Registry.lookup fun reg e => (reg.lookup_add e).symm).symm

def fileEntries (file : List Element) : List Entry := (fileBlocks file).map Block.entry

theorem lookup_registryOf (files : List (List Element)) (k : EntryKind × String) :
    (registryOf files).lookup k = Index.byName Entry.key (files.flatMap fileEntries) k := by
  have hfile (reg : Registry) (file : List Element) :
      parseFile (some file) reg = (fileEntries file).foldl Registry.add reg :=
    collectElements_eq (packageOf file) [] false file reg
  simp only [registryOf, hfile]
  rw [← List.foldl_flatMap, lookup_foldl_add]

/-! ### Exactness -/

theorem exact_iff_lookup {files : List (List Element)} {reg : Registry} :
    Exact files reg ↔ ∀ k e, reg.lookup k = some e ↔ e ∈ declared files ∧ e.key = k := by
  constructor
  · rintro h ⟨kind, name⟩ e
    cases kind <;> cases e <;> simp [Registry.lookup, Entry.key, h.messages, h.enums]
  · intro h
    refine ⟨fun name msg => ?_, fun name e => ?_⟩
    · simpa [Registry.lookup, Entry.key] using h (.message, name) (.message msg)
    · simpa [Registry.lookup, Entry.key] using h (.enum, name) (.enum e)

theorem mem_declared {files : List (List Element)} {file : List Element} {b : Block} (hfile : file ∈ files)
    (hb : b ∈ fileBlocks file) (hext : b.extended = false) : b.entry ∈ declared files :=
  List.mem_map_of_mem (List.mem_filter.mpr ⟨List.mem_flatMap.mpr ⟨file, hfile, hb⟩, by simp [hext]⟩)

theorem exists_of_mem_declared {files : List (List Element)} {e : Entry} (h : e ∈ declared files) :
    ∃ file ∈ files, e ∈ fileEntries file := by
  obtain ⟨b, hb, rfl⟩ := List.mem_map.mp h
  obtain ⟨file, hfile, hmem⟩ := List.mem_flatMap.mp (List.mem_filter.mp hb).1
  exact ⟨file, hfile, List.mem_map_of_mem hmem⟩

/-- The entry that a file alone leaves is made from the last block of its kind and name. -/
theorem byName_fileEntries {file : List Element} {k : EntryKind × String} {e : Entry} :
    Index.byName Entry.key (fileEntries file) k = some e ↔
      ∃ front b back, fileBlocks file = front ++ b :: back ∧ b.entry = e ∧ e.key = k ∧ ∀ c ∈ back, c.entry.key ≠ k := by
  rw [Index.byName_eq_some_iff]
  constructor
  · rintro ⟨front, back, hsplit, hkey, hlast⟩
    obtain ⟨front, rest, hblocks, -, hrest⟩ := List.map_eq_append_iff.mp hsplit
    obtain ⟨b, back, rfl, hb, rfl⟩ := List.map_eq_cons_iff.mp hrest
    exact ⟨front, b, back, hblocks, hb, hkey, fun c hc => hlast c.entry (List.mem_map_of_mem hc)⟩
  · rintro ⟨front, b, back, hblocks, rfl, hkey, hlast⟩
    refine ⟨front.map Block.entry, back.map Block.entry, by simp [fileEntries, hblocks], hkey, fun e he => ?_⟩
    obtain ⟨c, hc, rfl⟩ := List.mem_map.mp he
    exact hlast c hc

/-- The extend blocks are harmless exactly if every file alone leaves declarations only. -/
theorem extendsHarmless_iff {files : List (List Element)} :
    ExtendsHarmless files ↔
      ∀ file ∈ files, ∀ k e, Index.byName Entry.key (fileEntries file) k = some e → e ∈ declared files := by
  constructor
  · intro h file hfile k e he
    obtain ⟨front, b, back, hblocks, rfl, rfl, hlast⟩ := byName_fileEntries.mp he
    cases hext : b.extended with
    | true => exact h file hfile front b back hblocks hext hlast
    | false => exact mem_declared hfile (by simp [hblocks]) hext
  · intro h file hfile front b back hblocks _ hlast
    exact h file hfile b.entry.key b.entry (byName_fileEntries.mpr ⟨front, b, back, hblocks, rfl, rfl, hlast⟩)

/-- For files that declare distinct full names: the registry has exactly the declared entries, in whatever order the
    files are collected, if and only if no extend block gets in the way. -/
theorem lookup_perm_iff {files : List (List Element)} (h : ((declared files).map Entry.fullName).Nodup) :
    (∀ files' : List (List Element), files'.Perm files →
      ∀ k e, (registryOf files').lookup k = some e ↔ e ∈ declared files ∧ e.key = k) ↔ ExtendsHarmless files := by
  have hinj : ∀ a ∈ declared files, ∀ b ∈ declared files, a.key = b.key → a = b := by
    intro a ha b hb hkey
    refine List.inj_on_of_nodup_map h ha hb ?_
    rw [← a.key_snd, hkey, b.key_snd]
  simp only [lookup_registryOf]
  rw [Index.byName_flatMap_perm_iff (fun e he => exists_of_mem_declared he) hinj, extendsHarmless_iff]

/-- For files that declare distinct full names: in whatever order they are collected, the registry is exactly
    what they declare, if and only if no extend block gets in the way. -/
theorem registry_exact_iff {files : List (List Element)} (h : ((declared files).map Entry.fullName).Nodup) :
    (∀ files' : List (List Element), files'.Perm files → Exact files (registryOf files')) ↔ ExtendsHarmless files := by
  simp only [exact_iff_lookup]
  exact lookup_perm_iff h

theorem extendsHarmless_of_none {files : List (List Element)}
    (h : ∀ file ∈ files, ∀ b ∈ fileBlocks file, b.extended = false) : ExtendsHarmless files := by
  intro file hfile front b back hblocks hext
  have hb := h file hfile b (by simp [hblocks])
  cases hb.symm.trans hext

namespace Sample

/-- A message with a message, an enum, a map and a oneof in it. -/
def routes : List Element := [
  .package "mesh.v1",
  .message ⟨"Route", by decide⟩ false none [
    .message ⟨"Match", by decide⟩ false none [.normalField "path" "string" false none],
    .enum ⟨"Action", by decide⟩ [.enumField ⟨"ALLOW", List.all_eq_true.mp (by decide)⟩,
      .enumField ⟨"DENY", List.all_eq_true.mp (by decide)⟩],
    .normalField "matches" "Match" true none,
    .oneof [.oneOfField "action" "Action" none, .oneOfField "cluster" "string" none],
    .mapField "metadata" "string" "string"]]

/-- A message that another file uses by name. -/
def hosts : List Element := [
  .package "mesh.v1",
  .message ⟨"Host", by decide⟩ false none [.normalField "routes" "Route" true none]]

/-- An extend block of `proto/envoy/annotations/deprecation.proto`. -/
def deprecation : List Element := [
  .package "envoy.annotations",
  .message ⟨"google.protobuf.FieldOptions", by decide⟩ true none [
    .normalField "disallowed_by_default" "bool" false none,
    .normalField "deprecated_at_minor_version" "string" false none]]

end Sample

theorem registry_exact_routes :
    ((declared [Sample.routes, Sample.hosts]).map Entry.fullName).Nodup ∧
    ∀ files' : List (List Element), files'.Perm [Sample.routes, Sample.hosts] →
      Exact [Sample.routes, Sample.hosts] (registryOf files') := by
  have hnodup : ((declared [Sample.routes, Sample.hosts]).map Entry.fullName).Nodup := by decide +kernel
  have hnone : ∀ file ∈ [Sample.routes, Sample.hosts], ∀ b ∈ fileBlocks file, b.extended = false := by decide +kernel
  exact ⟨hnodup, (registry_exact_iff hnodup).mpr (extendsHarmless_of_none hnone)⟩

/-- It is not always so: an extend block adds a message that no file declares. -/
theorem extend_block_collected : ¬∀ files : List (List Element), ((declared files).map Entry.fullName).Nodup →
    ∀ files' : List (List Element), files'.Perm files → Exact files (registryOf files') := by
  intro h
  have hdeclared : declared [Sample.deprecation] = [] := by decide +kernel
  have hexact := h [Sample.deprecation] (by rw [hdeclared]; exact List.nodup_nil) _ (.refl _)
  have hget : ((registryOf [Sample.deprecation]).messages.get?
    "envoy.annotations.google.protobuf.FieldOptions").isSome := by
    decide +kernel
  obtain ⟨msg, hmsg⟩ := Option.isSome_iff_exists.mp hget
  have hmem := ((hexact.messages _ msg).mp hmsg).1
  rw [hdeclared] at hmem
  cases hmem

/-! ### Directories -/

/-- The syntax tree that an entry of the walk gives. -/
def DirEntry.proto? (d : DirEntry) : Option (List Element) := if d.isDir || !isProto d.path then none else d.file

/-- A walk without errors collects the files that parse, in the order of the walk. -/
theorem parseDir_eq {entries : List DirEntry} (h : ∀ d ∈ entries, d.err = none) :
    parseDir entries = (registryOf (entries.filterMap DirEntry.proto?), none) := by
  suffices hgen : ∀ reg, parseEntries entries reg =
      ((entries.filterMap DirEntry.proto?).foldl (fun reg file => parseFile (some file) reg) reg, none) from hgen .empty
  induction entries with
  | nil => exact fun _ => rfl
  | cons d entries ih =>
    intro reg
    have hd := h d List.mem_cons_self
    have ih := ih fun d' hd' => h d' (List.mem_cons_of_mem _ hd')
    rw [parseEntries, hd, List.filterMap_cons, DirEntry.proto?]
    by_cases hskip : (d.isDir || !isProto d.path) = true
    · simp only [Option.isSome_none, Bool.false_or, hskip, ite_true]
      exact ih reg
    · simp only [Option.isSome_none, Bool.false_or, hskip]
      cases d.file <;> exact ih _

end EnvoyMesh.CrdGen
