import EnvoyMesh.Theorems.Declarations
import EnvoyMesh.Theorems.Output

/-! # The layout of the proto directory does not matter

The walk visits the files in the order of their paths, and the registry keeps its entries in the order in which they were
collected. The conversion only looks entries up, so a run is the same wherever the files are. -/

namespace EnvoyMesh.CrdGen

/-- Files that declare distinct names leave exactly what they declare, in any order. -/
theorem exact_registryOf {files files' : List (List Element)} (h : ((declared files).map Entry.fullName).Nodup)
    (hextend : ExtendsHarmless files) (hperm : files'.Perm files) : Exact files (registryOf files') :=
  exact_iff_lookup.mpr ((lookup_perm_iff h).mpr hextend files' hperm)

/-- The registries have the same entries, in whatever order. -/
structure SameEntries (reg reg' : Registry) : Prop where
  messages : ∀ name, reg.messages.get? name = reg'.messages.get? name
  enums : ∀ name, reg.enums.get? name = reg'.enums.get? name

theorem Exact.sameEntries {files : List (List Element)} {reg reg' : Registry} (h : Exact files reg)
    (h' : Exact files reg') : SameEntries reg reg' where
  messages name := Option.ext fun msg => (h.messages name msg).trans (h'.messages name msg).symm
  enums name := Option.ext fun e => (h.enums name e).trans (h'.enums name e).symm

section Conversion
variable {reg reg' : Registry}

theorem inRegistry_congr (h : SameEntries reg reg') (name : String) : inRegistry name reg = inRegistry name reg' := by
  rw [inRegistry, inRegistry, h.messages, h.enums]

theorem walkUp_congr (h : SameEntries reg reg') (typeName : String) (parts : List String) (i : Nat) :
    walkUp typeName reg parts i = walkUp typeName reg' parts i := by
  induction i with
  | zero => rfl
  | succ i ih => rw [walkUp, walkUp, inRegistry_congr h, ih]

theorem resolution_congr (h : SameEntries reg reg') (typeName pkg msgFQN : String) (visited : Visited) :
    resolution typeName pkg msgFQN reg visited = resolution typeName pkg msgFQN reg' visited := by
  have hresolve (name : String) : resolveFQN name pkg msgFQN reg = resolveFQN name pkg msgFQN reg' := by
    simp only [resolveFQN, inRegistry_congr h, walkUp_congr h]
  have hentry (fqn : String) : entryResolution fqn reg visited = entryResolution fqn reg' visited := by
    rw [entryResolution, entryResolution, h.messages, h.enums]
  rw [resolution, resolution, hresolve, hentry]

section Functions
variable {convert : Message → Registry → Conv JSONSchemaProps} (hconvert : ∀ msg, convert msg reg = convert msg reg')
include hconvert

theorem resolveType_congr (h : SameEntries reg reg') (typeName : String) (repeated : Bool) (pkg msgFQN : String) :
    resolveType convert typeName repeated pkg msgFQN reg = resolveType convert typeName repeated pkg msgFQN reg' := by
  have hresolve : resolveMessageOrEnum convert typeName pkg msgFQN reg =
      resolveMessageOrEnum convert typeName pkg msgFQN reg' := by
    simp only [resolveMessageOrEnum, resolution_congr h, hconvert]
  rw [resolveType, resolveType, hresolve]

theorem fieldSchema_congr (h : SameEntries reg reg') (msg : Message) (field : Field) :
    fieldSchema convert msg reg field = fieldSchema convert msg reg' field := by
  simp only [fieldSchema, fieldPtr, resolveType_congr hconvert h]

end Functions

theorem msgSchema_congr (h : SameEntries reg reg') (fuel : Nat) (msg : Message) :
    msgSchema fuel msg reg = msgSchema fuel msg reg' := by
  induction fuel generalizing msg with
  | zero => rfl
  | succ fuel ih => simp only [msgSchema, fieldSchema_congr ih h]

theorem generate_congr (h : SameEntries reg reg') (lib : Libraries) (fuel : Nat) (cfg : Config) (fqns : List String)
    (table : Table) : generate lib fuel cfg reg fqns table = generate lib fuel cfg reg' fqns table := by
  have hbuild (msg : Message) : buildCRD lib fuel msg cfg reg = buildCRD lib fuel msg cfg reg' := by
    have hspec : messageToSchema fuel msg reg = messageToSchema fuel msg reg' := by
      unfold messageToSchema
      rw [msgSchema_congr h]
    rw [buildCRD, buildCRD, hspec]
  induction fqns generalizing table with
  | nil => rfl
  | cons fqn fqns ih => simp only [generate, h.messages, hbuild, ih]

end Conversion

/-- Two walks that meet no error and find the same files, in whatever order and under whatever names, lead to the same
    run: the same calls with the same texts, the same errors. -/
theorem layout_immaterial {entries entries' : List DirEntry} (hwalk : ∀ d ∈ entries, d.err = none)
    (hwalk' : ∀ d ∈ entries', d.err = none)
    (hsame : (entries'.filterMap DirEntry.proto?).Perm (entries.filterMap DirEntry.proto?))
    (hdistinct : ((declared (entries.filterMap DirEntry.proto?)).map Entry.fullName).Nodup)
    (hextend : ExtendsHarmless (entries.filterMap DirEntry.proto?)) (lib : Libraries) (fuel : Nat) (cfg : Config)
    (table : Table) : run lib fuel cfg (parseDir entries) table = run lib fuel cfg (parseDir entries') table := by
  have hentries := (exact_registryOf hdistinct hextend (.refl _)).sameEntries (exact_registryOf hdistinct hextend hsame)
  rw [parseDir_eq hwalk, parseDir_eq hwalk', run, run]
  simp only [generate_congr hentries]

namespace Sample

/-- The two files in one directory, and moved to others with a file that is no proto next to them. -/
def flat : List DirEntry := [⟨"proto", true, none, none⟩, ⟨"proto/hosts.proto", false, none, some hosts⟩,
  ⟨"proto/routes.proto", false, none, some routes⟩]

def nestedDirs : List DirEntry := [⟨"proto", true, none, none⟩, ⟨"proto/a", true, none, none⟩,
  ⟨"proto/a/routes.proto", false, none, some routes⟩, ⟨"proto/a/notes.txt", false, none, some deprecation⟩,
  ⟨"proto/b", true, none, none⟩, ⟨"proto/b/hosts.proto", false, none, some hosts⟩]

end Sample

theorem moved_files_same_run :
    (parseDir Sample.flat).1.messages.items ≠ (parseDir Sample.nestedDirs).1.messages.items ∧
    run Sample.libraries 5 (Sample.config ["mesh.v1.Host"]) (parseDir Sample.flat) wellKnownSchemas =
      run Sample.libraries 5 (Sample.config ["mesh.v1.Host"]) (parseDir Sample.nestedDirs) wellKnownSchemas := by
  have hsame : (Sample.nestedDirs.filterMap DirEntry.proto?).Perm (Sample.flat.filterMap DirEntry.proto?) :=
    List.Perm.swap Sample.hosts Sample.routes []
  refine ⟨by decide +kernel, layout_immaterial (by decide) (by decide) hsame (by decide +kernel) ?_ _ _ _ _⟩
  exact extendsHarmless_of_none (by decide +kernel)

end EnvoyMesh.CrdGen
