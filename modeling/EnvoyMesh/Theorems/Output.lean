import EnvoyMesh.Theorems.Manifests

/-! # What a run leaves in the output directory

The path of a CRD and its name are made from the lower-cased simple name of the message, the requests are by
full name. -/

namespace EnvoyMesh.CrdGen

/-- What `buildCRD` gave for a message, and the table of well-known schemas at that time. -/
structure Built where
  msg : Message
  crd : CustomResourceDefinition
  table : Table

namespace Built

def path (lib : Libraries) (cfg : Config) (b : Built) : String := outPath lib cfg b.msg

/-- The text of the manifest. -/
def text? (lib : Libraries) (b : Built) : Option String := (marshalCRD lib b.table b.crd).toOption

end Built

/-- The CRDs for the messages, built one after the other. -/
def buildAll (lib : Libraries) (fuel : Nat) (cfg : Config) (reg : Registry) : List Message → Table → Option (List Built)
  | [], _ => some []
  | msg :: msgs, table =>
    match buildCRD lib fuel msg cfg reg table with
    | none => none
    | some (crd, table') => (buildAll lib fuel cfg reg msgs table').map (⟨msg, crd, table'⟩ :: ·)

/-- The messages that a run generates CRDs for. -/
def requested (reg : Registry) (fqns : List String) : List Message :=
  (fqns.filter (· ∉ blockedMessages)).filterMap reg.messages.get?

/-- The requests have been served: a CRD was built for each of them that is not blocked, and it has a text. -/
structure Served (lib : Libraries) (fuel : Nat) (cfg : Config) (reg : Registry) (fqns : List String) (table : Table)
    (builts : List Built) : Prop where
  built : buildAll lib fuel cfg reg (requested reg fqns) table = some builts
  names : (requested reg fqns).map Message.fullName = fqns.filter (· ∉ blockedMessages)
  texts : ∀ b ∈ builts, (b.text? lib).isSome

/-- The table of well-known schemas after the CRDs were built. -/
def tableAfter (table : Table) (builts : List Built) : Table := builts.foldl (fun _ b => b.table) table

/-- The ways in which the request `fqn` ends a run, given the table after the requests before it: the text of the error,
    and the files after it. -/
inductive Stops (lib : Libraries) (fuel : Nat) (cfg : Config) (reg : Registry) (table : Table) (fqn : String)
    (files : Files) : String → Files → Prop where
  | notFound (h : reg.messages.get? fqn = none) :
      Stops lib fuel cfg reg table fqn files
        s!"message {lib.quote fqn} not found in proto directory — check the fully-qualified name" files
  | marshal (msg : Message) (crd : CustomResourceDefinition) (table' : Table) (err : String)
      (h : reg.messages.get? fqn = some msg) (hbuild : buildCRD lib fuel msg cfg reg table = some (crd, table'))
      (herr : marshalCRD lib table' crd = .error err) :
      Stops lib fuel cfg reg table fqn files s!"marshaling CRD for {fqn}: {err}" files
  -- the file that could not be written may hold anything
  | write (msg : Message) (crd : CustomResourceDefinition) (table' : Table) (data err : String) (content : Option String)
      (h : reg.messages.get? fqn = some msg) (hbuild : buildCRD lib fuel msg cfg reg table = some (crd, table'))
      (hdata : marshalCRD lib table' crd = .ok data) :
      Stops lib fuel cfg reg table fqn files s!"writing {outPath lib cfg msg}: {err}"
        (Function.update files (outPath lib cfg msg) content)

/-- How a message loop ends that has `back` left: nothing is left, or the next request ends it, or a conversion runs out
    of fuel. -/
inductive Ends (lib : Libraries) (fuel : Nat) (cfg : Config) (reg : Registry) (table : Table) (files : Files) :
    (back : List String) → Files → Option (Except String Unit) → Prop where
  | done : Ends lib fuel cfg reg table files [] files (some (.ok ()))
  | stopped {fqn e : String} {back : List String} {files' : Files} (hblocked : fqn ∉ blockedMessages)
      (hstops : Stops lib fuel cfg reg table fqn files e files') :
      Ends lib fuel cfg reg table files (fqn :: back) files' (some (.error e))
  | outOfFuel {msg : Message} {back : List String} (h : buildCRD lib fuel msg cfg reg table = none) :
      Ends lib fuel cfg reg table files back files none

/-- Each CRD is in the file at its path, with its message for the source, and no two have the same path or the
    same name. -/
structure NothingLost (lib : Libraries) (cfg : Config) (builts : List Built) (files : Files) : Prop where
  written : ∀ b ∈ builts, ∃ text, b.text? lib = some text ∧ files (b.path lib cfg) = some text
  source : ∀ b ∈ builts, b.crd.annotations = [("mesh.iglin.io/proto-source", b.msg.fullName)]
  paths : (builts.map (Built.path lib cfg)).Nodup
  names : (builts.map fun b => b.crd.name).Nodup

section Run
variable {lib : Libraries} {fuel : Nat} {cfg : Config} {reg : Registry} {fqns : List String} {table : Table}
variable {files files' : Files} {builts : List Built} {b : Built} {msg : Message}

theorem buildCRD_eq_some {crd : CustomResourceDefinition} {table' : Table}
    (h : buildCRD lib fuel msg cfg reg table = some (crd, table')) :
    ∃ spec, messageToSchema fuel msg reg table = some (spec, table') ∧ crd = manifest lib msg cfg spec := by
  simp only [buildCRD, bind, StateT.bind] at h
  obtain ⟨⟨spec, t⟩, hspec, h⟩ := Option.bind_eq_some_iff.mp h
  cases h
  exact ⟨spec, hspec, rfl⟩

theorem buildAll_cons {msgs : List Message} (h : buildAll lib fuel cfg reg (msg :: msgs) table = some builts) :
    ∃ spec table' rest, messageToSchema fuel msg reg table = some (spec, table') ∧
      buildAll lib fuel cfg reg msgs table' = some rest ∧ builts = ⟨msg, manifest lib msg cfg spec, table'⟩ :: rest := by
  rw [buildAll] at h
  split at h
  · cases h
  · next crd table' hbuild =>
    obtain ⟨rest, hrest, rfl⟩ := Option.map_eq_some_iff.mp h
    obtain ⟨spec, hspec, rfl⟩ := buildCRD_eq_some hbuild
    exact ⟨spec, table', rest, hspec, hrest, rfl⟩

theorem manifest_of_buildAll {msgs : List Message} (h : buildAll lib fuel cfg reg msgs table = some builts)
    (hb : b ∈ builts) : ∃ spec, b.crd = manifest lib b.msg cfg spec := by
  induction msgs generalizing table builts with
  | nil =>
    cases h
    cases hb
  | cons msg msgs ih =>
    obtain ⟨spec, table', rest, -, hrest, rfl⟩ := buildAll_cons h
    rcases List.mem_cons.mp hb with rfl | hb
    · exact ⟨spec, rfl⟩
    · exact ih hrest hb

theorem msg_of_buildAll {msgs : List Message} (h : buildAll lib fuel cfg reg msgs table = some builts) :
    builts.map Built.msg = msgs := by
  induction msgs generalizing table builts with
  | nil =>
    cases h
    rfl
  | cons msg msgs ih =>
    obtain ⟨spec, table', rest, -, hrest, rfl⟩ := buildAll_cons h
    rw [List.map_cons, ih hrest]

/-- The files after the CRDs were written, one after the other. -/
def writeAll (lib : Libraries) (cfg : Config) (builts : List Built) (files : Files) : Files :=
  builts.foldl (fun files b => Function.update files (b.path lib cfg) (b.text? lib)) files

theorem Served.nil : Served lib fuel cfg reg [] table [] := ⟨rfl, rfl, List.forall_mem_nil _⟩

theorem Served.skip {fqn : String} (h : Served lib fuel cfg reg fqns table builts) (hblocked : fqn ∈ blockedMessages) :
    Served lib fuel cfg reg (fqn :: fqns) table builts := by
  have hreq : requested reg (fqn :: fqns) = requested reg fqns := by simp [requested, hblocked]
  refine ⟨hreq ▸ h.built, ?_, h.texts⟩
  rw [hreq, h.names, List.filter_cons_of_neg (by simpa using hblocked)]

theorem Served.cons {fqn : String} {crd : CustomResourceDefinition} {table' : Table}
    (h : Served lib fuel cfg reg fqns table' builts) (hblocked : fqn ∉ blockedMessages)
    (hget : reg.messages.get? fqn = some msg) (hbuild : buildCRD lib fuel msg cfg reg table = some (crd, table'))
    (htext : (Built.text? lib ⟨msg, crd, table'⟩).isSome) :
    Served lib fuel cfg reg (fqn :: fqns) table (⟨msg, crd, table'⟩ :: builts) := by
  have hreq : requested reg (fqn :: fqns) = msg :: requested reg fqns := by simp [requested, hblocked, hget]
  refine ⟨?_, ?_, List.forall_mem_cons.mpr ⟨htext, h.texts⟩⟩
  · rw [hreq, buildAll, hbuild]
    simp only [h.built, Option.map_some]
  · rw [hreq, List.map_cons, h.names, (Store.get?_eq_some.mp hget).2, List.filter_cons_of_pos (by simpa using hblocked)]

/-- What one round of the message loop does: it skips the message, or the message ends the run, or the conversion runs
    out of fuel, or the CRD is written and the loop goes on. -/
theorem generate_cons {fqn : String} {r : Option (Except String Unit)}
    (h : (generate lib fuel cfg reg (fqn :: fqns) table).Exec Files.Answers files files' r) :
    (fqn ∈ blockedMessages ∧ (generate lib fuel cfg reg fqns table).Exec Files.Answers files files' r) ∨
    Ends lib fuel cfg reg table files (fqn :: fqns) files' r ∨
    ∃ msg crd table', fqn ∉ blockedMessages ∧ reg.messages.get? fqn = some msg ∧
      buildCRD lib fuel msg cfg reg table = some (crd, table') ∧ (Built.text? lib ⟨msg, crd, table'⟩).isSome ∧
      (generate lib fuel cfg reg fqns table').Exec Files.Answers
        (writeAll lib cfg [⟨msg, crd, table'⟩] files) files' r := by
  rw [generate] at h
  by_cases hblocked : fqn ∈ blockedMessages
  · rw [if_pos hblocked] at h
    exact Or.inl ⟨hblocked, h⟩
  rw [if_neg hblocked] at h
  refine Or.inr ?_
  cases hget : reg.messages.get? fqn with
  | none =>
    rw [hget] at h
    obtain ⟨rfl, rfl⟩ := h
    exact Or.inl (.stopped hblocked (.notFound hget))
  | some msg =>
    rw [hget] at h
    cases hbuild : buildCRD lib fuel msg cfg reg table with
    | none =>
      simp only [hbuild] at h
      obtain ⟨rfl, rfl⟩ := h
      exact Or.inl (.outOfFuel hbuild)
    | some built =>
      obtain ⟨crd, table'⟩ := built
      cases hmarshal : marshalCRD lib table' crd with
      | error err =>
        simp only [hbuild, hmarshal] at h
        obtain ⟨rfl, rfl⟩ := h
        exact Or.inl (.stopped hblocked (.marshal msg crd table' err hget hbuild hmarshal))
      | ok data =>
        simp only [hbuild, hmarshal] at h
        obtain ⟨answer, files₁, hwrite, hrest⟩ := h
        cases answer with
        | some err =>
          obtain ⟨rfl, rfl⟩ := hrest
          obtain ⟨content, rfl⟩ := hwrite
          exact Or.inl (.stopped hblocked (.write msg crd table' data err content hget hbuild hmarshal))
        | none =>
          have htext : Built.text? lib ⟨msg, crd, table'⟩ = some data := by
            rw [Built.text?, hmarshal]
            rfl
          have hfiles : files₁ = writeAll lib cfg [⟨msg, crd, table'⟩] files := by
            rw [show files₁ = _ from hwrite, ← htext]
            rfl
          exact Or.inr ⟨msg, crd, table', hblocked, rfl, hbuild, htext ▸ rfl, hfiles ▸ hrest⟩

/-- A message loop serves requests from the front of the list until it ends. -/
theorem generate_ends {r : Option (Except String Unit)}
    (h : (generate lib fuel cfg reg fqns table).Exec Files.Answers files files' r) :
    ∃ front back builts, fqns = front ++ back ∧ Served lib fuel cfg reg front table builts ∧
      Ends lib fuel cfg reg (tableAfter table builts) (writeAll lib cfg builts files) back files' r := by
  induction fqns generalizing table files with
  | nil =>
    obtain ⟨rfl, rfl⟩ := h
    exact ⟨[], [], [], rfl, .nil, .done⟩
  | cons fqn fqns ih =>
    rcases generate_cons h with ⟨hblocked, hrest⟩ | hends | ⟨msg, crd, table', hblocked, hget, hbuild, htext, hrest⟩
    · obtain ⟨front, back, builts, rfl, hserved, hends⟩ := ih hrest
      exact ⟨fqn :: front, back, builts, rfl, hserved.skip hblocked, hends⟩
    · exact ⟨[], fqn :: fqns, [], rfl, .nil, hends⟩
    · obtain ⟨front, back, builts, rfl, hserved, hends⟩ := ih hrest
      exact ⟨fqn :: front, back, _ :: builts, rfl, hserved.cons hblocked hget hbuild htext, hends⟩

/-- What a run without error does. -/
theorem run_ok (h : (run lib fuel cfg (reg, none) table).Exec Files.Answers files files' (some (.ok ()))) :
    ∃ builts, Served lib fuel cfg reg cfg.messages table builts ∧ files' = writeAll lib cfg builts files := by
  obtain ⟨r, files₁, hmkdir, h⟩ := h
  cases r with
  | some err => cases h.2
  | none =>
    cases hmkdir
    obtain ⟨front, back, builts, hmessages, hserved, hends⟩ := generate_ends h
    cases hends
    rw [List.append_nil] at hmessages
    exact ⟨builts, hmessages ▸ hserved, rfl⟩

theorem shaped_tableAfter {msgs : List Message} (hshaped : table.Shaped) (hfuel : reg.messages.items.length < fuel)
    (h : buildAll lib fuel cfg reg msgs table = some builts) : (tableAfter table builts).Shaped := by
  induction msgs generalizing table builts with
  | nil =>
    cases h
    exact hshaped
  | cons msg msgs ih =>
    obtain ⟨spec, table', rest, hspec, hrest, rfl⟩ := buildAll_cons h
    obtain ⟨spec', table'', htotal, hshaped', -⟩ := messageToSchema_total reg msg hshaped
    cases hspec.symm.trans (htotal fuel hfuel)
    change (tableAfter table' rest).Shaped
    exact ih hshaped' hrest

/-- With fuel for a conversion of every message no run is without result. -/
theorem run_isSome {r : Option (Except String Unit)} (hshaped : table.Shaped) (hfuel : reg.messages.items.length < fuel)
    {err : Option String} (h : (run lib fuel cfg (reg, err) table).Exec Files.Answers files files' r) : r.isSome := by
  cases err with
  | some err => exact h.2 ▸ rfl
  | none =>
    obtain ⟨answer, files₁, -, hrest⟩ := h
    cases answer with
    | some err => exact hrest.2 ▸ rfl
    | none =>
      obtain ⟨front, back, builts, -, hserved, hends⟩ := generate_ends hrest
      cases hends with
      | done | stopped => rfl
      | @outOfFuel msg _ hnone =>
        have hshaped' := shaped_tableAfter hshaped hfuel hserved.built
        obtain ⟨spec, table', hspec, -⟩ := messageToSchema_total reg msg hshaped'
        cases hnone.symm.trans (buildCRD_of_messageToSchema lib cfg (hspec fuel hfuel))

/-- At a path is what was written last for it. -/
theorem writeAll_apply (path : String) :
    writeAll lib cfg builts files path = (Index.byName (Built.path lib cfg) builts path).elim (files path)
      (Built.text? lib) :=
  Index.foldl_update_value files

/-! ### Paths and names -/

/-- The name of the CRD for a message. -/
def crdName (lib : Libraries) (cfg : Config) (msg : Message) : String := plural lib msg.name ++ "." ++ cfg.group

theorem crdName_inj (lib : Libraries) (cfg : Config) {m m' : Message} :
    crdName lib cfg m = crdName lib cfg m' ↔ lib.toLower m.name = lib.toLower m'.name := by
  simp [crdName, plural, String.append_left_inj]

theorem isName_crdName (hgroup : '/' ∉ cfg.group.toList) (hname : '/' ∉ (lib.toLower msg.name).toList) :
    SlashPath.IsName (crdName lib cfg msg ++ ".yaml") := by
  refine SlashPath.isName_of_length ?_ ?_
  · rw [String.length_append]
    exact Nat.lt_add_left _ (by decide)
  · simp [crdName, plural, hgroup, hname]

theorem Built.path_eq (h : ∃ spec, b.crd = manifest lib b.msg cfg spec) :
    b.path lib cfg = SlashPath.join [cfg.outDir, b.crd.name ++ ".yaml"] := by
  obtain ⟨spec, hspec⟩ := h
  rw [hspec]
  rfl

/-- Distinct paths are enough. -/
theorem nothingLost_of_paths (hcrd : ∀ b ∈ builts, ∃ spec, b.crd = manifest lib b.msg cfg spec)
    (htexts : ∀ b ∈ builts, (b.text? lib).isSome) (hpaths : (builts.map (Built.path lib cfg)).Nodup) :
    NothingLost lib cfg builts (writeAll lib cfg builts files) where
  written b hb := by
    obtain ⟨text, htext⟩ := Option.isSome_iff_exists.mp (htexts b hb)
    refine ⟨text, htext, ?_⟩
    rw [writeAll_apply, Index.byName_of_nodup hpaths hb, Option.elim_some, htext]
  source b hb := by
    obtain ⟨spec, hspec⟩ := hcrd b hb
    rw [hspec]
    rfl
  paths := hpaths
  names := by
    have hmap : builts.map (Built.path lib cfg) =
        (builts.map fun b => b.crd.name).map fun name => SlashPath.join [cfg.outDir, name ++ ".yaml"] := by
      rw [List.map_map]
      exact List.map_congr_left fun b hb => Built.path_eq (hcrd b hb)
    rw [hmap] at hpaths
    exact hpaths.of_map

theorem nodup_paths_iff {msgs : List Message} (hgroup : '/' ∉ cfg.group.toList)
    (hnames : ∀ msg ∈ msgs, '/' ∉ (lib.toLower msg.name).toList) :
    (msgs.map (outPath lib cfg)).Nodup ↔ (msgs.map fun msg => lib.toLower msg.name).Nodup := by
  have hpath {m m' : Message} (hm : m ∈ msgs) (hm' : m' ∈ msgs) :
      outPath lib cfg m = outPath lib cfg m' ↔ lib.toLower m.name = lib.toLower m'.name := by
    rw [← crdName_inj lib cfg]
    refine ⟨fun h => ?_, fun h => congrArg (fun name => SlashPath.join [cfg.outDir, name ++ ".yaml"]) h⟩
    have hfile := SlashPath.join_inj (isName_crdName hgroup (hnames m hm)) (isName_crdName hgroup (hnames m' hm')) h
    exact (String.append_left_inj _).mp hfile
  simp only [List.Nodup, List.pairwise_map]
  exact List.Pairwise.iff_of_mem fun hm hm' => not_congr (hpath hm hm')

theorem nothingLost_iff_paths {msgs : List Message} (hall : buildAll lib fuel cfg reg msgs table = some builts)
    (htexts : ∀ b ∈ builts, (b.text? lib).isSome) (files : Files) :
    NothingLost lib cfg builts (writeAll lib cfg builts files) ↔ (msgs.map (outPath lib cfg)).Nodup := by
  have hpaths : builts.map (Built.path lib cfg) = msgs.map (outPath lib cfg) := by
    rw [← msg_of_buildAll hall, List.map_map]
    rfl
  rw [← hpaths]
  exact ⟨NothingLost.paths, nothingLost_of_paths (fun _ hb => manifest_of_buildAll hall hb) htexts⟩

/-- A run without error has built a CRD for every message that was requested. Without slashes nothing of this is lost
    exactly if the simple names differ in more than case, and in general exactly if the paths differ. -/
theorem nothing_lost_iff (h : (run lib fuel cfg (reg, none) table).Exec Files.Answers files files' (some (.ok ()))) :
    ∃ builts, buildAll lib fuel cfg reg (requested reg cfg.messages) table = some builts ∧
      (builts.map fun b => b.msg.fullName) = cfg.messages.filter (· ∉ blockedMessages) ∧
      ('/' ∉ cfg.group.toList → (∀ msg ∈ requested reg cfg.messages, '/' ∉ (lib.toLower msg.name).toList) →
        (NothingLost lib cfg builts files' ↔ ((requested reg cfg.messages).map fun msg => lib.toLower msg.name).Nodup)) ∧
      (NothingLost lib cfg builts files' ↔ ((requested reg cfg.messages).map (outPath lib cfg)).Nodup) := by
  obtain ⟨builts, hserved, rfl⟩ := run_ok h
  have hnames : (builts.map fun b => b.msg.fullName) = cfg.messages.filter (· ∉ blockedMessages) := by
    rw [← hserved.names, ← msg_of_buildAll hserved.built, List.map_map]
    rfl
  have hiff := nothingLost_iff_paths hserved.built hserved.texts files
  exact ⟨builts, hserved.built, hnames, fun hgroup hslash => hiff.trans (nodup_paths_iff hgroup hslash), hiff⟩

end Run

namespace Sample

/-- A file system on which every call succeeds. -/
def answer (files : Files) : (c : FileCall) → c.Answer × Files
  | .mkdirAll _ => (none, files)
  | .writeFile path data => (none, Function.update files path (some data))

theorem answers_answer (files : Files) (c : FileCall) : files.Answers c (answer files c).1 (answer files c).2 := by
  cases c <;> rfl

/-- The message of the same name in an older version of the API. -/
def oldCluster : Message where
  fullName := "envoy.api.v2.Cluster"
  name := "Cluster"
  package := "envoy.api.v2"
  fields := [⟨"name", "string", false, "", "", ""⟩]

def clusters : Registry := ⟨((Store.empty.put filter).put cluster).put oldCluster, .empty⟩

/-- A run of the tool in an empty file system. -/
def output (messages : List String) : Option (Except String Unit) × Files :=
  (run libraries 4 (config messages) (clusters, none) wellKnownSchemas).interp answer fun _ => none

/-- The text does not show the schema. -/
theorem text?_eq {b : Built} {cfg : Config} {spec : JSONSchemaProps} (h : b.crd = manifest libraries b.msg cfg spec) :
    b.text? libraries = (marshalCRD libraries wellKnownSchemas (manifest libraries b.msg cfg {})).toOption := by
  rw [Built.text?, h]
  rfl

theorem exec_output (messages : List String) (h : (output messages).1 = some (.ok ())) :
    (run libraries 4 (config messages) (clusters, none) wellKnownSchemas).Exec Files.Answers (fun _ => none)
      (output messages).2 (some (.ok ())) := by
  rw [← h]
  exact Prog.exec_interp answers_answer _ _

end Sample

theorem nothing_lost_cluster_filter :
    ∃ files' builts, (run Sample.libraries 4 (Sample.config ["envoy.config.cluster.v3.Cluster", "mesh.v1.Filter"])
        (Sample.clusters, none) wellKnownSchemas).Exec Files.Answers (fun _ => none) files' (some (.ok ())) ∧
      (builts.map fun b => b.msg.fullName) = ["envoy.config.cluster.v3.Cluster", "mesh.v1.Filter"] ∧
      NothingLost Sample.libraries (Sample.config ["envoy.config.cluster.v3.Cluster", "mesh.v1.Filter"]) builts files' := by
  have hrun := Sample.exec_output ["envoy.config.cluster.v3.Cluster", "mesh.v1.Filter"] (by decide +kernel)
  obtain ⟨builts, -, hfqns, hiff, -⟩ := nothing_lost_iff hrun
  exact ⟨_, builts, hrun, hfqns, (hiff (by decide) (by decide +kernel)).mpr (by decide +kernel)⟩

/-- Something can be lost: two messages of the same simple name are written to one path, and the run returns
    without error. -/
theorem older_cluster_lost : ¬∀ (lib : Libraries) (cfg : Config) (reg : Registry) (fuel : Nat) (files files' : Files)
    (builts : List Built), cfg.messages.Nodup → (∀ fqn ∈ cfg.messages, fqn ∉ blockedMessages) →
    (∀ fqn ∈ cfg.messages, (reg.messages.get? fqn).isSome) → reg.messages.items.length < fuel →
    (run lib fuel cfg (reg, none) wellKnownSchemas).Exec Files.Answers files files' (some (.ok ())) →
    buildAll lib fuel cfg reg (requested reg cfg.messages) wellKnownSchemas = some builts →
    NothingLost lib cfg builts files' := by
  intro h
  have hrun := Sample.exec_output ["envoy.api.v2.Cluster", "envoy.config.cluster.v3.Cluster"] (by decide +kernel)
  obtain ⟨builts, ⟨hall, -, -⟩, -⟩ := run_ok hrun
  have hlost := h _ _ _ _ _ _ builts (by decide) (by decide) (by decide +kernel) (by decide) hrun hall
  have hreq : requested Sample.clusters ["envoy.api.v2.Cluster", "envoy.config.cluster.v3.Cluster"] =
      [Sample.oldCluster, Sample.cluster] := by decide +kernel
  obtain ⟨old, rest, rfl, hold, hrest⟩ := List.map_eq_cons_iff.mp ((msg_of_buildAll hall).trans hreq)
  obtain ⟨new, rest, rfl, hnew, -⟩ := List.map_eq_cons_iff.mp hrest
  have hmemOld : old ∈ old :: new :: rest := List.mem_cons_self
  have hmemNew : new ∈ old :: new :: rest := List.mem_cons_of_mem _ List.mem_cons_self
  -- both are at the one path, so they have one text, although it shows their sources
  obtain ⟨text, htextOld, hfileOld⟩ := hlost.written old hmemOld
  obtain ⟨text', htextNew, hfileNew⟩ := hlost.written new hmemNew
  have hpath (cfg : Config) : old.path Sample.libraries cfg = new.path Sample.libraries cfg := by
    rw [Built.path, Built.path, hold, hnew]
    rfl
  rw [hpath, hfileNew] at hfileOld
  have htext : old.text? Sample.libraries = new.text? Sample.libraries := htextOld.trans (hfileOld.symm.trans htextNew.symm)
  obtain ⟨specOld, hcrdOld⟩ := manifest_of_buildAll hall hmemOld
  obtain ⟨specNew, hcrdNew⟩ := manifest_of_buildAll hall hmemNew
  rw [Sample.text?_eq hcrdOld, Sample.text?_eq hcrdNew, hold, hnew] at htext
  exact absurd htext (by decide +kernel)

end EnvoyMesh.CrdGen
