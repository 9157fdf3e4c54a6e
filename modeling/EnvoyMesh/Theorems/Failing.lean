import EnvoyMesh.Theorems.Output

/-! # Runs that fail

`Run` stops at the first request that it cannot serve. What it has written by then stays. -/

namespace EnvoyMesh.CrdGen
open Prog

section Failing
variable {lib : Libraries} {fuel : Nat} {cfg : Config} {reg : Registry} {fqn e : String} {fqns : List String}
  {table : Table} {files files' : Files}

theorem requested_subset {front back : List String} {msg : Message} (h : msg ∈ requested reg front) :
    msg ∈ requested reg (front ++ back) := by
  rw [requested, List.filter_append, List.filterMap_append]
  exact List.mem_append_left _ h

/-- Writing manifests touches their paths only. -/
theorem writeAll_of_ne {builts : List Built} {path : String} (h : ∀ b ∈ builts, path ≠ b.path lib cfg) :
    writeAll lib cfg builts files path = files path := by
  rw [writeAll_apply]
  cases hb : Index.byName (Built.path lib cfg) builts path with
  | none => rfl
  | some b =>
    obtain ⟨b', hb', hpath⟩ := Index.byName_isSome.mp (by rw [hb]; rfl)
    exact absurd hpath.symm (h b' hb')

/-- The paths that are written for the requests of a run. -/
def Writes (lib : Libraries) (cfg : Config) (reg : Registry) (path : String) : Prop :=
  ∃ msg ∈ requested reg cfg.messages, path = outPath lib cfg msg

theorem writeAll_of_not_writes {front back : List String} {builts : List Built} {path : String}
    (hmsgs : cfg.messages = front ++ back) (hall : buildAll lib fuel cfg reg (requested reg front) table = some builts)
    (hpath : ¬Writes lib cfg reg path) : writeAll lib cfg builts files path = files path := by
  refine writeAll_of_ne fun b hb heq => hpath ⟨b.msg, ?_, heq⟩
  rw [hmsgs]
  refine requested_subset ?_
  rw [← msg_of_buildAll hall]
  exact List.mem_map_of_mem hb

theorem Stops.frame {path : String} (h : Stops lib fuel cfg reg table fqn files e files') (hfqn : fqn ∈ cfg.messages)
    (hblocked : fqn ∉ blockedMessages) (hpath : ¬Writes lib cfg reg path) : files' path = files path := by
  cases h with
  | notFound | marshal => rfl
  | write msg crd table' data err content hget =>
    refine Function.update_of_ne (fun heq => hpath ⟨msg, ?_, heq⟩) ..
    refine List.mem_filterMap.mpr ⟨fqn, ?_, hget⟩
    exact List.mem_filter.mpr ⟨hfqn, decide_eq_true hblocked⟩

/-- Why a run failed, and what it had done by then: nothing, or it had served the requests before the one that ended it. -/
inductive FailsWith (lib : Libraries) (fuel : Nat) (cfg : Config) (parsed : Registry × Option String) (table : Table)
    (files : Files) : String → Files → Prop where
  | parsing (err : String) (h : parsed.2 = some err) :
      FailsWith lib fuel cfg parsed table files s!"parsing proto directory {lib.quote cfg.protoDir}: {err}" files
  | creating (err : String) (h : parsed.2 = none) :
      FailsWith lib fuel cfg parsed table files s!"creating output directory {lib.quote cfg.outDir}: {err}" files
  | request (front : List String) (fqn : String) (back : List String) (builts : List Built) (e : String) (files' : Files)
      (hmessages : cfg.messages = front ++ fqn :: back) (hblocked : fqn ∉ blockedMessages)
      (hserved : Served lib fuel cfg parsed.1 front table builts)
      (hstops : Stops lib fuel cfg parsed.1 (tableAfter table builts) fqn (writeAll lib cfg builts files) e files') :
      FailsWith lib fuel cfg parsed table files e files'

variable {parsed : Registry × Option String}

theorem run_error (h : (run lib fuel cfg parsed table).Exec Files.Answers files files' (some (.error e))) :
    FailsWith lib fuel cfg parsed table files e files' := by
  match parsed, h with
  | (reg, some err), h =>
    obtain ⟨rfl, heq⟩ := h
    cases heq
    exact .parsing err rfl
  | (reg, none), h =>
    obtain ⟨answer, files₁, hmkdir, h⟩ := h
    obtain rfl : files₁ = files := hmkdir
    cases answer with
    | some err =>
      obtain ⟨rfl, heq⟩ := h
      cases heq
      exact .creating err rfl
    | none =>
      obtain ⟨front, back, builts, hmessages, hserved, hends⟩ := generate_ends h
      cases hends with
      | stopped hblocked hstops => exact .request front _ _ builts e files' hmessages hblocked hserved hstops

theorem FailsWith.frame {path : String} (h : FailsWith lib fuel cfg parsed table files e files')
    (hpath : ¬Writes lib cfg parsed.1 path) : files' path = files path := by
  cases h with
  | parsing | creating => rfl
  | request front fqn back builts e files' hmessages hblocked hserved hstops =>
    have hfqn : fqn ∈ cfg.messages := by simp [hmessages]
    exact (hstops.frame hfqn hblocked hpath).trans (writeAll_of_not_writes hmessages hserved.built hpath)

end Failing

/-- A run ends with a result, touches no file but those of the messages that were requested, and if it fails, it has
    stopped at the first request that it could not serve: the error names it, and the manifests of the requests before it
    have been written as in a run for them alone. -/
theorem run_stops_at_first_failure {lib : Libraries} {fuel : Nat} {cfg : Config} {parsed : Registry × Option String}
    {table : Table} {files files' : Files} {r : Option (Except String Unit)} (hshaped : table.Shaped)
    (hfuel : parsed.1.messages.items.length < fuel)
    (h : (run lib fuel cfg parsed table).Exec Files.Answers files files' r) :
    ∃ result, r = some result ∧ (∀ path, ¬Writes lib cfg parsed.1 path → files' path = files path) ∧
      ∀ e, result = .error e → FailsWith lib fuel cfg parsed table files e files' := by
  obtain ⟨result, rfl⟩ := Option.isSome_iff_exists.mp (run_isSome hshaped hfuel h)
  refine ⟨result, rfl, fun path hpath => ?_, fun e he => run_error (he ▸ h)⟩
  cases result with
  | error e => exact (run_error h).frame hpath
  | ok _ =>
    match parsed, h with
    | (reg, some err), h => cases h.2
    | (reg, none), h =>
      obtain ⟨builts, hserved, rfl⟩ := run_ok h
      exact writeAll_of_not_writes (List.append_nil _).symm hserved.built hpath

/-- The second request of this run is of no message: the manifest of the first one is there, that of the third is not. -/
theorem unknown_message_stops_run :
    ∃ e written, (run Sample.libraries 4
        (Sample.config ["envoy.config.cluster.v3.Cluster", "mesh.v1.Route", "mesh.v1.Filter"])
        (Sample.clusters, none) wellKnownSchemas).Exec Files.Answers (fun _ => none) written (some (.error e)) ∧
      FailsWith Sample.libraries 4 (Sample.config ["envoy.config.cluster.v3.Cluster", "mesh.v1.Route", "mesh.v1.Filter"])
        (Sample.clusters, none) wellKnownSchemas (fun _ => none) e written ∧
      (written "../crds/clusters.mesh.iglin.io.yaml").isSome ∧ written "../crds/filters.mesh.iglin.io.yaml" = none := by
  have hrun := Prog.exec_interp Sample.answers_answer (run Sample.libraries 4
    (Sample.config ["envoy.config.cluster.v3.Cluster", "mesh.v1.Route", "mesh.v1.Filter"]) (Sample.clusters, none)
    wellKnownSchemas) fun _ => none
  obtain ⟨result, hresult, -, hfails⟩ := run_stops_at_first_failure shaped_wellKnownSchemas (by decide) hrun
  have herr : result = .error "message \"mesh.v1.Route\" not found in proto directory — check the fully-qualified name" :=
    Option.some.inj (hresult.symm.trans (by decide +kernel))
  rw [hresult, herr] at hrun
  exact ⟨_, _, hrun, hfails _ herr, by decide +kernel, by decide +kernel⟩

end EnvoyMesh.CrdGen
