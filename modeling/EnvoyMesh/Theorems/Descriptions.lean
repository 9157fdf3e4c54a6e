import EnvoyMesh.Theorems.Cycles

/-! # Descriptions

A comment on a field goes into the schema of the field. Where that schema is an entry of
`wellKnownSchemas`, the comment goes to all later users of the entry. -/

namespace EnvoyMesh.CrdGen

/-- A commented field is described by its comment, and a field of a well-known type without one by nothing. -/
def OwnComment (f : Field) (d : String) : Prop :=
  (f.comment ≠ "" → d = f.comment) ∧ (f.comment = "" → f.wellKnown?.isSome → d = "")

/-- The conversions leave the table as it is, each gives the schema that it gives on its own, and the
    properties are described by the comments of their fields. -/
def NoHiddenState (reg : Registry) (msgs : List Message) : Prop :=
  ∃ ss, (∀ fuel, reg.messages.items.length < fuel →
      convertAll fuel reg msgs wellKnownSchemas = some (ss, wellKnownSchemas)) ∧
    List.Forall₂ (fun msg s =>
      (∀ fuel, reg.messages.items.length < fuel → messageToSchema fuel msg reg wellKnownSchemas =
        some (s, wellKnownSchemas)) ∧
      SchemaFor reg OwnComment [] (.fields msg) (.new s)) msgs ss

/-- No message that is expanded in one of the conversions has a commented field whose schema is shared. -/
def Quiet (reg : Registry) (msgs : List Message) : Prop :=
  ∀ root ∈ msgs, ∀ path visited msg, Expands reg root path visited msg → ∀ f ∈ msg.fields, f.shared?.isSome → f.comment = ""

/-! ### Quiet conversions -/

section Quiet
variable {reg : Registry} {root : Message}

theorem description_wellKnownSchemas (w : WellKnown) : (wellKnownSchemas w).description = "" := by
  cases w <;> rfl

theorem ownComment_of_described {f : Field} {d : String} (h : Described wellKnownSchemas f d) : OwnComment f d := by
  refine ⟨h.commented, fun hc hw => ?_⟩
  cases hs : f.shared? with
  | none => exact h.elements hc hs hw
  | some w => exact (h.shared hc w hs).trans (description_wellKnownSchemas w)

theorem keeps_initial (h : Quiet reg [root]) : Keeps reg root (· = wellKnownSchemas) OwnComment where
  like w h := h ▸ .refl _
  describes h hd := ownComment_of_described (h ▸ hd)
  write hexp hf hw hc _ := absurd (h root List.mem_cons_self _ _ _ hexp _ hf (by rw [hw]; rfl)) hc

theorem messageToSchema_quiet (h : Quiet reg [root]) : ∃ s,
    (∀ fuel, reg.messages.items.length < fuel → messageToSchema fuel root reg wellKnownSchemas =
      some (s, wellKnownSchemas)) ∧
    SchemaFor reg OwnComment [] (.fields root) (.new s) := by
  obtain ⟨s, table', hrun, rfl, hs⟩ := runs_messageToSchema (keeps_initial h) (Nat.lt_succ_self _) rfl
  exact ⟨s, fun fuel hfuel => extends_messageToSchema hfuel root _ _ hrun, hs⟩

theorem noHiddenState_of_quiet {msgs : List Message} (h : Quiet reg msgs) : NoHiddenState reg msgs := by
  induction msgs with
  | nil => exact ⟨[], fun _ _ => rfl, .nil⟩
  | cons msg msgs ih =>
    have hfirst : Quiet reg [msg] := fun root hroot => h root (List.mem_singleton.mp hroot ▸ List.mem_cons_self)
    obtain ⟨s, hrun, hs⟩ := messageToSchema_quiet hfirst
    obtain ⟨ss, hrest, hss⟩ := ih fun root hroot => h root (List.mem_cons_of_mem _ hroot)
    refine ⟨s :: ss, fun fuel hfuel => ?_, .cons ⟨hrun, hs⟩ hss⟩
    exact Option.bind_eq_some_iff.mpr ⟨_, hrun fuel hfuel, Option.bind_eq_some_iff.mpr ⟨_, hrest fuel hfuel, rfl⟩⟩

end Quiet

/-! ### Comments that stay in the table -/

section Marks
variable {reg : Registry} {root msg msg' : Message} {w : WellKnown} {path : List String} {visited : Visited} {table : Table}
variable {f : Field} {n : Nat} {fqn : String}

/-- Something was written into the entry. -/
def Table.Marked (table : Table) (w : WellKnown) : Prop := (table w).description ≠ ""

theorem keeps_marked (reg : Registry) (root : Message) (w : WellKnown) :
    Keeps reg root (fun table => table.Shaped ∧ table.Marked w) fun _ _ => True where
  like w h := h.1 w
  describes _ _ := trivial
  write {_ _ _ f w' table} hexp hf hw hc h := by
    refine ⟨(keeps_shaped reg root).write hexp hf hw hc h.1, ?_⟩
    by_cases hw : w = w'
    · subst hw
      simpa [Table.Marked] using hc
    · simpa [Table.Marked, Function.update_of_ne hw] using h.2

/-- The conversion of the fields of `msg` writes into the entry. -/
def Marks (reg : Registry) (w : WellKnown) (visited : Visited) (msg : Message) (n : Nat) : Prop :=
  ∀ table : Table, table.Shaped →
    Runs (msgSchema n msg reg) ⟨table, visited⟩ fun _ st => st.wellKnownSchemas.Shaped ∧ st.wellKnownSchemas.Marked w

/-- The schema of a message field is a new one, so all that is written comes from the message. -/
theorem runs_fieldSchema_message {convert : Message → Registry → Conv JSONSchemaProps} {Q : Table → Prop}
    (hs : Scalar.ofName? f.valueType = none)
    (hr : resolution f.valueType msg.package msg.fullName reg visited = .message fqn msg')
    (h : Runs (convert msg' reg) ⟨table, visited.insert fqn⟩ fun _ st => Q st.wellKnownSchemas) :
    Runs (fieldSchema convert msg reg f) ⟨table, visited⟩ fun _ st => st.visited = visited ∧ Q st.wellKnownSchemas := by
  have hvalue : Runs (resolveType convert f.valueType false msg.package msg.fullName reg) ⟨table, visited⟩ fun p st =>
      Q st.wellKnownSchemas ∧ ∃ s, p = .new s := by
    refine .bind ?_
    simp only [scalarSchema, hs, Option.map_none, Option.elim_none]
    refine .bind (.read ?_)
    simp only [hr]
    exact .bind (.write (.bind (h.mono fun s st hst => .ret (.ret ⟨hst, s, rfl⟩))))
  refine .bind ((runs_fieldPtr_of_value (P := fun p table => Q table ∧ ∃ s, p = .new s) hvalue).mono fun q st hst => ?_)
  obtain ⟨hvis, _, rfl, hq, s, rfl⟩ := hst
  obtain ⟨s', hs'⟩ : ∃ s', f.wrap (.new s) = .new s' := by
    unfold Field.wrap
    split
    · exact ⟨_, rfl⟩
    · split <;> exact ⟨_, rfl⟩
  rw [hs', Ptr.setDescription, ← apply_ite pure]
  exact .bind (.ret (.bind (.read (.ret ⟨hvis, hq⟩))))

/-- A commented field whose schema is shared writes its comment into the entry. -/
theorem runs_fieldSchema_shared (h : Expands reg root path visited msg)
    (hn : reg.messages.items.length < n + (path.length + 1)) (hf : f ∈ msg.fields) (hw : f.shared? = some w)
    (hc : f.comment ≠ "") (hshaped : table.Shaped) :
    Runs (fieldSchema (msgSchema n) msg reg f) ⟨table, visited⟩ fun _ st =>
      st.visited = visited ∧ st.wellKnownSchemas.Shaped ∧ st.wellKnownSchemas.Marked w := by
  have hptr := runs_fieldPtr (runs_msgSchema (keeps_shaped reg root) n) h hn hf hshaped
  refine .bind (hptr.mono fun fs st hst => ?_)
  obtain ⟨hvis, hshaped, -, hshared, -⟩ := hst
  rw [(hshared w).mpr hw, if_pos hc]
  refine .bind (.bind (.write (.ret (.bind (.read (.ret ⟨hvis, (keeps_shaped reg root).write h hf hw hc hshaped, ?_⟩))))))
  simpa [Table.Marked] using hc

/-- What one field writes is still there after the others. -/
theorem marks_of_field (h : Expands reg root path visited msg) (hn : reg.messages.items.length < n + path.length)
    (hf : f ∈ msg.fields)
    (hmark : ∀ k, reg.messages.items.length < k + (path.length + 1) → ∀ table : Table, table.Shaped →
      Runs (fieldSchema (msgSchema k) msg reg f) ⟨table, visited⟩ fun _ st =>
        st.visited = visited ∧ st.wellKnownSchemas.Shaped ∧ st.wellKnownSchemas.Marked w) :
    Marks reg w visited msg n := by
  have hlen := h.length_le
  obtain ⟨k, rfl⟩ : ∃ k, n = k + 1 := ⟨n - 1, by omega⟩
  have hk : reg.messages.items.length < k + (path.length + 1) := by omega
  intro table hshaped
  refine .bind ((Runs.foldlM (fun front _ st => st.visited = visited ∧ st.wellKnownSchemas.Shaped ∧
    (f ∈ front → st.wellKnownSchemas.Marked w)) ?_ ⟨rfl, hshaped, nofun⟩).mono fun s st hst => ?_)
  · rintro front g s ⟨table, _⟩ hg ⟨rfl, hshaped, hmarked⟩
    by_cases hgf : g = f
    · subst hgf
      exact .bind ((hmark k hk table hshaped).mono fun p st hst => .ret ⟨hst.1, hst.2.1, fun _ => hst.2.2⟩)
    by_cases hfront : f ∈ front
    · have hrun := runs_fieldSchema (keeps_marked reg root w) (runs_msgSchema (keeps_marked reg root w) k) h hk hg
        ⟨hshaped, hmarked hfront⟩
      exact .bind (hrun.mono fun p st hst => .ret ⟨hst.1, hst.2.1.1, fun _ => hst.2.1.2⟩)
    · have hrun := runs_fieldSchema (keeps_shaped reg root) (runs_msgSchema (keeps_shaped reg root) k) h hk hg hshaped
      refine .bind (hrun.mono fun p st hst => .ret ⟨hst.1, hst.2.1, fun hmem => ?_⟩)
      rcases List.mem_append.mp hmem with hmem | hmem
      · exact absurd hmem hfront
      · exact absurd (List.mem_singleton.mp hmem).symm hgf
  · rw [← apply_ite pure]
    exact .ret ⟨hst.2.1, hst.2.2 hf⟩

/-- What the conversion of a message below the root writes is in the table in the end. -/
theorem marks_root (h : Expands reg root path visited msg)
    (hmarks : ∀ n, reg.messages.items.length < n + path.length → Marks reg w visited msg n) (n : Nat)
    (hn : reg.messages.items.length < n) : Marks reg w [] root n := by
  induction h generalizing n with
  | root => exact hmarks n hn
  | @field path visited msg msg' f fqn h hf hs hr ih =>
    refine ih (fun n hn => marks_of_field h hn hf fun k hk table hshaped => ?_) n hn
    exact runs_fieldSchema_message (Q := fun table => table.Shaped ∧ table.Marked w) hs hr (hmarks k hk table hshaped)

theorem marks_of_noisy (h : Expands reg root path visited msg) (hf : f ∈ msg.fields) (hw : f.shared? = some w)
    (hc : f.comment ≠ "") (hn : reg.messages.items.length < n) : Marks reg w [] root n := by
  refine marks_root h (fun n hn => marks_of_field h hn hf fun k hk table hshaped => ?_) n hn
  exact runs_fieldSchema_shared h hk hf hw hc hshaped

theorem runs_messageToSchema_of_marks (hmarks : Marks reg w [] root n) (hshaped : table.Shaped) :
    Runs (messageToSchema n root reg) table fun _ table' => table'.Shaped ∧ table'.Marked w := by
  obtain ⟨s, st, hrun, hst⟩ := hmarks table hshaped
  exact ⟨s, st.wellKnownSchemas, by rw [messageToSchema, hrun]; rfl, hst⟩

theorem runs_convertAll {msgs : List Message} (hn : reg.messages.items.length < n)
    (h : table.Shaped ∧ (table.Marked w ∨ ∃ root ∈ msgs, Marks reg w [] root n)) :
    Runs (convertAll n reg msgs) table fun _ table' => table'.Marked w := by
  induction msgs generalizing table with
  | nil =>
    obtain ⟨-, hmarked | ⟨_, hmem, -⟩⟩ := h
    · exact .ret hmarked
    · cases hmem
  | cons msg msgs ih =>
    suffices hfirst : Runs (messageToSchema n msg reg) table fun _ table' =>
        table'.Shaped ∧ (table'.Marked w ∨ ∃ root ∈ msgs, Marks reg w [] root n) from
      .bind (hfirst.mono fun s t ht => .bind ((ih ht).mono fun ss t' hmarked => .ret hmarked))
    obtain ⟨hshaped, hmarked | ⟨root, hroot, hmarks⟩⟩ := h
    · have hrun := runs_messageToSchema (keeps_marked reg msg w) hn ⟨hshaped, hmarked⟩
      exact hrun.mono fun _ _ ht => ⟨ht.1.1, Or.inl ht.1.2⟩
    rcases List.mem_cons.mp hroot with rfl | hroot
    · exact (runs_messageToSchema_of_marks hmarks hshaped).mono fun _ _ ht => ⟨ht.1, Or.inl ht.2⟩
    · have hrun := runs_messageToSchema (keeps_shaped reg msg) hn hshaped
      exact hrun.mono fun _ _ ht => ⟨ht.1, Or.inr ⟨root, hroot, hmarks⟩⟩

end Marks

/-- A sequence of conversions has no hidden state exactly if none of the messages that it expands has a
    commented field, neither repeated nor a map, of a well-known type. -/
theorem no_hidden_state_iff (reg : Registry) (msgs : List Message) : NoHiddenState reg msgs ↔ Quiet reg msgs := by
  refine ⟨?_, noHiddenState_of_quiet⟩
  rintro ⟨ss, hrun, -⟩ root hroot path visited msg h f hf hshared
  obtain ⟨w, hw⟩ := Option.isSome_iff_exists.mp hshared
  by_contra hc
  have hn := Nat.lt_succ_self reg.messages.items.length
  have hmarks := marks_of_noisy h hf hw hc hn
  have hmarked := (runs_convertAll hn ⟨shaped_wellKnownSchemas, Or.inr ⟨root, hroot, hmarks⟩⟩).of_eq (hrun _ hn)
  exact hmarked (description_wellKnownSchemas w)

namespace Sample

/-- Two durations, of which only the first has a comment. -/
def retry : Message where
  fullName := "mesh.v1.Retry"
  name := "Retry"
  package := "mesh.v1"
  fields := [⟨"timeout", "google.protobuf.Duration", false, "", "", "The upstream timeout."⟩,
    ⟨"interval", "google.protobuf.Duration", false, "", "", ""⟩]

def retries : Registry := ⟨Store.empty.put retry, .empty⟩

end Sample

/-- The comment on the first duration becomes the description of the second one, too, and stays in the table. -/
theorem hidden_state : ¬∀ (reg : Registry) (msgs : List Message), NoHiddenState reg msgs := by
  intro h
  obtain ⟨ss, hrun, -⟩ := h Sample.retries [Sample.retry]
  have hdesc : (convertAll 2 Sample.retries [Sample.retry] wellKnownSchemas).map (fun r => (r.2 .duration).description) =
      some "The upstream timeout." := by decide +kernel
  rw [hrun 2 (by decide)] at hdesc
  exact absurd ((description_wellKnownSchemas .duration).symm.trans (Option.some.inj hdesc)) (by decide)

end EnvoyMesh.CrdGen
