import EnvoyMesh.Theorems.Conversion

/-! # Recursive messages

Every conversion ends, and it is cut exactly at the messages that are being expanded already. -/

namespace EnvoyMesh.CrdGen

/-- The entries of the table keep their initial contents, descriptions apart. -/
def Table.Shaped (table : Table) : Prop := ∀ w, (table w).Like (wellKnownSchemas w)

theorem shaped_wellKnownSchemas : Table.Shaped wellKnownSchemas := fun _ => .refl _

theorem keeps_shaped (reg : Registry) (root : Message) : Keeps reg root Table.Shaped fun _ _ => True where
  like w h := h w
  describes _ _ := trivial
  write {_ _ _ f w table} _ _ _ _ h w' := by
    by_cases hw : w' = w
    · subst hw
      simpa only [Function.update_self] using (h w').describe f.comment
    · simpa only [Function.update_of_ne hw] using h w'

/-- More fuel than there are messages changes nothing: the conversion has ended. -/
theorem messageToSchema_total (reg : Registry) (root : Message) {table : Table} (h : table.Shaped) :
    ∃ s table', (∀ fuel, reg.messages.items.length < fuel → messageToSchema fuel root reg table = some (s, table')) ∧
      table'.Shaped ∧ SchemaFor reg (fun _ _ => True) [] (.fields root) (.new s) := by
  obtain ⟨s, table', hrun, h', hs⟩ := runs_messageToSchema (keeps_shaped reg root) (Nat.lt_succ_self _) h
  exact ⟨s, table', fun fuel hfuel => extends_messageToSchema hfuel root _ _ hrun, h', hs⟩

/-- Where a type is that of a registry message, the expansion is cut exactly if the message is being expanded
    on the path from just below the root. -/
theorem cycle_iff {reg : Registry} {root msg msg' : Message} {path : List String} {visited : Visited} {typeName : String}
    (h : Expands reg root path visited msg) (hk : kind reg msg typeName = .message msg') :
    (resolution typeName msg.package msg.fullName reg visited = .cycle ↔ msg'.fullName ∈ path) ∧
    (resolution typeName msg.package msg.fullName reg visited = .message msg'.fullName msg' ↔ msg'.fullName ∉ path) := by
  obtain ⟨rfl, -, hkeys⟩ := h.visited_eq
  have hs : Scalar.ofName? typeName = none := by
    unfold kind at hk
    split at hk
    · cases hk
    · assumption
  have hres := resolves msg hs hkeys
  rw [hk] at hres
  cases hr : resolution typeName msg.package msg.fullName reg visited with
  | _ =>
    rw [hr] at hres
    cases hres <;> simp_all

/-- For every registry and message the conversion ends with a schema; no message is expanded twice on a path
    below the root, so the nesting is at most one more than the number of messages; and a field of a message
    type is cut exactly if that message is being expanded on the path to the field. -/
theorem expansion_cut_only_on_cycles (reg : Registry) (root : Message) :
    (∀ table : Table, table.Shaped → ∃ s table',
      (∀ fuel, reg.messages.items.length < fuel → messageToSchema fuel root reg table = some (s, table')) ∧
      SchemaFor reg (fun _ _ => True) [] (.fields root) (.new s)) ∧
    ∀ path visited msg, Expands reg root path visited msg →
      path.Nodup ∧ path.length ≤ reg.messages.items.length ∧
      ∀ f ∈ msg.fields, ∀ msg', kind reg msg f.valueType = .message msg' →
        (resolution f.valueType msg.package msg.fullName reg visited = .cycle ↔ msg'.fullName ∈ path) ∧
        (resolution f.valueType msg.package msg.fullName reg visited = .message msg'.fullName msg' ↔
          msg'.fullName ∉ path) := by
  refine ⟨fun table hshaped => ?_,
    fun path visited msg h => ⟨h.visited_eq.2.1, h.length_le, fun f _ msg' hk => cycle_iff h hk⟩⟩
  obtain ⟨s, table', hrun, -, hs⟩ := messageToSchema_total reg root hshaped
  exact ⟨s, table', hrun, hs⟩

end EnvoyMesh.CrdGen
