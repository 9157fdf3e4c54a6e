import EnvoyMesh.Theorems.Output
import EnvoyMesh.Theorems.Resources

/-! # What was generated before does not matter

A conversion leaves descriptions behind in the table of well-known schemas, so the manifest of a message depends on the
messages before it. What the API server does with it does not. -/

namespace EnvoyMesh.CrdGen
open Structural

/-- Schemas for the same position, and schemas of resources with such for `spec`. -/
inductive Twin (reg : Registry) : Ptr JSONSchemaProps → Ptr JSONSchemaProps → Prop where
  | refl (p : Ptr JSONSchemaProps) : Twin reg p p
  | position {visited : Visited} {pos : Position} {p p' : Ptr JSONSchemaProps}
      (h : SchemaFor reg (fun _ _ => True) visited pos p) (h' : SchemaFor reg (fun _ _ => True) visited pos p') :
      Twin reg p p'
  | resource {spec spec' : JSONSchemaProps} (h : Twin reg (.new spec) (.new spec')) (extra : ExtraProps) :
      Twin reg (.new (topLevelSchema spec extra)) (.new (topLevelSchema spec' extra))

section Twin
variable {reg : Registry} {visited : Visited} {pos : Position} {p p' : Ptr JSONSchemaProps} {s s' : JSONSchemaProps}

theorem rel_refl (o : Option (Ptr JSONSchemaProps)) : Option.Rel (Twin reg) o o := by
  cases o with
  | none => exact .none
  | some p => exact .some (.refl p)

theorem alike_refl (n : Node (Ptr JSONSchemaProps)) : n.Alike (Twin reg) n :=
  ⟨rfl, rfl, rfl, fun _ => rel_refl _, rel_refl _, rel_refl _, rfl⟩

theorem alike_of_node_eq {n m : Node (Ptr JSONSchemaProps)} (h : n = m) : n.Alike (Twin reg) m := h ▸ alike_refl n

theorem properties_isEmpty (s : JSONSchemaProps) : s.properties.isEmpty = true ↔ ∀ name, s.property? name = none := by
  constructor
  · intro h name
    rw [JSONSchemaProps.property?, List.isEmpty_iff.mp h]
    rfl
  · intro h
    refine List.isEmpty_iff.mpr (List.eq_nil_iff_forall_not_mem.mpr fun q hq => ?_)
    have hnone := List.find?_eq_none.mp (Option.map_eq_none_iff.mp (h q.1)) q hq
    exact hnone (decide_eq_true rfl)

theorem alike_fields {msg : Message} (h : SchemaFor reg (fun _ _ => True) visited (.fields msg) (.new s))
    (h' : SchemaFor reg (fun _ _ => True) visited (.fields msg) (.new s')) : s.node.Alike (Twin reg) s'.node := by
  cases h with
  | fields hs hnames _ hfields =>
    cases h' with
    | fields hs' hnames' _ hfields' =>
      have hempty : s.properties.isEmpty = s'.properties.isEmpty := by
        rw [Bool.eq_iff_iff, properties_isEmpty, properties_isEmpty]
        refine forall_congr' fun name => ?_
        rw [← Option.not_isSome_iff_eq_none, ← Option.not_isSome_iff_eq_none, hnames, hnames']
      have hnode := hs.node_eq
      have hnode' := hs'.node_eq
      refine ⟨?_, ?_, ?_, fun name => ?_, ?_, ?_, ?_⟩
      · exact (congrArg Node.type hnode).trans (congrArg Node.type hnode').symm
      · exact (congrArg Node.format hnode).trans (congrArg Node.format hnode').symm
      · exact (congrArg Node.enum hnode).trans (congrArg Node.enum hnode').symm
      · change Option.Rel (Twin reg) ((s.property? name).map .new) ((s'.property? name).map .new)
        have hsome := (hnames name).trans (hnames' name).symm
        cases hp : s.property? name with
        | none =>
          cases hp' : s'.property? name with
          | none => exact .none
          | some q' =>
            rw [hp, hp'] at hsome
            cases hsome
        | some q =>
          obtain ⟨f, hf⟩ := Option.isSome_iff_exists.mp ((hnames name).symm.trans (by rw [hp]; rfl))
          obtain ⟨q', hq'⟩ := Option.isSome_iff_exists.mp ((hnames' name).trans (by rw [hf]; rfl))
          rw [hq']
          exact .some (.position (hfields name f q hf hp) (hfields' name f q' hf hq'))
      · rw [show s.node.items = none from congrArg Node.items hnode,
          show s'.node.items = none from congrArg Node.items hnode']
        exact .none
      · rw [show s.node.additionalProperties = none from congrArg Node.additionalProperties hnode,
          show s'.node.additionalProperties = none from congrArg Node.additionalProperties hnode']
        exact .none
      · exact ((congrArg Node.preserveUnknownFields hnode).trans hempty).trans
          (congrArg Node.preserveUnknownFields hnode').symm

theorem alike_position (h : SchemaFor reg (fun _ _ => True) visited pos p)
    (h' : SchemaFor reg (fun _ _ => True) visited pos p') :
    (p.view wellKnownSchemas).Alike (Twin reg) (p'.view wellKnownSchemas) := by
  cases h with
  | scalar hs =>
    cases h' with
    | scalar hs' => exact alike_of_node_eq (hs.node_eq.trans hs'.node_eq.symm)
  | shared =>
    cases h' with
    | shared => exact alike_refl _
    | copied hs' => exact alike_of_node_eq hs'.node_eq.symm
  | copied hs =>
    cases h' with
    | shared => exact alike_of_node_eq hs.node_eq
    | copied hs' => exact alike_of_node_eq (hs.node_eq.trans hs'.node_eq.symm)
  | enum hs =>
    cases h' with
    | enum hs' => exact alike_of_node_eq (hs.node_eq.trans hs'.node_eq.symm)
  | unknown hs =>
    cases h' with
    | unknown hs' => exact alike_of_node_eq (hs.node_eq.trans hs'.node_eq.symm)
  | cycle hv hs =>
    cases h' with
    | cycle _ hs' => exact alike_of_node_eq (hs.node_eq.trans hs'.node_eq.symm)
    | message hv' _ => exact absurd hv hv'
  | message hv h =>
    cases h' with
    | cycle hv' _ => exact absurd hv' hv
    | message _ h' => exact alike_fields h h'
  | @list _ _ q s hq hs =>
    cases h' with
    | @list _ _ q' s' hq' hs' =>
      change s.node.Alike _ s'.node
      rw [hs.node_eq, hs'.node_eq]
      exact ⟨rfl, rfl, rfl, fun _ => .none, .some (.position hq hq'), .none, rfl⟩
  | @map _ _ q s hq hs =>
    cases h' with
    | @map _ _ q' s' hq' hs' =>
      change s.node.Alike _ s'.node
      rw [hs.node_eq, hs'.node_eq]
      exact ⟨rfl, rfl, rfl, fun _ => .none, .none, .some (.position hq hq'), rfl⟩
  | fields hs hnames hD hfields =>
    cases h' with
    | fields hs' hnames' hD' hfields' =>
      exact alike_fields (.fields hs hnames hD hfields) (.fields hs' hnames' hD' hfields')

theorem alike_setProperty (h : s.node.Alike (Twin reg) s'.node) (name : String) (q : JSONSchemaProps) :
    (s.setProperty name q).node.Alike (Twin reg) (s'.setProperty name q).node := by
  refine { h with property := fun key => ?_ }
  change Option.Rel _ (((s.setProperty name q).property? key).map Ptr.new)
    (((s'.setProperty name q).property? key).map Ptr.new)
  rw [JSONSchemaProps.property?_setProperty, JSONSchemaProps.property?_setProperty]
  split
  · exact rel_refl _
  · exact h.property key

theorem alike_resource (h : Twin reg (.new s) (.new s')) (extra : ExtraProps) :
    (topLevelSchema s extra).node.Alike (Twin reg) (topLevelSchema s' extra).node := by
  have hfold {l : List (String × JSONSchemaProps)} {t t' : JSONSchemaProps} (h : t.node.Alike (Twin reg) t'.node) :
      (l.foldl (fun s p => s.setProperty p.1 p.2) t).node.Alike (Twin reg)
        (l.foldl (fun s p => s.setProperty p.1 p.2) t').node := by
    induction l generalizing t t' with
    | nil => exact h
    | cons p l ih => exact ih (alike_setProperty h p.1 p.2)
  refine hfold ⟨rfl, rfl, rfl, fun key => ?_, .none, .none, rfl⟩
  simp only [JSONSchemaProps.node, JSONSchemaProps.property?, List.find?_cons]
  by_cases htarget : "targetRef" = key
  · simp only [htarget, decide_true]
    exact rel_refl _
  by_cases hspec : "spec" = key
  · simp only [htarget, hspec, decide_true, decide_false]
    exact .some h
  · simp only [htarget, hspec, decide_false]
    exact rel_refl _

/-- Twins act alike. -/
theorem twin_bisimulation (reg : Registry) :
    Bisimulation (Ptr.view wellKnownSchemas) (Ptr.view wellKnownSchemas) (Twin reg) := by
  intro p p' h
  cases h with
  | refl => exact alike_refl _
  | position h h' => exact alike_position h h'
  | resource h extra => exact alike_resource h extra

theorem constraints_topLevelSchema (spec : JSONSchemaProps) (extra : ExtraProps) :
    (topLevelSchema spec extra).SameConstraints { required := ["targetRef"] } := by
  have hfold {l : List (String × JSONSchemaProps)} {t : JSONSchemaProps} :
      (l.foldl (fun s p => s.setProperty p.1 p.2) t).SameConstraints t := by
    induction l generalizing t with
    | nil => exact ⟨rfl, rfl, rfl⟩
    | cons p l ih => exact ih.trans ⟨rfl, rfl, rfl⟩
  exact hfold.trans ⟨rfl, rfl, rfl⟩

theorem twin_constraints (h : Twin reg p p') :
    (p.get wellKnownSchemas).SameConstraints (p'.get wellKnownSchemas) := by
  cases h with
  | refl => exact ⟨rfl, rfl, rfl⟩
  | position h h' =>
    have hp := h.unconstrained shaped_wellKnownSchemas (.here _ .null)
    have hp' := h'.unconstrained shaped_wellKnownSchemas (.here _ .null)
    exact hp.trans hp'.symm
  | resource _ extra => exact (constraints_topLevelSchema _ extra).trans (constraints_topLevelSchema _ extra).symm

theorem Table.Shaped.constraints {table : Table} (h : table.Shaped) (p : Ptr JSONSchemaProps) :
    (p.get table).SameConstraints (p.get wellKnownSchemas) := by
  cases p with
  | wellKnown w => exact (h w).sameConstraints
  | new s => exact ⟨rfl, rfl, rfl⟩

/-- Whatever descriptions the two tables hold. -/
theorem Twin.admits {table table' : Table} (hshaped : table.Shaped) (hshaped' : table'.Shaped) (h : Twin reg p p')
    (v : Json) : Admits table p v ↔ Admits table' p' v := by
  have hR : Bisimulation (Ptr.view table) (Ptr.view table') (Twin reg) := by
    rw [hshaped.view_eq, hshaped'.view_eq]
    exact twin_bisimulation reg
  have hsame (q q' : Ptr JSONSchemaProps) (hq : Twin reg q q') : (q.get table).SameConstraints (q'.get table') :=
    (hshaped.constraints q).trans ((twin_constraints hq).trans (hshaped'.constraints q').symm)
  exact ⟨.of_bisimulation hR hsame h, .of_bisimulation hR.symm (fun q' q hq => (hsame q q' hq).symm) h⟩

end Twin

section Built
variable {lib : Libraries} {cfg : Config} {reg : Registry}

/-- The last of the CRDs that are built. -/
theorem buildAll_concat {fuel : Nat} (hfuel : reg.messages.items.length < fuel) (msgs : List Message) (msg : Message)
    {table : Table} (hshaped : table.Shaped) : ∃ builts spec table',
    buildAll lib fuel cfg reg (msgs ++ [msg]) table = some (builts ++ [⟨msg, manifest lib msg cfg spec, table'⟩]) ∧
      table'.Shaped ∧ SchemaFor reg (fun _ _ => True) [] (.fields msg) (.new spec) := by
  induction msgs generalizing table with
  | nil =>
    obtain ⟨spec, table', hrun, hshaped', hspec⟩ := messageToSchema_total reg msg hshaped
    refine ⟨[], spec, table', ?_, hshaped', hspec⟩
    rw [List.nil_append, buildAll, buildCRD_of_messageToSchema lib cfg (hrun fuel hfuel)]
    rfl
  | cons first msgs ih =>
    obtain ⟨spec₁, table₁, hrun, hshaped₁, -⟩ := messageToSchema_total reg first hshaped
    obtain ⟨builts, spec, table', hrest, hlast⟩ := ih hshaped₁
    refine ⟨⟨first, manifest lib first cfg spec₁, table₁⟩ :: builts, spec, table', ?_, hlast⟩
    rw [List.cons_append, buildAll, buildCRD_of_messageToSchema lib cfg (hrun fuel hfuel)]
    simp only [hrest, Option.map_some, List.cons_append]

end Built

/-- The manifests differ in their schemas at most, and the API server prunes and admits alike with the two. -/
structure Built.ActAlike (b b' : Built) : Prop where
  head : { b.crd with versions := [] } = { b'.crd with versions := [] }
  schemas : ∃ v v', b.crd.versions = [v] ∧ b'.crd.versions = [v'] ∧
    { v with openAPIV3Schema := {} } = { v' with openAPIV3Schema := {} } ∧
    ∀ x, prune (Ptr.view b.table) (.new v.openAPIV3Schema) x = prune (Ptr.view b'.table) (.new v'.openAPIV3Schema) x ∧
      (Admits b.table (.new v.openAPIV3Schema) x ↔ Admits b'.table (.new v'.openAPIV3Schema) x)

/-- For every registry and message: whatever CRDs are built before it in a run, and whatever in another run, the CRD of the
    message is built in both, and the two act alike on every value. -/
theorem earlier_messages_immaterial (lib : Libraries) (cfg : Config) (reg : Registry) (before before' : List Message)
    (msg : Message) : ∃ builts builts' b b',
    buildAll lib (reg.messages.items.length + 1) cfg reg (before ++ [msg]) wellKnownSchemas = some (builts ++ [b]) ∧
    buildAll lib (reg.messages.items.length + 1) cfg reg (before' ++ [msg]) wellKnownSchemas = some (builts' ++ [b']) ∧
    b.ActAlike b' := by
  obtain ⟨builts, spec, table, hbuilt, hshaped, hspec⟩ :=
    buildAll_concat (Nat.lt_succ_self _) before msg shaped_wellKnownSchemas
  obtain ⟨builts', spec', table', hbuilt', hshaped', hspec'⟩ :=
    buildAll_concat (Nat.lt_succ_self _) before' msg shaped_wellKnownSchemas
  refine ⟨builts, builts', _, _, hbuilt, hbuilt', rfl, _, _, rfl, rfl, rfl, fun x => ?_⟩
  have htwin := Twin.resource (.position hspec hspec') (cfg.kindExtraProps msg.name)
  refine ⟨?_, htwin.admits hshaped hshaped' x⟩
  rw [hshaped.view_eq, hshaped'.view_eq]
  exact (twin_bisimulation reg).prune htwin x

end EnvoyMesh.CrdGen
