import EnvoyMesh.Undisturbed

/-! # Cluster names

`ClusterName` and the snapshot builder read the name of a cluster off the same text with two decoders.
`protojson` looks for the key `name` and discards the keys it does not know; `encoding/json` takes every
key that differs in case only for the same field, and the last one wins. -/

namespace EnvoyMesh

/-- The name that `protojson` reads, which is that of the member `name`; a value that is neither a string
    nor `null` is refused. It also refuses a second `name`, so the first one is the only one. -/
def protoName (members : List (String × Json)) : Option String :=
  match members.find? (·.1 = "name") with
  | none | some (_, .null) => some ""
  | some (_, .str s) => some s
  | some _ => none

/-- What `protojson` does with a Cluster: the text is that of an object, and the name is read as above. -/
def Protojson.ReadsName (pj : Protojson) : Prop :=
  ∀ raw d, pj.cluster raw = .ok d → ∃ members, Json.parse raw = some (.obj members) ∧ protoName members = some d.name

/-- The members that `encoding/json` takes for the field `name`. -/
def nameLike (members : List (String × Json)) : List Json :=
  (members.filter fun m => foldName m.1 = foldName "name").map (·.2)

def isText : Json → Bool
  | .str _ | .null => true
  | _ => false

def text? : Json → Option String
  | .str s => some s
  | _ => none

/-- The last string under a key like `name`, in any case, is the one under `name`; where a value under such
    a key is neither a string nor `null`, there is no string under `name` or it is empty. -/
def SpellsName (members : List (String × Json)) : Prop :=
  ((nameLike members).all isText = true ∧
    ((nameLike members).filterMap text?).getLast?.getD "" = (protoName members).getD "") ∨
  ((nameLike members).all isText = false ∧ (protoName members).getD "" = "")

instance (members : List (String × Json)) : Decidable (SpellsName members) := inferInstanceAs (Decidable (_ ∨ _))

def Raw.members? (raw : Raw) : Option (List (String × Json)) :=
  match Json.parse raw with
  | some (.obj members) => some members
  | _ => none

def Raw.SpellsName (raw : Raw) : Prop := ∀ members ∈ raw.members?, EnvoyMesh.SpellsName members

instance (raw : Raw) : Decidable raw.SpellsName := inferInstanceAs (Decidable (∀ members ∈ raw.members?, _))

theorem decodeNameMember_of_like {key : String} (h : foldName key = foldName "name") (name : String) (value : Json) :
    decodeNameMember name (key, value) = if isText value then some ((text? value).getD name) else none := by
  cases value <;> exact if_pos h

theorem decodeNameMember_of_ne {key : String} (h : foldName key ≠ foldName "name") (name : String) (value : Json) :
    decodeNameMember name (key, value) = some name := if_neg h

/-- The last of the strings wins; a value of another type is an error. -/
theorem foldlM_decodeNameMember (members : List (String × Json)) (name : String) :
    members.foldlM decodeNameMember name =
      if (nameLike members).all isText then some (((nameLike members).filterMap text?).getLast?.getD name) else none := by
  induction members generalizing name with
  | nil => rfl
  | cons m members ih =>
    obtain ⟨key, value⟩ := m
    rw [List.foldlM_cons]
    by_cases hkey : foldName key = foldName "name"
    · have hlike : nameLike ((key, value) :: members) = value :: nameLike members := by simp [nameLike, hkey]
      rw [hlike, decodeNameMember_of_like hkey, List.all_cons]
      by_cases htext : isText value = true
      · rw [if_pos htext, htext, Bool.true_and]
        refine (ih _).trans ?_
        cases ht : text? value <;> simp [ht, List.getLast?_cons]
      · simp [htext]
    · have hlike : nameLike ((key, value) :: members) = nameLike members := by simp [nameLike, hkey]
      rw [hlike, decodeNameMember_of_ne hkey]
      exact ih name

theorem clusterName_of_parse {raw : Raw} {j : Json} (h : Json.parse raw = some j) :
    clusterName raw = (decodeName j).getD "" := by
  have hne : raw ≠ "" := by
    rintro rfl
    have hempty : Json.parse "" = none := by decide +kernel
    rw [hempty] at h
    cases h
  rw [clusterName, if_neg hne, h]
  rfl

/-! ### The reference reader -/

theorem protoName_of_stringField {members : List (String × Json)} {name : String}
    (h : Reference.stringField ["name"] (.obj members) = .ok name) : protoName members = some name := by
  have hfield : Reference.field? ["name"] (.obj members) = (members.find? (·.1 = "name")).map (·.2) := by
    simp [Reference.field?]
  unfold Reference.stringField at h
  rw [hfield] at h
  unfold protoName
  cases hfind : members.find? (·.1 = "name") with
  | none =>
    rw [hfind] at h
    cases h
    rfl
  | some m =>
    obtain ⟨key, value⟩ := m
    rw [hfind] at h
    cases value <;> cases h <;> rfl

theorem Protojson.reference_readsName : Protojson.reference.ReadsName := by
  intro raw d h
  simp only [Protojson.reference, Reference.message] at h
  cases hparse : Json.parse raw with
  | none =>
    rw [hparse] at h
    cases h
  | some j =>
    rw [hparse] at h
    cases j with
    | obj members =>
      refine ⟨members, rfl, ?_⟩
      simp only [bind, Except.bind] at h
      split at h
      · cases h
      · next name hname =>
        refine (protoName_of_stringField hname).trans (congrArg some ?_)
        split at h
        · cases h
        split at h
        · cases h
        · exact congrArg Envoy.Cluster.name (Except.ok.inj h)
    | _ => cases h

/-! ### Agreement -/

/-- The two decoders agree on the name of a cluster exactly if the keys like `name` spell the one name. -/
theorem cluster_names_agree_iff {pj : Protojson} (hpj : pj.ReadsName) {raw : Raw} {d : Envoy.Cluster}
    (h : pj.cluster raw = .ok d) : clusterName raw = d.name ↔ raw.SpellsName := by
  obtain ⟨members, hparse, hname⟩ := hpj raw d h
  have hspells : raw.SpellsName ↔ SpellsName members := by simp [Raw.SpellsName, Raw.members?, hparse]
  rw [hspells, SpellsName, hname, clusterName_of_parse hparse, decodeName, foldlM_decodeNameMember]
  cases (nameLike members).all isText <;> simp

theorem cluster_names_agree_web : ∃ d, Protojson.reference.cluster Sample.web = .ok d ∧
    clusterName Sample.web = d.name := by
  have hread : Protojson.reference.cluster Sample.web = .ok ⟨"web", some .eds, none, Sample.web⟩ := by decide +kernel
  refine ⟨_, hread, (cluster_names_agree_iff Protojson.reference_readsName hread).mpr ?_⟩
  decide +kernel

/-- They do not always agree: a key that differs from `name` in case only is another field for one of them. -/
theorem cluster_names_disagree : ¬∀ (pj : Protojson) (raw : Raw) (d : Envoy.Cluster), pj.ReadsName →
    pj.cluster raw = .ok d → clusterName raw = d.name := by
  intro h
  have hread : Protojson.reference.cluster "\x7b\"name\": \"web\", \"Name\": \"api\"\x7d" =
      .ok ⟨"web", none, none, "\x7b\"name\": \"web\", \"Name\": \"api\"\x7d"⟩ := by decide +kernel
  have hname := h _ _ _ Protojson.reference_readsName hread
  revert hname
  decide +kernel

end EnvoyMesh
