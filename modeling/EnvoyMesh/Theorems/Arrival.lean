import EnvoyMesh.Theorems.Layout
import EnvoyMesh.Theorems.Resources

/-! # From a manifest to the control plane

The two programs meet in the custom resources: the API server checks and prunes them by the schemas that the one
generates, and the other reads what is left into its structs. -/

namespace EnvoyMesh.CrdGen
open Structural GoStruct

/-! ### Reading what is stored -/

section Reading
variable {table : Table} {spec : JSONSchemaProps} {kind : String} {doc : Json}

theorem decode_targetRef_prune (r : TargetRef) (v : Json) :
    decode TargetRef.fields r (prune (Ptr.view table) (.new targetRefSchema) v) = decode TargetRef.fields r v := by
  refine decode_prune_eq ?_ ?_ v
  · simp only [TargetRef.fields, List.forall_mem_cons]
    exact ⟨rfl, rfl, List.forall_mem_nil _⟩
  · simp only [TargetRef.fields, List.forall_mem_cons, readString_prune]
    exact ⟨fun _ _ _ => trivial, fun _ _ _ => trivial, List.forall_mem_nil _⟩

theorem decode_serviceRef_prune (r : KubernetesServiceRef) (v : Json) :
    decode KubernetesServiceRef.fields r (prune (Ptr.view table) (.new serviceRefSchema) v) =
      decode KubernetesServiceRef.fields r v := by
  refine decode_prune_eq ?_ ?_ v
  · simp only [KubernetesServiceRef.fields, List.forall_mem_cons]
    exact ⟨rfl, rfl, rfl, List.forall_mem_nil _⟩
  · simp only [KubernetesServiceRef.fields, List.forall_mem_cons, readString_prune]
    refine ⟨fun _ _ _ => trivial, fun _ _ _ => trivial, fun c r v => ?_, List.forall_mem_nil _⟩
    rw [readPointer_prune fun _ v => readInt32_prune v]

theorem child_targetRef (spec : JSONSchemaProps) (kind : String) :
    ((Ptr.new (topLevelSchema spec (kindExtraProps kind))).view table).child "targetRef" = some (.new targetRefSchema) :=
  (isObject_resource spec kind).child_eq_some.mpr ⟨_, rfl, targetRef_mem spec kind⟩

theorem child_spec (spec : JSONSchemaProps) (kind : String) :
    ((Ptr.new (topLevelSchema spec (kindExtraProps kind))).view table).child "spec" = some (.new spec) :=
  (isObject_resource spec kind).child_eq_some.mpr ⟨_, rfl, spec_mem spec kind⟩

theorem child_serviceRef (spec : JSONSchemaProps) :
    ((Ptr.new (topLevelSchema spec (kindExtraProps "Cluster"))).view table).child "kubernetesServiceRef" =
      some (.new serviceRefSchema) :=
  (isObject_resource spec "Cluster").child_eq_some.mpr ⟨_, rfl, serviceRef_mem spec⟩

/-- The fields of a resource, read from the pruned document: only the spec is not what it was. -/
theorem pruned_fields (write : Json → Raw) :
    (XDSResource.fields write).map
        (GoStruct.Field.pruned (Ptr.view table) (.new (topLevelSchema spec (kindExtraProps kind)))) =
      XDSResource.fields fun v => write (prune (Ptr.view table) (.new spec) v) := by
  simp only [XDSResource.fields, List.map_cons, List.map_nil, GoStruct.Field.pruned, pruneMember, child_targetRef,
    child_spec, decode_targetRef_prune]
  congr 3
  funext x v
  cases v <;> rfl

theorem pruned_fields_cluster (write : Json → Raw) :
    (Cluster.fields write).map
        (GoStruct.Field.pruned (Ptr.view table) (.new (topLevelSchema spec (kindExtraProps "Cluster")))) =
      Cluster.fields fun v => write (prune (Ptr.view table) (.new spec) v) := by
  have hfields : XDSResource.fields (fun v => write (prune (Ptr.view table) (.new spec) v)) =
      (XDSResource.fields write).map
        (GoStruct.Field.pruned (Ptr.view table) (.new (topLevelSchema spec (kindExtraProps "Cluster")))) :=
    (pruned_fields write).symm
  rw [Cluster.fields, Cluster.fields, List.map_cons, hfields, List.map_map, List.map_map]
  refine congrArg₂ List.cons ?_ rfl
  simp only [GoStruct.Field.pruned, pruneMember, child_serviceRef, readPointer_prune decode_serviceRef_prune]

theorem known_fields (write : Json → Raw) : ∀ f ∈ XDSResource.fields write,
    (((Ptr.new (topLevelSchema spec (kindExtraProps kind))).view table).child f.name).isSome := by
  simp only [XDSResource.fields, List.forall_mem_cons]
  exact ⟨Option.isSome_of_eq_some (child_targetRef spec kind), Option.isSome_of_eq_some (child_spec spec kind),
    List.forall_mem_nil _⟩

/-- What is read from the pruned document is what is read from the document itself, but for the spec. -/
theorem read_prune (write : Json → Raw) (metadata : ObjectMeta) (doc : Json) :
    XDSResource.read write metadata (prune (Ptr.view table) (.new (topLevelSchema spec (kindExtraProps kind))) doc) =
      XDSResource.read (fun v => write (prune (Ptr.view table) (.new spec) v)) metadata doc := by
  rw [XDSResource.read, decode_prune (known_fields write), pruned_fields]
  rfl

theorem read_prune_cluster (write : Json → Raw) (metadata : ObjectMeta) (doc : Json) :
    Cluster.read write metadata (prune (Ptr.view table) (.new (topLevelSchema spec (kindExtraProps "Cluster"))) doc) =
      Cluster.read (fun v => write (prune (Ptr.view table) (.new spec) v)) metadata doc := by
  have hknown : ∀ f ∈ Cluster.fields write,
      (((Ptr.new (topLevelSchema spec (kindExtraProps "Cluster"))).view table).child f.name).isSome := by
    simp only [Cluster.fields, List.forall_mem_cons, List.forall_mem_map]
    exact ⟨Option.isSome_of_eq_some (child_serviceRef spec), known_fields write⟩
  rw [Cluster.read, decode_prune hknown, pruned_fields_cluster]
  rfl

theorem reads_spec (write : Json → Raw) (x : XDSResource) (v : Json) : ∃ x' : XDSResource,
    (match v with
      | .null => some x
      | v => some { x with spec := write v }) = some x' := by
  cases v <;> exact ⟨_, rfl⟩

theorem readable_fields (write : Json → Raw) : ∀ f ∈ XDSResource.fields write,
    ∃ q, (f.name, q) ∈ (topLevelSchema spec (kindExtraProps kind)).properties ∧
      ∀ v, Admits table (.new q) v → ∀ x, ∃ x', f.set x v = some x' := by
  simp only [XDSResource.fields, List.forall_mem_cons]
  refine ⟨⟨_, targetRef_mem spec kind, fun v hv x => ?_⟩, ⟨_, spec_mem spec kind, fun v _ x => reads_spec write x v⟩,
    List.forall_mem_nil _⟩
  obtain ⟨r, hr⟩ := reads_targetRef hv x.targetRef
  exact ⟨_, congrArg (Option.map _) hr⟩

/-- A resource can be read from every document that is admitted. -/
theorem reads_resource (h : Admits table (.new (topLevelSchema spec (kindExtraProps kind))) doc) (write : Json → Raw)
    (metadata : ObjectMeta) : ∃ x, XDSResource.read write metadata doc = some x := by
  have hfields : ∀ f ∈ XDSResource.fields write,
      ∃ q, (f.name, q) ∈ (topLevelSchema spec (kindExtraProps kind)).properties ∧
        ∀ v, Admits table (.new q) v → ∀ x, True → ∃ x', f.set x v = some x' ∧ True := by
    intro f hf
    obtain ⟨q, hq, hset⟩ := readable_fields write f hf
    exact ⟨q, hq, fun v hv x _ => by simpa using hset v hv x⟩
  obtain ⟨x, hx, -⟩ := (isObject_resource spec kind).decode_admitted hfields h trivial
  exact ⟨x, hx⟩

/-- So can a Cluster, with a port number for the port of its Service. -/
theorem reads_cluster (h : Admits table (.new (topLevelSchema spec (kindExtraProps "Cluster"))) doc) (write : Json → Raw)
    (metadata : ObjectMeta) :
    ∃ c, Cluster.read write metadata doc = some c ∧ ∀ r, c.kubernetesServiceRef = some r → r.PortInRange := by
  refine (isObject_resource spec "Cluster").decode_admitted
    (P := fun c : Cluster => ∀ r, c.kubernetesServiceRef = some r → r.PortInRange) ?_ h nofun
  simp only [Cluster.fields, List.forall_mem_cons, List.forall_mem_map]
  refine ⟨⟨_, serviceRef_mem spec, fun v hv c hc => ?_⟩, fun f hf => ?_⟩
  · have hold : (c.kubernetesServiceRef.getD .zero).PortInRange := by
      cases hr : c.kubernetesServiceRef with
      | none => exact fun p hp => nomatch hp
      | some r => exact hc r hr
    obtain ⟨r, hr, hport⟩ := reads_serviceRef hv hold
    refine ⟨{ c with kubernetesServiceRef := some r }, ?_, fun r' hr' => ?_⟩
    · obtain ⟨members, rfl, -⟩ := isObject_serviceRefSchema.admits_iff.mp hv
      change ((decode KubernetesServiceRef.fields (c.kubernetesServiceRef.getD .zero) (.obj members)).map some).map _ = _
      rw [hr]
      rfl
    · cases hr'
      exact hport
  · obtain ⟨q, hq, hset⟩ := readable_fields write f hf
    refine ⟨q, hq, fun v hv c hc => ?_⟩
    obtain ⟨x, hx⟩ := hset v hv c.toXDSResource
    exact ⟨{ c with toXDSResource := x }, congrArg (Option.map _) hx, hc⟩

end Reading

/-! ### Runs -/

/-- The API server accepts the document under the CRD and stores `stored`. -/
def Built.Stores (b : Built) (doc stored : Json) : Prop :=
  ∃ v, b.crd.versions = [v] ∧ Admits b.table (.new v.openAPIV3Schema) doc ∧
    stored = prune (Ptr.view b.table) (.new v.openAPIV3Schema) doc

section Runs
variable {lib : Libraries} {fuel : Nat} {cfg : Config} {reg : Registry} {msgs : List Message} {table : Table}
variable {builts : List Built} {b : Built}

theorem Built.stores_iff (hextra : cfg.kindExtraProps = kindExtraProps) {spec : JSONSchemaProps}
    (hcrd : b.crd = manifest lib b.msg cfg spec) {doc stored : Json} : b.Stores doc stored ↔
      Admits b.table (.new (topLevelSchema spec (kindExtraProps b.msg.name))) doc ∧
        stored = prune (Ptr.view b.table) (.new (topLevelSchema spec (kindExtraProps b.msg.name))) doc := by
  rw [Built.Stores, hcrd]
  simp only [manifest, hextra]
  constructor
  · rintro ⟨v, hv, h⟩
    cases hv
    exact h
  · exact fun h => ⟨_, rfl, h⟩

/-- A run with fuel for every message builds manifests with schemas for the messages. -/
theorem schemaFor_of_buildAll (hshaped : table.Shaped) (hfuel : reg.messages.items.length < fuel)
    (h : buildAll lib fuel cfg reg msgs table = some builts) (hb : b ∈ builts) :
    ∃ spec, b.crd = manifest lib b.msg cfg spec ∧ b.table.Shaped ∧
      SchemaFor reg (fun _ _ => True) [] (.fields b.msg) (.new spec) := by
  induction msgs generalizing table builts with
  | nil =>
    cases h
    cases hb
  | cons msg msgs ih =>
    obtain ⟨spec, table', rest, hspec, hrest, rfl⟩ := buildAll_cons h
    obtain ⟨spec', table'', htotal, hshaped', hfor⟩ := messageToSchema_total reg msg hshaped
    cases hspec.symm.trans (htotal fuel hfuel)
    rcases List.mem_cons.mp hb with rfl | hb
    · exact ⟨spec, rfl, hshaped', hfor⟩
    · exact ih hshaped' hrest hb

/-- A value that is an instance of the message, uses declared fields only and can be expressed in its schema is stored as
    it is as the spec of a resource, with any references that are allowed. -/
theorem stores_instance (hextra : cfg.kindExtraProps = kindExtraProps) {spec : JSONSchemaProps}
    (hcrd : b.crd = manifest lib b.msg cfg spec) (hshaped : b.table.Shaped)
    (hspec : SchemaFor reg (fun _ _ => True) [] (.fields b.msg) (.new spec)) {v : Json}
    (hdeclared : WellFormed reg (.one (.message b.msg)) v) (hinstance : Instance reg (.one (.message b.msg)) v)
    (hexpressible : Expressible reg [] (.fields b.msg) v) {ref : Option KubernetesServiceRef}
    (href : RefAllowed b.msg.name ref) (targetRef : TargetRef) :
    b.Stores (resourceJson ref v targetRef) (resourceJson ref v targetRef) := by
  have hvalid := (hspec.valid_iff hshaped hinstance).mpr hexpressible
  refine (Built.stores_iff hextra hcrd).mpr ⟨admits_resourceJson href (hspec.admits hshaped hvalid) targetRef, ?_⟩
  exact (prune_resourceJson href (hspec.prune hshaped hdeclared) targetRef).symm

theorem Instance.ne_null {msg : Message} {v : Json} (h : Instance reg (.one (.message msg)) v) : v ≠ .null := by
  cases h
  nofun

end Runs

namespace Sample

/-- A walk that finds a file that declares a message named Cluster, and one with an extend block. -/
def clusterDir : List DirEntry := [⟨"proto/cluster.proto", false, none, some [
  .package "envoy.api.v2", .message ⟨"Cluster", by decide⟩ false none [.normalField "name" "string" false none]]⟩,
  ⟨"proto/deprecation.proto", false, none, some deprecation⟩]

def named : Json := .obj [("name", .str "web")]

theorem fieldType_name : oldCluster.field? "name" = some ⟨"name", "string", false, "", "", ""⟩ := by decide +kernel

theorem wellFormed_named (reg : Registry) : WellFormed reg (.one (.message oldCluster)) named := by
  refine .message (fun m hm => ?_) fun m hm f hf => ?_
  · obtain rfl := List.mem_singleton.mp hm
    rw [fieldType_name]
    rfl
  · obtain rfl := List.mem_singleton.mp hm
    exact .atom rfl

theorem instance_named (reg : Registry) : Instance reg (.one (.message oldCluster)) named := by
  refine .message fun m hm f hf _ => ?_
  obtain rfl := List.mem_singleton.mp hm
  obtain rfl := Option.some.inj (fieldType_name.symm.trans hf)
  exact .scalar (t := .string) ⟨"web", rfl⟩

theorem expressible_named (reg : Registry) : Expressible reg [] (.fields oldCluster) named := by
  refine .fields (fun m hm f hf hnull => ?_) fun m hm f hf _ => ?_
  · obtain rfl := List.mem_singleton.mp hm
    cases hnull
  · obtain rfl := List.mem_singleton.mp hm
    obtain rfl := Option.some.inj (fieldType_name.symm.trans hf)
    exact .scalar (t := .string) trivial

/-- The files after a run for the message. -/
def written : Files :=
  ((run libraries 4 (config ["envoy.api.v2.Cluster"]) (parseDir clusterDir) wellKnownSchemas).interp answer
  fun _ => none).2

theorem exec_written : (run libraries 4 (config ["envoy.api.v2.Cluster"]) (parseDir clusterDir) wellKnownSchemas).Exec
    Files.Answers (fun _ => none) written (some (.ok ())) := by
  have hresult : ((run libraries 4 (config ["envoy.api.v2.Cluster"]) (parseDir clusterDir) wellKnownSchemas).interp answer
      fun _ => none).1 = some (.ok ()) := by decide +kernel
  rw [← hresult]
  exact Prog.exec_interp answers_answer _ _

mutual
/-- The text of a value, without spaces. -/
def compact : Json → List Char
  | .null => "null".toList
  | .bool b => (toString b).toList
  | .num literal => literal.toList
  | .str s => Json.quote s
  | .arr items => Json.arrText (compactItems items)
  | .obj members => Json.objText (compactMembers members)
def compactItems : List Json → List (List Char)
  | [] => []
  | v :: items => compact v :: compactItems items
def compactMembers : List (String × Json) → List (String × List Char)
  | [] => []
  | (key, v) :: members => (key, compact v) :: compactMembers members
end

def webMetadata : ObjectMeta := ⟨"web", "default", "1", by decide⟩

def webRef : KubernetesServiceRef := ⟨"web", "", some 8080⟩

theorem refAllowed_web : RefAllowed "Cluster" (some webRef) := by
  intro r hr
  cases hr
  refine ⟨rfl, fun p hp => ?_⟩
  cases hp
  decide

theorem exists_built : ∃ builts b, buildAll libraries 4 (config ["envoy.api.v2.Cluster"]) (parseDir clusterDir).1
      (requested (parseDir clusterDir).1 ["envoy.api.v2.Cluster"]) wellKnownSchemas = some builts ∧ b ∈ builts ∧
    b.msg = oldCluster ∧
    b.Stores (resourceJson (some webRef) named ⟨"edge", ""⟩) (resourceJson (some webRef) named ⟨"edge", ""⟩) := by
  obtain ⟨builts, ⟨hbuilt, -, -⟩, -⟩ := run_ok exec_written
  have hmsgs : builts.map Built.msg = [oldCluster] := (msg_of_buildAll hbuilt).trans (by decide +kernel)
  obtain ⟨b, rest, rfl, hb, -⟩ := List.map_eq_cons_iff.mp hmsgs
  obtain ⟨spec, hcrd, hshaped, hspec⟩ :=
    schemaFor_of_buildAll shaped_wellKnownSchemas (by decide +kernel) hbuilt List.mem_cons_self
  refine ⟨_, b, hbuilt, List.mem_cons_self, hb, ?_⟩
  refine stores_instance rfl hcrd hshaped hspec (hb ▸ wellFormed_named _) (hb ▸ instance_named _) (hb ▸ expressible_named _)
    (hb ▸ refAllowed_web) _

end Sample

/-- Whatever document the API server accepts under a CRD of a run: the control plane can read what is stored of it, with a
    port number for the port of a Service, and what it reads is what the document says, but for a pruned spec. -/
theorem stored_resource_readable {lib : Libraries} {fuel : Nat} {cfg : Config} {reg : Registry} {msgs : List Message}
    {table : Table} {builts : List Built} (hextra : cfg.kindExtraProps = kindExtraProps)
    (hbuilt : buildAll lib fuel cfg reg msgs table = some builts) {b : Built} (hb : b ∈ builts) {doc stored : Json}
    (hstores : b.Stores doc stored) (write : Json → Raw) (metadata : ObjectMeta) :
    ∃ spec, b.crd = manifest lib b.msg cfg spec ∧
      (∃ x, XDSResource.read write metadata stored = some x ∧
        XDSResource.read (fun v => write (prune (Ptr.view b.table) (.new spec) v)) metadata doc = some x) ∧
      (b.msg.name = "Cluster" → ∃ c, Cluster.read write metadata stored = some c ∧
        Cluster.read (fun v => write (prune (Ptr.view b.table) (.new spec) v)) metadata doc = some c ∧
        ∀ r, c.kubernetesServiceRef = some r → r.PortInRange) := by
  obtain ⟨spec, hcrd⟩ := manifest_of_buildAll hbuilt hb
  obtain ⟨hadmits, rfl⟩ := (Built.stores_iff hextra hcrd).mp hstores
  refine ⟨spec, hcrd, ?_, fun hkind => ?_⟩
  · obtain ⟨x, hx⟩ := reads_resource hadmits (fun v => write (prune (Ptr.view b.table) (.new spec) v)) metadata
    exact ⟨x, (read_prune write metadata doc).trans hx, hx⟩
  · rw [hkind] at hadmits ⊢
    obtain ⟨c, hc, hport⟩ := reads_cluster hadmits (fun v => write (prune (Ptr.view b.table) (.new spec) v)) metadata
    exact ⟨c, (read_prune_cluster write metadata doc).trans hc, hc, hport⟩

theorem web_cluster_readable : ∃ (b : Built) (stored : Json) (c : Cluster), b.msg = Sample.oldCluster ∧
    b.Stores (resourceJson (some Sample.webRef) Sample.named ⟨"edge", ""⟩) stored ∧
    Cluster.read (fun v => String.ofList (Sample.compact v)) Sample.webMetadata stored = some c ∧
    c.spec = "\x7b\"name\":\"web\"\x7d" ∧ ∀ r, c.kubernetesServiceRef = some r → r.PortInRange := by
  obtain ⟨builts, b, hbuilt, hb, hmsg, hstores⟩ := Sample.exists_built
  obtain ⟨spec, -, -, hcluster⟩ := stored_resource_readable rfl hbuilt hb hstores
    (fun v => String.ofList (Sample.compact v)) Sample.webMetadata
  obtain ⟨c, hread, -, hport⟩ := hcluster (by rw [hmsg]; rfl)
  have hc := hread.symm.trans (Cluster.read_resourceJson _ Sample.webMetadata (some Sample.webRef)
    (Sample.instance_named .empty).ne_null ⟨"edge", ""⟩)
  refine ⟨b, _, c, hmsg, hstores, hread, ?_, hport⟩
  rw [Option.some.inj hc]
  decide +kernel

end EnvoyMesh.CrdGen
