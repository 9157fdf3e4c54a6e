import EnvoyMesh.CrdGen.Registry

/-! # Collecting the declarations (`crd-gen/internal/parser/parser.go`)

The syntax trees are those of `emicklei/proto`, with the elements that the package looks at. -/

namespace EnvoyMesh.CrdGen

/-- The name of a message or an enum. That of an extend block is the extended type, with its dots. -/
structure Name where
  text : String
  ne_empty : text ≠ ""
  deriving DecidableEq

/-- The lines of a comment, if there is one. -/
abbrev Comment := Option (List String)

inductive OneofElement where
  | oneOfField (name type : String) (comment : Comment)
  | other

inductive EnumElement where
  | enumField (name : {v : String // ∀ c ∈ v.toList, isIdentChar c = true})
  | other

inductive Element where
  | package (name : String)
  /-- A message, or with `isExtend` an extend block. -/
  | message (name : Name) (isExtend : Bool) (comment : Comment) (elements : List Element)
  | enum (name : Name) (elements : List EnumElement)
  | normalField (name type : String) (repeated : Bool) (comment : Comment)
  | mapField (name keyType type : String)
  | oneof (elements : List OneofElement)
  /-- Imports, options, services and whatever else the parser reads. -/
  | other

/-! ### Comments -/

/-- `unicode.IsSpace`. -/
def isSpace (c : Char) : Bool :=
  c.toNat ∈ [0x09, 0x0a, 0x0b, 0x0c, 0x0d, 0x20, 0x85, 0xa0, 0x1680, 0x2028, 0x2029, 0x202f, 0x205f, 0x3000] ||
    (0x2000 ≤ c.toNat && c.toNat ≤ 0x200a)

/-- `strings.TrimSpace`. -/
def trimSpace (s : String) : String :=
  String.ofList ((s.toList.dropWhile isSpace).reverse.dropWhile isSpace).reverse

def commentText : Comment → String
  | none => ""
  | some lines => trimSpace (" ".intercalate lines)

/-! ### Elements -/

def qualify (name pkg parentFQN : String) : String :=
  if parentFQN ≠ "" then parentFQN ++ "." ++ name
  else if pkg ≠ "" then pkg ++ "." ++ name
  else name

def addOneofField (fields : List Field) : OneofElement → List Field
  | .oneOfField name type comment => fields ++ [{ name, type, comment := commentText comment }]
  | .other => fields

/-- The fields of a message after one more of its elements. -/
def addFields (fields : List Field) : Element → List Field
  | .normalField name type repeated comment => fields ++ [{ name, type, repeated, comment := commentText comment }]
  | .mapField name keyType type => fields ++ [{ name, type := "map", mapKey := keyType, mapValue := type }]
  | .oneof elements => elements.foldl addOneofField fields
  | _ => fields

/-- The enum after one more of its elements. -/
def Enum.addValue (e : Enum) : EnumElement → Enum
  | .enumField name =>
    { e with
      values := e.values ++ [name.val]
      identifiers := by
        intro v hv
        rcases List.mem_append.mp hv with hv | hv
        · exact e.identifiers v hv
        · exact List.mem_singleton.mp hv ▸ name.property }
  | .other => e

mutual
def collectElement (pkg parentFQN : String) : Element → Registry → Registry
  | .message name _ comment elements, reg =>
    let fqn := qualify name.text pkg parentFQN
    let msg := {
      fullName := fqn
      name := name.text
      package := pkg
      comment := commentText comment
      fields := elements.foldl addFields [] }
    collectElements pkg fqn elements { reg with messages := reg.messages.put msg }
  | .enum name elements, reg =>
    { reg with enums := reg.enums.put (elements.foldl Enum.addValue ⟨qualify name.text pkg parentFQN, [], nofun⟩) }
  | _, reg => reg
def collectElements (pkg parentFQN : String) : List Element → Registry → Registry
  | [], reg => reg
  | e :: elements, reg => collectElements pkg parentFQN elements (collectElement pkg parentFQN e reg)
end

/-! ### Files -/

/-- The name in the first package clause. -/
def packageOf (elements : List Element) : String :=
  (elements.findSome? fun
    | .package name => some name
    | _ => none).getD ""

/-- A file that cannot be opened or parsed has no elements to give, and is skipped. -/
def parseFile (file : Option (List Element)) (reg : Registry) : Registry :=
  match file with
  | none => reg
  | some elements => collectElements (packageOf elements) "" elements reg

/-- What the walk through a directory visits. -/
structure DirEntry where
  path : String
  isDir : Bool
  err : Option String
  /-- What the parser reads in a file. -/
  file : Option (List Element)

def isProto (path : String) : Bool := ".proto".toList.isSuffixOf path.toList

/-- The walk ends with the first error. -/
def parseEntries : List DirEntry → Registry → Registry × Option String
  | [], reg => (reg, none)
  | d :: entries, reg =>
    if d.err.isSome || d.isDir || !isProto d.path then
      match d.err with
      | some err => (reg, some err)
      | none => parseEntries entries reg
    else parseEntries entries (parseFile d.file reg)

def Registry.empty : Registry := ⟨.empty, .empty⟩

/-- `ParseDir`, for the entries of the directory in the order in which `filepath.WalkDir` visits them. -/
def parseDir (entries : List DirEntry) : Registry × Option String := parseEntries entries .empty

end EnvoyMesh.CrdGen
