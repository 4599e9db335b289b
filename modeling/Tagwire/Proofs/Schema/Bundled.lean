import Mathlib.Data.List.Nodup
import Tagwire.Schema.Bundled
import Tagwire.Schema.Linking

/-!
# The bundled documents that can be imported

A compiled document imports the bundled documents that declare well-known types.  What it relies on is
collected here, by evaluation: these documents import each other without a cycle, they link, their names
are distinct and stand in one package, and each well-known type is declared where its path says, as a
message or as an enumeration.

Texts are told apart by the numbers that their bytes write, since that is quick to evaluate.
-/

set_option autoImplicit false

namespace Tagwire

/-- Is the well-known type an enumeration? -/
def WellKnown.isEnum : WellKnown → Bool
  | .nullValue | .fieldCardinality | .fieldKind | .syntaxVersion => true
  | _ => false

namespace Schema

namespace Bundled

/-- The ten bundled documents that declare the well-known types. -/
def importable : List SchemaFile :=
  [any, api, duration, empty, fieldMask, sourceContext, struct, timestamp, type, wrappers]

/-- The level of an importable document: 0 if it imports nothing, 1 for `type`, which imports such, and 2 for
`api`, which imports `type`. -/
def importLevel (path : String) : Nat :=
  if path = api.path then 2 else if path = type.path then 1 else 0

/-- The natural that the bytes of a text write, the first byte as the highest.  Texts with different numbers are
different. -/
def textNumber (text : String) : Nat := Bytes.bigEndianValue text.toByteArray.data.toList

/-! ## Documents -/

/-- The function `Bundled.find?` finds each importable document under its path. -/
theorem find?_path : ∀ f ∈ importable, Bundled.find? f.path = some f := by
  intro f hf
  simp only [importable, List.mem_cons, List.not_mem_nil, or_false] at hf
  rcases hf with rfl | rfl | rfl | rfl | rfl | rfl | rfl | rfl | rfl | rfl <;> rfl

/-- The paths of the importable documents are distinct. -/
theorem paths_nodup : (importable.map SchemaFile.path).Nodup := by
  decide

/-- Importable documents with the same path are the same. -/
theorem eq_of_path_eq {f g : SchemaFile} (hf : f ∈ importable) (hg : g ∈ importable)
    (h : f.path = g.path) : f = g :=
  List.inj_on_of_nodup_map paths_nodup hf hg h

/-- The imports of an importable document are distinct and not public, and lead to importable documents of a
lower `importLevel`. -/
theorem imports_spec : ∀ f ∈ importable, (f.imports.map Import.path).Nodup ∧
    ∀ i ∈ f.imports, i.isPublic = false ∧
      ∃ g ∈ importable, g.path = i.path ∧ importLevel g.path < importLevel f.path := by
  decide

/-- The level of a document is at most 2. -/
theorem importLevel_le (path : String) : importLevel path ≤ 2 := by
  unfold importLevel
  split
  · exact Nat.le_refl 2
  · split <;> omega

/-- Each importable document links with the others. -/
theorem link?_isSome : ∀ f ∈ importable, (f.link? importable).isSome = true := by
  decide

/-! ## Names -/

/-- The entry type of a map of a bundled message has a name in the bundled package. -/
theorem name_entryMessage (scope field : String) (key : Scalar) (value : TypeReference) :
    (entryMessage (fullName scope) field key value).name =
      fullName (scope ++ "." ++ entryName field) := by
  simp [entryMessage, qualified, fullName, String.append_assoc]

/-- The entry type of the map of `Struct`, the only map of the importable documents. -/
def fieldsEntry : MessageDeclaration :=
  entryMessage (fullName "Struct") "fields" .string (typeNamed "Value")

/-- The name of `fieldsEntry` is `google.protobuf.Struct.FieldsEntry`. -/
theorem name_fieldsEntry : fieldsEntry.name = fullName "Struct.FieldsEntry" :=
  name_entryMessage "Struct" "fields" .string (typeNamed "Value")

/-- The document of `Struct` declares `fieldsEntry`. -/
theorem fieldsEntry_mem : fieldsEntry ∈ struct.declarations.messages :=
  List.mem_cons_of_mem _ List.mem_cons_self

/-- Each importable document is in the bundled package, has neither extensions nor services, and all names that
it declares are in this package. -/
theorem declarations_spec : ∀ f ∈ importable,
    f.package = WellKnown.package ∧ f.declarations.extensions = [] ∧ f.declarations.services = [] ∧
      (∀ m ∈ f.declarations.messages, ∃ short, m.name = fullName short) ∧
      ∀ e ∈ f.declarations.enums, (∃ short, e.name = fullName short) ∧
        (e.scope = WellKnown.package ∨ ∃ short, e.scope = fullName short) ∧
        (e.values.head?.map EnumValueDeclaration.number) = some 0 := by
  intro f hf
  simp only [importable, List.mem_cons, List.not_mem_nil, or_false] at hf
  rcases hf with rfl | rfl | rfl | rfl | rfl | rfl | rfl | rfl | rfl | rfl
  all_goals
    refine ⟨rfl, rfl, rfl, ?_, ?_⟩
    · simp [any, api, duration, empty, fieldMask, sourceContext, struct, timestamp, type, wrappers,
        document, message, name_entryMessage]
    · simp [any, api, duration, empty, fieldMask, sourceContext, struct, timestamp, type, wrappers,
        document, enum, enumIn]

/-- The names that the importable documents declare are distinct. -/
theorem names_nodup : (importable.flatMap SchemaFile.names).Nodup :=
  List.Nodup.of_map textNumber (by decide +kernel)

/-- Each well-known type is declared in the importable document of its `importPath`, as an enumeration or as a
message. -/
theorem exists_declaration (kind : WellKnown) : ∃ f ∈ importable, f.path = kind.importPath ∧
    if kind.isEnum then kind.typeName ∈ f.declarations.enums.map EnumDeclaration.name
    else kind.typeName ∈ f.declarations.messages.map MessageDeclaration.name := by
  cases kind <;> decide

/-- The name of a well-known enumeration is that of no message of an importable document. -/
theorem typeName_ne_message {kind : WellKnown} (hk : kind.isEnum = true) :
    ∀ f ∈ importable, kind.typeName ∉ f.declarations.messages.map MessageDeclaration.name := by
  cases kind <;> first | (cases hk; done) | decide

end Bundled

end Schema

end Tagwire
