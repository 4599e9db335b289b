import Tagwire.Compilation.Catalog
import Tagwire.Registry

/-!
# The layout of a message

The fields of a message are the type tag, then the fields of the ancestors of its definition from the root
down, and then its own; their numbers are their positions, so the layout of a parent starts that of its
children.  No record key may be declared twice along the way.
-/

set_option autoImplicit false

namespace Tagwire

namespace Catalog

/-- The ancestors of a definition, nearest first, at most `count` of them. -/
def ancestors (catalog : Catalog) : Nat → RecordDefinition → List RecordDefinition
  | 0, _ => []
  | count + 1, definition =>
    match definition.parent.bind catalog.get? with
    | none => []
    | some e => e.definition :: ancestors catalog count e.definition

/-- The definition with all its ancestors, the root first and itself last. -/
def lineage (catalog : Catalog) (definition : RecordDefinition) : List RecordDefinition :=
  (catalog.ancestors catalog.length definition).reverse ++ [definition]

end Catalog

/-- A field together with the identity of the definition that declares it. -/
structure Declaration where
  owner : RecordId
  name : String
  field : FieldDefinition
deriving DecidableEq, Repr

namespace Declaration

/-- The declarations of a lineage: those of the root first, each definition's in its own order. -/
def ofLineage (lineage : List RecordDefinition) : List Declaration :=
  lineage.flatMap fun definition => definition.fields.map fun f => ⟨definition.id, f.1, f.2⟩

/-- Refuses a record key that was declared before; `declared` lists the keys so far. -/
def checkDistinct (declared : List (String × Declarer)) : List Declaration → Except CompileError Unit
  | [] => .ok ()
  | d :: rest =>
    match declared.find? fun e => e.1 == d.name with
    | some first => .error (.redefinition d.owner d.name first.2)
    | none => checkDistinct ((d.name, .definition d.owner) :: declared) rest

end Declaration

namespace Catalog

/-- How a document writes the type of a field: a keyword, a full name, or the message name of a listed
record. -/
def typeName (catalog : Catalog) : FieldKind → String
  | .scalar kind => kind.keyword
  | .wellKnown kind => kind.typeName
  | .record target => catalog.messageName target

/-- The field of a declaration under a number: `snakeCase` of its name in the document, and `lowerCamel` of that
as its record key. -/
def layField (catalog : Catalog) (number : Nat) (d : Declaration) : RegisteredField :=
  let protoName := snakeCase d.name
  { name := lowerCamel protoName
    protoName
    number
    typeName := catalog.typeName d.field.kind
    repeated := d.field.repeated }

/-- Lays out declarations with consecutive numbers from `number` on. -/
def layFields (catalog : Catalog) (number : Nat) : List Declaration → List RegisteredField
  | [] => []
  | d :: rest => catalog.layField number d :: layFields catalog (number + 1) rest

/-- The declarations of a definition, its ancestors' first, if no key among them is declared twice. -/
def declarations (catalog : Catalog) (definition : RecordDefinition) :
    Except CompileError (List Declaration) :=
  let all := Declaration.ofLineage (catalog.lineage definition)
  (Declaration.checkDistinct [(typeField, .implicitTag)] all).map fun _ => all

/-- The fields of the message of some declarations: the type tag with number 1, and then the declared ones from
number 2 on. -/
def layout (catalog : Catalog) (declarations : List Declaration) : List RegisteredField :=
  .typeTag :: catalog.layFields 2 declarations

end Catalog

end Tagwire
