import Tagwire.Compilation.Error
import Tagwire.Definition

/-!
# The catalog of a compilation

The first two phases of a compilation.  Listing gives every definition its message name and refuses an
identity or a message name that an earlier definition already has.  Checking then looks at each definition
on its own: it has fields, its parent is listed, every field name is an identifier that the mapping to
record keys leaves unchanged, and every record it refers to is listed.
-/

set_option autoImplicit false

namespace Tagwire

/-- A definition with the message name derived from its identity. -/
structure CatalogEntry where
  definition : RecordDefinition
  name : MessageName
deriving DecidableEq

/-- The listed definitions, in the order in which they were given. -/
abbrev Catalog : Type := List CatalogEntry

namespace Catalog

/-- The first entry with an identity, of which there is only one. -/
def get? (catalog : Catalog) (id : RecordId) : Option CatalogEntry :=
  catalog.find? fun e => e.definition.id == id

/-- Is a definition with this identity listed? -/
def contains (catalog : Catalog) (id : RecordId) : Bool := (catalog.get? id).isSome

/-- The message name of a listed identity, and the empty text for any other. -/
def messageName (catalog : Catalog) (id : RecordId) : String :=
  ((catalog.get? id).map (·.name.text)).getD ""

/-- Lists one more definition: its identity and its message name have to be new. -/
def add (catalog : Catalog) (definition : RecordDefinition) : Except CompileError Catalog :=
  if catalog.contains definition.id then .error (.duplicateId definition.id)
  else
    match definition.messageName with
    | .error e => .error (.messageName e)
    | .ok name =>
      match catalog.find? fun e => e.name == name with
      | some other => .error (.duplicateName definition.id name other.definition.id)
      | none => .ok (catalog ++ [⟨definition, name⟩])

/-- Lists definitions in order, up to the first that `add` refuses. -/
def ofDefinitions (definitions : List RecordDefinition) : Except CompileError Catalog :=
  definitions.foldlM add []

/-- The fault of a field name, which has to be an identifier and to come back from `snakeCase` by
`lowerCamel`. -/
def nameFault? (name : String) : Option FieldFault :=
  let key := lowerCamel (snakeCase name)
  if !isIdentifier name then some .notIdentifier
  else if key = name then none
  else some (.changedByMapping key)

/-- The fault of a field: that of its name first, and then that the record it refers to is not listed. -/
def fieldFault? (catalog : Catalog) (field : String × FieldDefinition) : Option FieldFault :=
  match nameFault? field.1 with
  | some fault => some fault
  | none =>
    match field.2.kind with
    | .record target => if catalog.contains target then none else some (.unknownTarget target)
    | _ => none

/-- Reports the first fault among the fields of a definition, with the identity and the field. -/
def checkFields (catalog : Catalog) (id : RecordId) :
    List (String × FieldDefinition) → Except CompileError Unit
  | [] => .ok ()
  | field :: rest =>
    match catalog.fieldFault? field with
    | some fault => .error (.unsupportedField id field.1 fault)
    | none => checkFields catalog id rest

/-- Checks one definition: that it has fields, then that its parent is listed, then its fields in order. -/
def checkDefinition (catalog : Catalog) (definition : RecordDefinition) : Except CompileError Unit :=
  if definition.fields.isEmpty then .error (.emptyDefinition definition.id)
  else
    match definition.parent with
    | some parent =>
      if catalog.contains parent then catalog.checkFields definition.id definition.fields
      else .error (.unknownParent definition.id parent)
    | none => catalog.checkFields definition.id definition.fields

/-- Checks every definition in order, up to the first fault. -/
def check (catalog : Catalog) : Except CompileError Unit :=
  catalog.forM fun e => catalog.checkDefinition e.definition

end Catalog

end Tagwire
