import Tagwire.Name

/-!
# Why definitions do not compile

Each cause names the definition and the field that have to be changed.  One violation ends the
compilation, so an error is always the first one in the order in which the phases look.
-/

set_option autoImplicit false

namespace Tagwire

/-- What is wrong with a field: its name is no identifier, or not its own record key, or the record that it
refers to is not listed. -/
inductive FieldFault where
  | notIdentifier
  | changedByMapping (key : String)
  | unknownTarget (target : RecordId)
deriving DecidableEq, Repr

namespace FieldFault

/-- The wording of the fault, which for `changedByMapping` suggests another name. -/
def reason : FieldFault → String
  | notIdentifier => "field names must be ASCII identifiers"
  | changedByMapping key =>
    "field name does not survive the protobuf JSON mapping; declare it as '" ++ key ++ "'"
  | unknownTarget target => "references '" ++ target ++ "', which is not part of the compiled set"

end FieldFault

/-- Where a record key was declared first: as that of the implicit type tag, or by a definition. -/
inductive Declarer where
  | implicitTag
  | definition (id : RecordId)
deriving DecidableEq, Repr

namespace Declarer

/-- How a message refers to the declarer. -/
def label : Declarer → String
  | implicitTag => "implicit type tag"
  | definition id => id

end Declarer

/-- Why a list of definitions does not compile, with the identities and names that are at fault. -/
inductive CompileError where
  | messageName (error : NameError)
  | duplicateId (id : RecordId)
  | duplicateName (id : RecordId) (name : MessageName) (other : RecordId)
  | emptyDefinition (id : RecordId)
  | unknownParent (id parent : RecordId)
  | unsupportedField (id : RecordId) (field : String) (fault : FieldFault)
  | cycle (ids : List RecordId)
  | redefinition (id : RecordId) (field : String) (declarer : Declarer)
deriving DecidableEq

namespace CompileError

/-- The wording of the error, with the identities and names that are at fault. -/
def message : CompileError → String
  | messageName error => error.message
  | duplicateId id => "record definition '" ++ id ++ "' appears more than once"
  | duplicateName id name other =>
    "record definition '" ++ id ++ " (message " ++ name.text ++ " also derived from " ++ other
      ++ ")' appears more than once"
  | emptyDefinition id => "empty record definition '" ++ id ++ "' is not allowed"
  | unknownParent id parent =>
    "record definition '" ++ id ++ "' extends '" ++ parent
      ++ "', which is not part of the compiled set"
  | unsupportedField id field fault =>
    "unsupported kind for field '" ++ field ++ "' in '" ++ id ++ "': " ++ fault.reason
  | cycle ids => "cyclic record definitions: " ++ " -> ".intercalate ids
  | redefinition id field declarer =>
    "illegal redefinition of field '" ++ field ++ "' in '" ++ id ++ "' (already declared by '"
      ++ declarer.label ++ "')"

end CompileError

end Tagwire
