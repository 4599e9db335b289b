import Tagwire.Entries
import Tagwire.Kind
import Tagwire.Value

/-!
# Message and enumeration types

A linked schema holds every message type and every enumeration under its full name.  The field of a
message refers to other types by full name too, so types may be recursive; linking has made sure that
every name leads somewhere.  A map is a field whose message type is the pair of its key and its value,
which on the wire is all that a map is.
-/

set_option autoImplicit false

namespace Tagwire

/-- The type of a field: a scalar, or an enumeration or a message by its full name. -/
inductive ValueType where
  | scalar (kind : Scalar)
  | enum (name : String)
  | message (name : String)
deriving DecidableEq, Repr, Inhabited

namespace ValueType

/-- The keyword of a scalar, and otherwise the full name. -/
def name : ValueType → String
  | scalar kind => kind.keyword
  | enum name => name
  | message name => name

/-- Can values of the type stand in a packed list?  Strings, bytes and messages cannot. -/
def isPackable : ValueType → Bool
  | scalar .string => false
  | scalar .bytes => false
  | scalar _ => true
  | enum _ => true
  | message _ => false

/-- The zero of a type; of an enumeration it is `firstNumber`, the number of the first value. -/
def zero (firstNumber : Int) : ValueType → Value
  | scalar .double => .double .zero
  | scalar .float => .float .zero
  | scalar .boolean => .bool false
  | scalar .string => .string ""
  | scalar .bytes => .bytes []
  | scalar _ => .int 0
  | enum _ => .int firstNumber
  | message _ => .message []

end ValueType

/-- How many values a field holds: one, a list, or a map of them by key. -/
inductive FieldShape where
  | single
  | list
  | map
deriving DecidableEq, Repr, Inhabited

/-- A field of a message type, with what linking has found out about it: its type, record key, default, and
whether it is told from nothing. -/
structure MessageField where
  name : String
  jsonName : String
  number : Nat
  type : ValueType
  shape : FieldShape := .single
  /-- Is a field that is set to its default told from one that is not set? -/
  presence : Bool := false
  packed : Bool := false
  /-- Is the message of the field delimited by markers, rather than by its length? -/
  grouped : Bool := false
  oneof : Option String := none
  default : Value
deriving Repr, Inhabited

/-- A message type: its full name, and its fields in the order of their declaration. -/
structure MessageType where
  name : String
  fields : List MessageField
deriving Repr, Inhabited

namespace MessageType

/-- The field with a number, if the type has one. -/
def field? (type : MessageType) (number : Nat) : Option MessageField :=
  type.fields.find? fun f => f.number == number

/-- The field that a member of a record sets: the one whose record key it is, or else the one whose own name it
is. -/
def member? (type : MessageType) (key : String) : Option MessageField :=
  match type.fields.find? fun f => f.jsonName == key with
  | some field => some field
  | none => type.fields.find? fun f => f.name == key

/-- The numbers of the fields of the oneof that a field is in, its own among them. -/
def rivals (type : MessageType) (field : MessageField) : List Nat :=
  match field.oneof with
  | none => []
  | some oneof => (type.fields.filter fun f => f.oneof == some oneof).map MessageField.number

/-- Sets a field of a message, and removes the other fields of its oneof. -/
def setField (type : MessageType) (field : MessageField) (value : Value) (values : FieldValues) :
    FieldValues :=
  let others := (type.rivals field).filter (· != field.number)
  FieldValues.set (values.filter fun f => !others.contains f.1) field.number value

end MessageType

/-- An enumeration: its full name, and its values in the order of their declaration. -/
structure EnumType where
  name : String
  values : List (String × Int)
deriving Repr, Inhabited

/-- The types of a linked schema, messages and enumerations by full name. -/
structure Schema where
  messages : Entries MessageType := []
  enums : Entries EnumType := []
deriving Repr, Inhabited

namespace Schema

/-- The message type with a full name. -/
def message? (schema : Schema) (name : String) : Option MessageType :=
  Entries.get? schema.messages name

/-- The enumeration with a full name. -/
def enum? (schema : Schema) (name : String) : Option EnumType := Entries.get? schema.enums name

end Schema

end Tagwire
