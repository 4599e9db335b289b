import Tagwire.Bytes
import Tagwire.Kind
import Tagwire.Name
import Tagwire.Number.Binary
import Tagwire.Schema.Type

/-!
# Declarations of a schema document

What a document declares, before any name in it is followed: its messages, enumerations, extensions and
services, in one list each however they are nested, because their full names say where they stand.  The
pair type of a map and the group of its own that an optional scalar forms are declared like any other.
-/

set_option autoImplicit false

namespace Tagwire

namespace Schema

/-- The two versions of the language of schema documents, `proto2` and `proto3`. -/
inductive Dialect where
  | proto2
  | proto3
deriving DecidableEq, Repr, Inhabited

/-- A name within a scope, with a dot between them; the scope `""` adds nothing. -/
def qualified (scope name : String) : String := if scope.isEmpty then name else scope ++ "." ++ name

/-- A step in the name of an option: a plain word, or the path of an extension in parentheses. -/
inductive OptionPart where
  | plain (name : String)
  | custom (path : String)
deriving DecidableEq, Repr, Inhabited

/-- The value of an option as it is written. -/
inductive OptionValue where
  | word (text : String)
  | integer (value : Int)
  | decimal (negative : Bool) (magnitude : Binary64)
  | text (bytes : Bytes)
  | aggregate
deriving DecidableEq, Repr, Inhabited

/-- An option by the steps of its name, with its value. -/
structure OptionSetting where
  path : List OptionPart
  value : OptionValue
deriving DecidableEq, Repr, Inhabited

/-- The label of a field. -/
inductive FieldLabel where
  | optional
  | required
  | repeated
deriving DecidableEq, Repr, Inhabited

/-- The type of a field as it is written: a name is absolute when it begins with a dot. -/
inductive TypeReference where
  | scalar (kind : Scalar)
  | named (path : String)
deriving DecidableEq, Repr, Inhabited

/-- A field as it is written: its name, number, type, label and options, the oneof that it stands in, and
whether it is a group. -/
structure FieldDeclaration where
  name : String
  number : Nat
  type : TypeReference
  shape : FieldShape := .single
  label : Option FieldLabel := none
  oneof : Option String := none
  grouped : Bool := false
  options : List OptionSetting := []
deriving Repr, Inhabited

/-- A oneof, of whose fields at most one is set. -/
structure OneofDeclaration where
  name : String
  options : List OptionSetting := []
deriving Repr, Inhabited

/-- A range of numbers, both ends included. -/
structure NumberRange where
  first : Int
  last : Int
deriving DecidableEq, Repr, Inhabited

namespace NumberRange

/-- Is the number in the range? -/
def contains (range : NumberRange) (n : Int) : Bool := range.first ≤ n && n ≤ range.last

end NumberRange

/-- A message under its full name, with its fields, oneofs, options and ranges of numbers. -/
structure MessageDeclaration where
  name : String
  fields : List FieldDeclaration := []
  oneofs : List OneofDeclaration := []
  reserved : List NumberRange := []
  extensible : List NumberRange := []
  options : List OptionSetting := []
deriving Repr, Inhabited

/-- A value of an enumeration: its name, number and options. -/
structure EnumValueDeclaration where
  name : String
  number : Int
  options : List OptionSetting := []
deriving Repr, Inhabited

/-- An enumeration under its full name.  Its values stand in `scope`, the scope that it stands in itself. -/
structure EnumDeclaration where
  scope : String
  name : String
  values : List EnumValueDeclaration := []
  reserved : List NumberRange := []
  options : List OptionSetting := []
deriving Repr, Inhabited

/-- A field that is added from `scope` to the message `target`. -/
structure ExtensionDeclaration where
  scope : String
  target : String
  field : FieldDeclaration
deriving Repr, Inhabited

/-- A method of a service, with the types of its input and output. -/
structure MethodDeclaration where
  name : String
  input : String
  output : String
  options : List OptionSetting := []
deriving Repr, Inhabited

/-- A service under its full name, with its methods and options. -/
structure ServiceDeclaration where
  name : String
  methods : List MethodDeclaration := []
  options : List OptionSetting := []
deriving Repr, Inhabited

/-- The path of an imported document.  A public import hands its names on to the documents that import this
one. -/
structure Import where
  path : String
  isPublic : Bool := false
deriving DecidableEq, Repr, Inhabited

/-- The declarations of a document, nested ones included: messages, enumerations, extensions and services. -/
structure Declarations where
  messages : List MessageDeclaration := []
  enums : List EnumDeclaration := []
  extensions : List ExtensionDeclaration := []
  services : List ServiceDeclaration := []
deriving Repr, Inhabited

namespace Declarations

/-- The declarations of two parts of a document, kind by kind. -/
def append (a b : Declarations) : Declarations :=
  ⟨a.messages ++ b.messages, a.enums ++ b.enums, a.extensions ++ b.extensions, a.services ++ b.services⟩

/-- Declarations are joined with `++`, kind by kind. -/
instance : Append Declarations := ⟨append⟩

end Declarations

/-- A schema document under the path that it is imported by. -/
structure SchemaFile where
  path : String
  dialect : Dialect := .proto3
  package : String := ""
  imports : List Import := []
  options : List OptionSetting := []
  declarations : Declarations := {}
deriving Repr, Inhabited

/-- The name of the entry type of a map field: `fooBar` and `foo_bar` both give `FooBarEntry`. -/
def entryName (fieldName : String) : String :=
  String.ofList (lowerCamelChars true fieldName.toList) ++ "Entry"

/-- The entry type of a map field, with `key` in field 1 and `value` in field 2. -/
def entryMessage (scope fieldName : String) (key : Scalar) (value : TypeReference) : MessageDeclaration :=
  { name := qualified scope (entryName fieldName)
    fields := [{ name := "key", number := 1, type := .scalar key },
      { name := "value", number := 2, type := value }] }

/-- The oneof `_NAME` that an optional field of the dialect `proto3` forms alone. -/
def ownOneof (fieldName : String) : String := "_" ++ fieldName

end Schema

end Tagwire
