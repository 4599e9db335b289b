import Tagwire.Mapping.Scalar
import Tagwire.Time.Duration
import Tagwire.Time.Timestamp
import Tagwire.Wire.Reader
import Tagwire.Wire.Writer

/-!
# Well-known messages as JSON

Some well-known messages have a JSON form of their own: a timestamp and a duration are texts, the paths of
a field mask are joined by commas, a wrapper is the scalar it holds, and a dynamic value is the JSON value
itself.  Each form is tied to one layout of fields, given here; a message of a schema is brought into the
layout and out of it through its bytes, so that it nests no deeper than bytes may.

A dynamic structure is laid out as a list of entries, which is all that its map is on the wire.
-/

set_option autoImplicit false

namespace Tagwire

/-- A well-known type whose JSON form is not the object of its fields. -/
inductive SpecialForm where
  | any
  | timestamp
  | duration
  | fieldMask
  | struct
  | value
  | listValue
  | empty
  | wrapper (kind : Scalar)
deriving DecidableEq, Repr

namespace SpecialForm

/-- The special form of a well-known type, if it has one. -/
def ofWellKnown? : WellKnown → Option SpecialForm
  | .any => some any
  | .timestamp => some timestamp
  | .duration => some duration
  | .fieldMask => some fieldMask
  | .struct => some struct
  | .value => some value
  | .listValue => some listValue
  | .empty => some empty
  | .doubleValue => some (wrapper .double)
  | .floatValue => some (wrapper .float)
  | .int64Value => some (wrapper .int64)
  | .uInt64Value => some (wrapper .uint64)
  | .int32Value => some (wrapper .int32)
  | .uInt32Value => some (wrapper .uint32)
  | .boolValue => some (wrapper .boolean)
  | .stringValue => some (wrapper .string)
  | .bytesValue => some (wrapper .bytes)
  | _ => none

/-- The special form of the message type with a full name; types outside `google.protobuf` have none. -/
def ofTypeName? (name : String) : Option SpecialForm :=
  (WellKnown.ofTypeName? name).bind ofWellKnown?

/-- A singular field of a scalar kind, as the layouts below have it. -/
def scalarField (name : String) (number : Nat) (kind : Scalar) : MessageField :=
  { name, jsonName := name, number, type := .scalar kind, default := (ValueType.scalar kind).zero 0 }

/-- A field of the oneof `kind` of a dynamic value. -/
def choiceField (name : String) (number : Nat) (type : ValueType) : MessageField :=
  { name, jsonName := name, number, type, presence := true, oneof := some "kind", default := type.zero 0 }

/-- A list of messages of the layout with the given name. -/
def messagesField (name : String) (number : Nat) (type : String) : MessageField :=
  { name, jsonName := name, number, type := .message type, shape := .list, default := .list [] }

/-- The fields of the layout, as the bundled document of the type declares them. -/
def fields : SpecialForm → List MessageField
  | any => [scalarField "type_url" 1 .string, scalarField "value" 2 .bytes]
  | timestamp | duration => [scalarField "seconds" 1 .int64, scalarField "nanos" 2 .int32]
  | fieldMask =>
    [{ name := "paths", jsonName := "paths", number := 1, type := .scalar .string, shape := .list,
       default := .list [] }]
  | struct => [messagesField "fields" 1 "Entry"]
  | value =>
    [choiceField "null_value" 1 (.scalar .int32), choiceField "number_value" 2 (.scalar .double),
     choiceField "string_value" 3 (.scalar .string), choiceField "bool_value" 4 (.scalar .boolean),
     choiceField "struct_value" 5 (.message "Struct"), choiceField "list_value" 6 (.message "List")]
  | listValue => [messagesField "values" 1 "Value"]
  | empty => []
  | wrapper kind => [scalarField "value" 1 kind]

/-- The message type of the special form with its `fields`. -/
def layout (form : SpecialForm) : MessageType := ⟨"", form.fields⟩

/-- The message type of an entry of a dynamic structure: `key` in field 1 and `value` in field 2. -/
def entryLayout : MessageType :=
  ⟨"Entry", [scalarField "key" 1 .string,
    { name := "value", jsonName := "value", number := 2, type := .message "Value", presence := true,
      default := .message [] }]⟩

/-- The schema of the layouts that refer to each other: entries, lists, structures and dynamic values. -/
def layouts : Schema :=
  { messages := [("Entry", entryLayout), ("List", listValue.layout), ("Struct", struct.layout),
      ("Value", value.layout)] }

/-- Brings fields in the layout into the shape of a type of a schema, by the bytes that they encode to. -/
def store? (form : SpecialForm) (schema : Schema) (type : MessageType) (values : FieldValues) :
    Option FieldValues :=
  schema.decode? type (layouts.encode form.layout values)

/-- Brings fields of a type of a schema into the layout, by the bytes that they encode to. -/
def load? (form : SpecialForm) (schema : Schema) (type : MessageType) (values : FieldValues) :
    Option FieldValues :=
  layouts.decode? form.layout (schema.encode type values)

end SpecialForm

/-! ## Dynamic values -/

namespace DynamicValue

mutual

/-- The fields of the dynamic value that a JSON value is: null in field 1, a number in 2, a string in 3, a truth
value in 4, an object in 5 and an array in 6. -/
def ofJson : Json → FieldValues
  | .null => [(1, .int 0)]
  | .int n => [(2, .double (.ofInt n))]
  | .float x => [(2, .double x)]
  | .str s => [(3, .string s)]
  | .bool b => [(4, .bool b)]
  | .obj members => [(5, .message [(1, .list (ofMembers members))])]
  | .arr items => [(6, .message [(1, .list (ofItems items))])]

/-- The entries of the dynamic structure that the members of an object are. -/
def ofMembers : List (String × Json) → List Value
  | [] => []
  | (key, json) :: rest => .message [(1, .string key), (2, .message (ofJson json))] :: ofMembers rest

/-- The items of the dynamic list that the items of an array are. -/
def ofItems : List Json → List Value
  | [] => []
  | json :: rest => .message (ofJson json) :: ofItems rest

end

mutual

/-- The JSON value that the fields of a dynamic value are; a number that is not finite has none. -/
def toJson? : Value → Option Json
  | .message [(2, .double x)] => if x.isFinite then some (.float x) else none
  | .message [(3, .string s)] => some (.str s)
  | .message [(4, .bool b)] => some (.bool b)
  | .message [(5, .message fields)] => (toMembers? fields).map Json.ofMembers
  | .message [(6, .message fields)] => (toItems? fields).map Json.arr
  | _ => some .null

/-- The members of an object that a dynamic structure is. -/
def toMembers? : List (Nat × Value) → Option (List (String × Json))
  | [(1, .list entries)] => entriesToMembers? entries
  | _ => some []

/-- The members that the entries of a dynamic structure are, each a `key` and a `value`. -/
def entriesToMembers? : List Value → Option (List (String × Json))
  | [] => some []
  | .message [(1, .string key), (2, value)] :: rest => do
    let json ← toJson? value
    let members ← entriesToMembers? rest
    return (key, json) :: members
  | .message [(2, value)] :: rest => do
    let json ← toJson? value
    let members ← entriesToMembers? rest
    return ("", json) :: members
  | .message [(1, .string key)] :: rest => do
    let members ← entriesToMembers? rest
    return (key, .null) :: members
  | _ :: rest => do
    let members ← entriesToMembers? rest
    return ("", .null) :: members

/-- The items of an array that a dynamic list is. -/
def toItems? : List (Nat × Value) → Option (List Json)
  | [(1, .list items)] => itemsToJson? items
  | _ => some []

/-- The JSON values that the items of a dynamic list are. -/
def itemsToJson? : List Value → Option (List Json)
  | [] => some []
  | item :: rest => do
    let json ← toJson? item
    let jsons ← itemsToJson? rest
    return json :: jsons

end

end DynamicValue

/-! ## Field masks -/

namespace FieldMask

/-- A path of a field mask from the case of record keys into that of field names, `fooBar` into `foo_bar`; one
with an underscore has none. -/
def toSnakeCase : List Char → Option (List Char)
  | [] => some []
  | c :: rest =>
    if c = '_' then none
    else (toSnakeCase rest).map fun cs => if c.isUpper then '_' :: c.toLower :: cs else c :: cs

/-- A path of a field mask from the case of field names into that of record keys, `foo_bar` into `fooBar`; one
that `toSnakeCase` would not bring back has none. -/
def toCamelCase : List Char → Option (List Char)
  | [] => some []
  | '_' :: c :: rest => if c.isLower then (toCamelCase rest).map (c.toUpper :: ·) else none
  | c :: rest => if c = '_' ∨ c.isUpper then none else (toCamelCase rest).map (c :: ·)

/-- The paths that the text of a field mask lists with commas between them; empty ones are dropped. -/
def ofText? (text : String) : Option (List String) :=
  ((text.toList.splitOn ',').filter fun path => !path.isEmpty).mapM fun path =>
    (toSnakeCase path).map String.ofList

/-- Paths behind those that are `listed`, with a comma wherever there is something before it. -/
def join (listed : List Char) : List (List Char) → List Char
  | [] => listed
  | path :: rest => join (if listed.isEmpty then path else listed ++ ',' :: path) rest

/-- The text that lists the paths of a field mask, each by `toCamelCase`. -/
def text? (paths : List String) : Option String :=
  (paths.mapM fun path => toCamelCase path.toList).map fun paths => String.ofList (join [] paths)

end FieldMask

/-! ## The forms -/

namespace SpecialForm

/-- The fields in the layout that a JSON value stands for; an `Any` is read by `Schema.valueOfJson?` instead. -/
def ofJson? (form : SpecialForm) (json : Json) : Option FieldValues :=
  match form, json with
  | timestamp, .str text =>
    (Timestamp.ofText? text).map fun t => [(1, .int t.seconds), (2, .int t.nanos)]
  | duration, .str text => (Duration.ofText? text).map fun d => [(1, .int d.seconds), (2, .int d.nanos)]
  | fieldMask, .str text => (FieldMask.ofText? text).map fun paths => [(1, .list (paths.map .string))]
  | struct, .obj members => some [(1, .list (DynamicValue.ofMembers members))]
  | listValue, .arr items => some [(1, .list (DynamicValue.ofItems items))]
  | value, json => some (DynamicValue.ofJson json)
  | empty, .obj [] => some []
  | wrapper kind, json => (kind.ofJson? json).map fun v => [(1, v)]
  | _, _ => none

/-- The integer under a field number, 0 where there is none. -/
def integerAt (values : FieldValues) (number : Nat) : Int :=
  match FieldValues.get? values number with
  | some (.int n) => n
  | _ => 0

/-- The text under a field number, empty where there is none. -/
def textAt (values : FieldValues) (number : Nat) : String :=
  match FieldValues.get? values number with
  | some (.string s) => s
  | _ => ""

/-- The bytes under a field number, empty where there are none. -/
def bytesAt (values : FieldValues) (number : Nat) : Bytes :=
  match FieldValues.get? values number with
  | some (.bytes b) => b
  | _ => []

/-- The texts of the list under a field number, empty where there is none. -/
def textsAt (values : FieldValues) (number : Nat) : List String :=
  match FieldValues.get? values number with
  | some (.list items) => items.filterMap fun
    | .string s => some s
    | _ => none
  | _ => []

/-- The scalar that a wrapper holds as JSON: a float that is not finite is null, where `Value.scalarJson` names
it. -/
def wrappedJson : Value → Json
  | .double x => if x.isFinite then .float x else .null
  | .float x => if x.isFinite then .float x.widen else .null
  | other => other.scalarJson

/-- The JSON value that fields in the layout stand for; an `Any` is written elsewhere. -/
def toJson? (form : SpecialForm) (values : FieldValues) : Option Json :=
  match form with
  | any => none
  | timestamp =>
    let t : Timestamp := ⟨integerAt values 1, integerAt values 2⟩
    if t.isInRange then some (.str t.text) else none
  | duration =>
    let d : Duration := ⟨integerAt values 1, integerAt values 2⟩
    if d.isInRange then some (.str d.text) else none
  | fieldMask => (FieldMask.text? (textsAt values 1)).map .str
  | struct => (DynamicValue.toMembers? values).map Json.ofMembers
  | listValue => (DynamicValue.toItems? values).map .arr
  | value => DynamicValue.toJson? (.message values)
  | empty => some (.obj [])
  | wrapper kind => some (wrappedJson ((FieldValues.get? values 1).getD ((ValueType.scalar kind).zero 0)))

end SpecialForm

end Tagwire
