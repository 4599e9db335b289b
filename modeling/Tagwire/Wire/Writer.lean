import Tagwire.Wire.Scalar

/-!
# Writing messages

A message is the concatenation of its fields in the order of their numbers.  A field that does not tell
its default from nothing is left out while it holds the default; a list of scalars stands in one field
when it is packed and in one field per item when it is not; and a map writes every entry as a message of
its key and its value.
-/

set_option autoImplicit false

namespace Tagwire

namespace MessageField

/-- The key of a field whose value is delimited in a given way. -/
def key (field : MessageField) (type : WireType) : Bytes := WireKey.encode ⟨field.number, type⟩

/-- Is a value of the field left out, because the field has no presence and the value is its default? -/
def omits (field : MessageField) (value : Value) : Bool :=
  !field.presence && field.default.isDefault value

/-- A value of a scalar kind behind its key. -/
def encodeScalar (field : MessageField) (value : Value) : Bytes :=
  match field.type.scalar? with
  | some kind => field.key kind.wireType ++ kind.encode value
  | none => []

/-- The items of a list in one field. -/
def encodePacked (field : MessageField) (items : List Value) : Bytes :=
  match field.type.scalar? with
  | some kind => field.key .lengthDelimited ++ lengthPrefixed (items.flatMap kind.encode)
  | none => []

/-- The body of a message behind the key of its field, and between markers or behind its length. -/
def encodeBody (field : MessageField) (body : Bytes) : Bytes :=
  if field.grouped then field.key .startGroup ++ body ++ field.key .endGroup
  else field.key .lengthDelimited ++ lengthPrefixed body

end MessageField

namespace Schema

mutual

/-- The bytes of a message of a type: those of its set fields in order, where the type has a field with their
number. -/
def encode (schema : Schema) (type : MessageType) : FieldValues → Bytes
  | [] => []
  | (number, value) :: rest =>
    (match type.field? number with
      | some field => schema.encodeField field value
      | none => []) ++ schema.encode type rest

/-- The bytes of a field behind its key, or none where `omits` says so. -/
def encodeField (schema : Schema) (field : MessageField) (value : Value) : Bytes :=
  if field.omits value then []
  else
    match value with
    | .message fields =>
      match schema.message? field.type.name with
      | some type => field.encodeBody (schema.encode type fields)
      | none => []
    | .list items => if field.packed then field.encodePacked items else schema.encodeItems field items
    | .map entries =>
      match schema.message? field.type.name with
      | some type => schema.encodeEntries field (type.field? 1) (type.field? 2) entries
      | none => []
    | scalar => field.encodeScalar scalar

/-- The items of a list, each in a field of its own. -/
def encodeItems (schema : Schema) (field : MessageField) : List Value → Bytes
  | [] => []
  | item :: rest => schema.encodeField field item ++ schema.encodeItems field rest

/-- The entries of a map, each in a field of its own. -/
def encodeEntries (schema : Schema) (field : MessageField) (keyField valueField : Option MessageField) :
    List (MapKey × Value) → Bytes
  | [] => []
  | (key, value) :: rest =>
    let keyBytes := match keyField with
      | some f => if f.omits key.toValue then [] else f.encodeScalar key.toValue
      | none => []
    let valueBytes := match valueField with
      | some f => schema.encodeField f value
      | none => []
    field.key .lengthDelimited ++ lengthPrefixed (keyBytes ++ valueBytes)
      ++ schema.encodeEntries field keyField valueField rest

end

end Schema

end Tagwire
