/-!
# Kinds of fields

A field holds a scalar, a well-known structured type, or another record of the same compilation.  The
scalars go by their schema keyword; the well-known types by a short name, by the full name of their
message, and by the path of the bundled document that declares them.
-/

set_option autoImplicit false

namespace Tagwire

/-- A scalar kind of the schema language, of which there are fifteen. -/
inductive Scalar where
  | double
  | float
  | int32
  | int64
  | uint32
  | uint64
  | sint32
  | sint64
  | fixed32
  | fixed64
  | sfixed32
  | sfixed64
  | boolean
  | string
  | bytes
deriving DecidableEq, Repr, Inhabited

namespace Scalar

/-- All fifteen scalar kinds. -/
def all : List Scalar :=
  [.double, .float, .int32, .int64, .uint32, .uint64,
   .sint32, .sint64, .fixed32, .fixed64, .sfixed32, .sfixed64,
   .boolean, .string, .bytes]

/-- The keyword of a scalar kind, as a document writes it; that of `boolean` is `bool`. -/
def keyword : Scalar → String
  | double => "double"
  | float => "float"
  | int32 => "int32"
  | int64 => "int64"
  | uint32 => "uint32"
  | uint64 => "uint64"
  | sint32 => "sint32"
  | sint64 => "sint64"
  | fixed32 => "fixed32"
  | fixed64 => "fixed64"
  | sfixed32 => "sfixed32"
  | sfixed64 => "sfixed64"
  | boolean => "bool"
  | string => "string"
  | bytes => "bytes"

/-- The scalar kind with a keyword, if the text is one. -/
def ofKeyword? (text : String) : Option Scalar := all.find? fun k => k.keyword == text

end Scalar

/-- A well-known structured type, of the package `google.protobuf`. -/
inductive WellKnown where
  | any
  | api
  | boolValue
  | bytesValue
  | doubleValue
  | duration
  | empty
  | enum
  | enumValue
  | field
  | fieldCardinality
  | fieldKind
  | fieldMask
  | floatValue
  | int32Value
  | int64Value
  | listValue
  | method
  | mixin
  | nullValue
  | option
  | sourceContext
  | stringValue
  | struct
  | syntaxVersion
  | timestamp
  | type
  | uInt32Value
  | uInt64Value
  | value
deriving DecidableEq, Repr, Inhabited

namespace WellKnown

/-- All well-known types. -/
def all : List WellKnown :=
  [.any, .api, .boolValue, .bytesValue, .doubleValue, .duration,
   .empty, .enum, .enumValue, .field, .fieldCardinality, .fieldKind,
   .fieldMask, .floatValue, .int32Value, .int64Value, .listValue, .method,
   .mixin, .nullValue, .option, .sourceContext, .stringValue, .struct,
   .syntaxVersion, .timestamp, .type, .uInt32Value, .uInt64Value, .value]

/-- The short name of a well-known type, without its package. -/
def name : WellKnown → String
  | any => "Any"
  | api => "Api"
  | boolValue => "BoolValue"
  | bytesValue => "BytesValue"
  | doubleValue => "DoubleValue"
  | duration => "Duration"
  | empty => "Empty"
  | enum => "Enum"
  | enumValue => "EnumValue"
  | field => "Field"
  | fieldCardinality => "Cardinality"
  | fieldKind => "Kind"
  | fieldMask => "FieldMask"
  | floatValue => "FloatValue"
  | int32Value => "Int32Value"
  | int64Value => "Int64Value"
  | listValue => "ListValue"
  | method => "Method"
  | mixin => "Mixin"
  | nullValue => "NullValue"
  | option => "Option"
  | sourceContext => "SourceContext"
  | stringValue => "StringValue"
  | struct => "Struct"
  | syntaxVersion => "Syntax"
  | timestamp => "Timestamp"
  | type => "Type"
  | uInt32Value => "UInt32Value"
  | uInt64Value => "UInt64Value"
  | value => "Value"

/-- The package `google.protobuf` of the well-known types. -/
def package : String := "google.protobuf"

/-- The full name of a well-known type; the two enumerations of a field description are nested in it. -/
def typeName : WellKnown → String
  | fieldCardinality => package ++ ".Field.Cardinality"
  | fieldKind => package ++ ".Field.Kind"
  | other => package ++ "." ++ other.name

/-- The path of the bundled document that declares a well-known type. -/
def importPath : WellKnown → String
  | any => "google/protobuf/any.proto"
  | api | method | mixin => "google/protobuf/api.proto"
  | boolValue | bytesValue | doubleValue | floatValue | int32Value
  | int64Value | stringValue | uInt32Value | uInt64Value => "google/protobuf/wrappers.proto"
  | duration => "google/protobuf/duration.proto"
  | empty => "google/protobuf/empty.proto"
  | enum | enumValue | field | fieldCardinality | fieldKind
  | option | syntaxVersion | type => "google/protobuf/type.proto"
  | fieldMask => "google/protobuf/field_mask.proto"
  | listValue | nullValue | struct | value => "google/protobuf/struct.proto"
  | sourceContext => "google/protobuf/source_context.proto"
  | timestamp => "google/protobuf/timestamp.proto"

/-- The well-known type with a full name, if the text is one. -/
def ofTypeName? (text : String) : Option WellKnown := all.find? fun k => k.typeName == text

end WellKnown

/-- What a field of a record holds: a scalar, a well-known type, or a record with an identity. -/
inductive FieldKind where
  | scalar (kind : Scalar)
  | wellKnown (kind : WellKnown)
  | record (target : String)
deriving DecidableEq, Repr, Inhabited

namespace FieldKind

/-- The document that has to be imported for the kind, which only a well-known type asks for. -/
def importPath? : FieldKind → Option String
  | wellKnown kind => some kind.importPath
  | _ => none

end FieldKind

end Tagwire
