import Tagwire.Schema.Declaration

/-!
# Bundled documents

The documents that can be imported without being supplied: they declare the well-known types, and the
messages that describe schema documents themselves.
-/

set_option autoImplicit false

namespace Tagwire

namespace Schema

namespace Bundled

/-- The path `google/protobuf/NAME.proto` of a bundled document. -/
def pathOf (name : String) : String := "google/protobuf/" ++ name ++ ".proto"

/-- The full name of a bundled type, in the package `google.protobuf`. -/
def fullName (name : String) : String := WellKnown.package ++ "." ++ name

/-- An absolute reference to a bundled type. -/
def typeNamed (name : String) : TypeReference := .named ("." ++ fullName name)

/-- A singular field without a label. -/
def field (name : String) (number : Nat) (type : TypeReference) : FieldDeclaration :=
  { name, number, type }

/-- A field with the label `repeated`. -/
def list (name : String) (number : Nat) (type : TypeReference) : FieldDeclaration :=
  { name, number, type, shape := .list, label := some .repeated }

/-- A field of a scalar kind. -/
def scalar (kind : Scalar) (name : String) (number : Nat) : FieldDeclaration :=
  field name number (.scalar kind)

/-- A singular field of the kind `string`. -/
def text (name : String) (number : Nat) : FieldDeclaration := scalar .string name number

/-- A repeated field of the kind `string`. -/
def texts (name : String) (number : Nat) : FieldDeclaration := list name number (.scalar .string)

/-- A singular field of the kind `bool`. -/
def flag (name : String) (number : Nat) : FieldDeclaration := scalar .boolean name number

/-- A singular field of a bundled type. -/
def one (type name : String) (number : Nat) : FieldDeclaration := field name number (typeNamed type)

/-- A repeated field of a bundled type. -/
def many (type name : String) (number : Nat) : FieldDeclaration := list name number (typeNamed type)

/-- A message of the package `google.protobuf`. -/
def message (name : String) (fields : List FieldDeclaration) : MessageDeclaration :=
  { name := fullName name, fields }

/-- An enumeration of the package `google.protobuf`. -/
def enum (name : String) (values : List (String × Int)) : EnumDeclaration :=
  { scope := WellKnown.package, name := fullName name
    values := values.map fun v => { name := v.1, number := v.2 } }

/-- An enumeration nested in a message, in whose scope its values stand. -/
def enumIn (scope name : String) (values : List (String × Int)) : EnumDeclaration :=
  { enum (scope ++ "." ++ name) values with scope := fullName scope }

/-- The bundled document with a name, with its messages, its enumerations and the names of what it imports. -/
def document (name : String) (messages : List MessageDeclaration)
    (enums : List EnumDeclaration := []) (imports : List String := []) : SchemaFile :=
  { path := pathOf name, package := WellKnown.package
    imports := imports.map fun n => { path := pathOf n }
    declarations := { messages, enums } }

/-! ## Well-known types -/

/-- The document of `Any`. -/
def any : SchemaFile := document "any" [message "Any" [text "type_url" 1, scalar .bytes "value" 2]]

/-- The document of `Duration`. -/
def duration : SchemaFile :=
  document "duration" [message "Duration" [scalar .int64 "seconds" 1, scalar .int32 "nanos" 2]]

/-- The document of `Timestamp`. -/
def timestamp : SchemaFile :=
  document "timestamp" [message "Timestamp" [scalar .int64 "seconds" 1, scalar .int32 "nanos" 2]]

/-- The document of `Empty`. -/
def empty : SchemaFile := document "empty" [message "Empty" []]

/-- The document of `FieldMask`. -/
def fieldMask : SchemaFile := document "field_mask" [message "FieldMask" [texts "paths" 1]]

/-- The document of `SourceContext`. -/
def sourceContext : SchemaFile :=
  document "source_context" [message "SourceContext" [text "file_name" 1]]

/-- The document of the nine messages that wrap one scalar under the name `value`. -/
def wrappers : SchemaFile :=
  document "wrappers"
    [message "DoubleValue" [scalar .double "value" 1], message "FloatValue" [scalar .float "value" 1],
     message "Int64Value" [scalar .int64 "value" 1], message "UInt64Value" [scalar .uint64 "value" 1],
     message "Int32Value" [scalar .int32 "value" 1], message "UInt32Value" [scalar .uint32 "value" 1],
     message "BoolValue" [flag "value" 1], message "StringValue" [text "value" 1],
     message "BytesValue" [scalar .bytes "value" 1]]

/-- A field of the oneof `kind` of a dynamic value. -/
def kindOf (field : FieldDeclaration) : FieldDeclaration := { field with oneof := some "kind" }

/-- The document of `Struct`, `Value`, `ListValue` and `NullValue`. -/
def struct : SchemaFile :=
  document "struct"
    [message "Struct"
      [{ name := "fields", number := 1, type := typeNamed "Struct.FieldsEntry", shape := .map }],
     entryMessage (fullName "Struct") "fields" .string (typeNamed "Value"),
     { message "Value"
        [kindOf (one "NullValue" "null_value" 1), kindOf (scalar .double "number_value" 2),
         kindOf (text "string_value" 3), kindOf (flag "bool_value" 4),
         kindOf (one "Struct" "struct_value" 5), kindOf (one "ListValue" "list_value" 6)] with
       oneofs := [{ name := "kind" }] },
     message "ListValue" [many "Value" "values" 1]]
    [enum "NullValue" [("NULL_VALUE", 0)]]

/-- The document of `Type`, which imports those of `Any` and `SourceContext`. -/
def type : SchemaFile :=
  document "type"
    [message "Type"
      [text "name" 1, many "Field" "fields" 2, texts "oneofs" 3, many "Option" "options" 4,
       one "SourceContext" "source_context" 5, one "Syntax" "syntax" 6],
     message "Field"
      [one "Field.Kind" "kind" 1, one "Field.Cardinality" "cardinality" 2, scalar .int32 "number" 3,
       text "name" 4, text "type_url" 6, scalar .int32 "oneof_index" 7, flag "packed" 8,
       many "Option" "options" 9, text "json_name" 10, text "default_value" 11],
     message "Enum"
      [text "name" 1, many "EnumValue" "enumvalue" 2, many "Option" "options" 3,
       one "SourceContext" "source_context" 4, one "Syntax" "syntax" 5],
     message "EnumValue" [text "name" 1, scalar .int32 "number" 2, many "Option" "options" 3],
     message "Option" [text "name" 1, one "Any" "value" 2]]
    [enumIn "Field" "Kind"
      [("TYPE_UNKNOWN", 0), ("TYPE_DOUBLE", 1), ("TYPE_FLOAT", 2), ("TYPE_INT64", 3),
       ("TYPE_UINT64", 4), ("TYPE_INT32", 5), ("TYPE_FIXED64", 6), ("TYPE_FIXED32", 7),
       ("TYPE_BOOL", 8), ("TYPE_STRING", 9), ("TYPE_GROUP", 10), ("TYPE_MESSAGE", 11),
       ("TYPE_BYTES", 12), ("TYPE_UINT32", 13), ("TYPE_ENUM", 14), ("TYPE_SFIXED32", 15),
       ("TYPE_SFIXED64", 16), ("TYPE_SINT32", 17), ("TYPE_SINT64", 18)],
     enumIn "Field" "Cardinality"
      [("CARDINALITY_UNKNOWN", 0), ("CARDINALITY_OPTIONAL", 1), ("CARDINALITY_REQUIRED", 2),
       ("CARDINALITY_REPEATED", 3)],
     enum "Syntax" [("SYNTAX_PROTO2", 0), ("SYNTAX_PROTO3", 1)]]
    ["any", "source_context"]

/-- The document of `Api`, which imports those of `SourceContext` and `Type`. -/
def api : SchemaFile :=
  document "api"
    [message "Api"
      [text "name" 1, many "Method" "methods" 2, many "Option" "options" 3, text "version" 4,
       one "SourceContext" "source_context" 5, many "Mixin" "mixins" 6, one "Syntax" "syntax" 7],
     message "Method"
      [text "name" 1, text "request_type_url" 2, flag "request_streaming" 3,
       text "response_type_url" 4, flag "response_streaming" 5, many "Option" "options" 6,
       one "Syntax" "syntax" 7],
     message "Mixin" [text "name" 1, text "root" 2]]
    [] ["source_context", "type"]

/-! ## Descriptions of schema documents -/

/-- A singular field of the kind `int32`. -/
def integer (name : String) (number : Nat) : FieldDeclaration := scalar .int32 name number

/-- A repeated field of the kind `int32`. -/
def integers (name : String) (number : Nat) : FieldDeclaration := list name number (.scalar .int32)

/-- A repeated field of the kind `int32` with the option `packed`. -/
def packedIntegers (name : String) (number : Nat) : FieldDeclaration :=
  { integers name number with options := [⟨[.plain "packed"], .word "true"⟩] }

/-- A field with the option `default`. -/
def withDefault (field : FieldDeclaration) (value : String) : FieldDeclaration :=
  { field with options := [⟨[.plain "default"], .word value⟩] }

/-- A message of options, with `uninterpreted_option` in field 999 and the numbers from 1000 on open to
extensions. -/
def options (name : String) (fields : List FieldDeclaration) : MessageDeclaration :=
  { message name (fields ++ [many "UninterpretedOption" "uninterpreted_option" 999]) with
    extensible := [⟨1000, 2 ^ 29 - 1⟩] }

/-- A field with its label, which is `optional` where none is written. -/
def labelled (field : FieldDeclaration) : FieldDeclaration :=
  { field with label := some (field.label.getD .optional) }

/-- A document of the dialect `proto2`, with a label on each field. -/
def labelledDocument (file : SchemaFile) : SchemaFile :=
  { file with
    dialect := .proto2
    declarations :=
      { file.declarations with
        messages := file.declarations.messages.map fun m =>
          { m with fields := m.fields.map labelled } } }

/-- The document `google/protobuf/descriptor.proto`, in which schema documents are described. -/
def descriptor : SchemaFile :=
  labelledDocument <| document "descriptor"
    [message "FileDescriptorSet" [many "FileDescriptorProto" "file" 1],
     message "FileDescriptorProto"
      [text "name" 1, text "package" 2, texts "dependency" 3, integers "public_dependency" 10,
       integers "weak_dependency" 11, many "DescriptorProto" "message_type" 4,
       many "EnumDescriptorProto" "enum_type" 5, many "ServiceDescriptorProto" "service" 6,
       many "FieldDescriptorProto" "extension" 7, one "FileOptions" "options" 8,
       one "SourceCodeInfo" "source_code_info" 9, text "syntax" 12],
     message "DescriptorProto"
      [text "name" 1, many "FieldDescriptorProto" "field" 2, many "FieldDescriptorProto" "extension" 6,
       many "DescriptorProto" "nested_type" 3, many "EnumDescriptorProto" "enum_type" 4,
       many "DescriptorProto.ExtensionRange" "extension_range" 5,
       many "OneofDescriptorProto" "oneof_decl" 8, one "MessageOptions" "options" 7,
       many "DescriptorProto.ReservedRange" "reserved_range" 9, texts "reserved_name" 10],
     message "DescriptorProto.ExtensionRange"
      [integer "start" 1, integer "end" 2, one "ExtensionRangeOptions" "options" 3],
     message "DescriptorProto.ReservedRange" [integer "start" 1, integer "end" 2],
     options "ExtensionRangeOptions" [],
     message "FieldDescriptorProto"
      [text "name" 1, integer "number" 3, one "FieldDescriptorProto.Label" "label" 4,
       one "FieldDescriptorProto.Type" "type" 5, text "type_name" 6, text "extendee" 2,
       text "default_value" 7, integer "oneof_index" 9, text "json_name" 10,
       one "FieldOptions" "options" 8, flag "proto3_optional" 17],
     message "OneofDescriptorProto" [text "name" 1, one "OneofOptions" "options" 2],
     message "EnumDescriptorProto"
      [text "name" 1, many "EnumValueDescriptorProto" "value" 2, one "EnumOptions" "options" 3,
       many "EnumDescriptorProto.EnumReservedRange" "reserved_range" 4, texts "reserved_name" 5],
     message "EnumDescriptorProto.EnumReservedRange" [integer "start" 1, integer "end" 2],
     message "EnumValueDescriptorProto"
      [text "name" 1, integer "number" 2, one "EnumValueOptions" "options" 3],
     message "ServiceDescriptorProto"
      [text "name" 1, many "MethodDescriptorProto" "method" 2, one "ServiceOptions" "options" 3],
     message "MethodDescriptorProto"
      [text "name" 1, text "input_type" 2, text "output_type" 3, one "MethodOptions" "options" 4,
       withDefault (flag "client_streaming" 5) "false", withDefault (flag "server_streaming" 6) "false"],
     options "FileOptions"
      [text "java_package" 1, text "java_outer_classname" 8,
       withDefault (flag "java_multiple_files" 10) "false", flag "java_generate_equals_and_hash" 20,
       withDefault (flag "java_string_check_utf8" 27) "false",
       withDefault (one "FileOptions.OptimizeMode" "optimize_for" 9) "SPEED", text "go_package" 11,
       withDefault (flag "cc_generic_services" 16) "false",
       withDefault (flag "java_generic_services" 17) "false",
       withDefault (flag "py_generic_services" 18) "false",
       withDefault (flag "php_generic_services" 42) "false", withDefault (flag "deprecated" 23) "false",
       withDefault (flag "cc_enable_arenas" 31) "true", text "objc_class_prefix" 36,
       text "csharp_namespace" 37, text "swift_prefix" 39, text "php_class_prefix" 40,
       text "php_namespace" 41, text "php_metadata_namespace" 44, text "ruby_package" 45],
     options "MessageOptions"
      [withDefault (flag "message_set_wire_format" 1) "false",
       withDefault (flag "no_standard_descriptor_accessor" 2) "false",
       withDefault (flag "deprecated" 3) "false", flag "map_entry" 7],
     options "FieldOptions"
      [withDefault (one "FieldOptions.CType" "ctype" 1) "STRING", flag "packed" 2,
       withDefault (one "FieldOptions.JSType" "jstype" 6) "JS_NORMAL",
       withDefault (flag "lazy" 5) "false", withDefault (flag "deprecated" 3) "false",
       withDefault (flag "weak" 10) "false"],
     options "OneofOptions" [],
     options "EnumOptions" [flag "allow_alias" 2, withDefault (flag "deprecated" 3) "false"],
     options "EnumValueOptions" [withDefault (flag "deprecated" 1) "false"],
     options "ServiceOptions" [withDefault (flag "deprecated" 33) "false"],
     options "MethodOptions"
      [withDefault (flag "deprecated" 33) "false",
       withDefault (one "MethodOptions.IdempotencyLevel" "idempotency_level" 34) "IDEMPOTENCY_UNKNOWN"],
     message "UninterpretedOption"
      [many "UninterpretedOption.NamePart" "name" 2, text "identifier_value" 3,
       scalar .uint64 "positive_int_value" 4, scalar .int64 "negative_int_value" 5,
       scalar .double "double_value" 6, scalar .bytes "string_value" 7, text "aggregate_value" 8],
     message "UninterpretedOption.NamePart"
      [{ text "name_part" 1 with label := some .required },
       { flag "is_extension" 2 with label := some .required }],
     message "SourceCodeInfo" [many "SourceCodeInfo.Location" "location" 1],
     message "SourceCodeInfo.Location"
      [packedIntegers "path" 1, packedIntegers "span" 2, text "leading_comments" 3,
       text "trailing_comments" 4, texts "leading_detached_comments" 6],
     message "GeneratedCodeInfo" [many "GeneratedCodeInfo.Annotation" "annotation" 1],
     message "GeneratedCodeInfo.Annotation"
      [packedIntegers "path" 1, text "source_file" 2, integer "begin" 3, integer "end" 4]]
    [enumIn "FieldDescriptorProto" "Type"
      [("TYPE_DOUBLE", 1), ("TYPE_FLOAT", 2), ("TYPE_INT64", 3), ("TYPE_UINT64", 4),
       ("TYPE_INT32", 5), ("TYPE_FIXED64", 6), ("TYPE_FIXED32", 7), ("TYPE_BOOL", 8),
       ("TYPE_STRING", 9), ("TYPE_GROUP", 10), ("TYPE_MESSAGE", 11), ("TYPE_BYTES", 12),
       ("TYPE_UINT32", 13), ("TYPE_ENUM", 14), ("TYPE_SFIXED32", 15), ("TYPE_SFIXED64", 16),
       ("TYPE_SINT32", 17), ("TYPE_SINT64", 18)],
     enumIn "FieldDescriptorProto" "Label"
      [("LABEL_OPTIONAL", 1), ("LABEL_REQUIRED", 2), ("LABEL_REPEATED", 3)],
     enumIn "FileOptions" "OptimizeMode" [("SPEED", 1), ("CODE_SIZE", 2), ("LITE_RUNTIME", 3)],
     enumIn "FieldOptions" "CType" [("STRING", 0), ("CORD", 1), ("STRING_PIECE", 2)],
     enumIn "FieldOptions" "JSType" [("JS_NORMAL", 0), ("JS_STRING", 1), ("JS_NUMBER", 2)],
     enumIn "MethodOptions" "IdempotencyLevel"
      [("IDEMPOTENCY_UNKNOWN", 0), ("NO_SIDE_EFFECTS", 1), ("IDEMPOTENT", 2)]]

/-- The document `google/protobuf/compiler/plugin.proto`. -/
def plugin : SchemaFile :=
  let file := labelledDocument <| document "compiler/plugin"
    [message "compiler.Version" [integer "major" 1, integer "minor" 2, integer "patch" 3, text "suffix" 4],
     message "compiler.CodeGeneratorRequest"
      [texts "file_to_generate" 1, text "parameter" 2, many "FileDescriptorProto" "proto_file" 15,
       one "compiler.Version" "compiler_version" 3],
     message "compiler.CodeGeneratorResponse"
      [text "error" 1, scalar .uint64 "supported_features" 2,
       many "compiler.CodeGeneratorResponse.File" "file" 15],
     message "compiler.CodeGeneratorResponse.File"
      [text "name" 1, text "insertion_point" 2, text "content" 15,
       one "GeneratedCodeInfo" "generated_code_info" 16]]
    [enumIn "compiler.CodeGeneratorResponse" "Feature"
      [("FEATURE_NONE", 0), ("FEATURE_PROTO3_OPTIONAL", 1)]]
    ["descriptor"]
  { file with package := fullName "compiler" }

/-- The twelve bundled documents. -/
def all : List SchemaFile :=
  [any, api, descriptor, duration, empty, fieldMask, sourceContext, struct, timestamp, type, wrappers,
   plugin]

/-- The bundled document with a path. -/
def find? (path : String) : Option SchemaFile := all.find? fun f => f.path == path

end Bundled

end Schema

end Tagwire
