import Tagwire.Schema.Declaration
import Tagwire.Text.Utf8

/-!
# Options

What a document and each of its declarations may set, and to what.  Options have no effect here beyond
four of them, the record key, the default and the packing of a field and the aliases of an enumeration;
but one that does not exist, or is set twice or to a value of another kind, is refused.
-/

set_option autoImplicit false

namespace Tagwire

namespace Schema

/-- What an option may be set to: `true` or `false`, a text, or one of some words. -/
inductive OptionKind where
  | flag
  | text
  | choice (names : List String)
deriving DecidableEq, Repr

namespace OptionKind

/-- Is the value of the kind? -/
def admits : OptionKind → OptionValue → Bool
  | flag, .word w => w == "true" || w == "false"
  | text, .text bytes => (Utf8.decode? bytes).isSome
  | choice names, .word w => names.contains w
  | _, _ => false

end OptionKind

/-- The kind of declaration that an option is set on. -/
inductive OptionTarget where
  | file
  | message
  | field
  | oneof
  | enum
  | enumValue
  | service
  | method
deriving DecidableEq, Repr

namespace OptionTarget

/-- The message of the bundled document `descriptor` whose extensions are the custom options of a target. -/
def messageName : OptionTarget → String
  | file => "google.protobuf.FileOptions"
  | message => "google.protobuf.MessageOptions"
  | field => "google.protobuf.FieldOptions"
  | oneof => "google.protobuf.OneofOptions"
  | enum => "google.protobuf.EnumOptions"
  | enumValue => "google.protobuf.EnumValueOptions"
  | service => "google.protobuf.ServiceOptions"
  | method => "google.protobuf.MethodOptions"

/-- The options that a target may have without an extension. -/
def known : OptionTarget → List (String × OptionKind)
  | file =>
    [("java_package", .text), ("java_outer_classname", .text), ("java_multiple_files", .flag),
     ("java_generate_equals_and_hash", .flag), ("java_string_check_utf8", .flag),
     ("optimize_for", .choice ["SPEED", "CODE_SIZE", "LITE_RUNTIME"]), ("go_package", .text),
     ("cc_generic_services", .flag), ("java_generic_services", .flag), ("py_generic_services", .flag),
     ("php_generic_services", .flag), ("deprecated", .flag), ("cc_enable_arenas", .flag), ("objc_class_prefix", .text),
     ("csharp_namespace", .text), ("swift_prefix", .text), ("php_class_prefix", .text),
     ("php_namespace", .text), ("php_metadata_namespace", .text), ("ruby_package", .text)]
  | message =>
    [("message_set_wire_format", .flag), ("no_standard_descriptor_accessor", .flag),
     ("deprecated", .flag), ("map_entry", .flag)]
  | field =>
    [("ctype", .choice ["STRING", "CORD", "STRING_PIECE"]), ("packed", .flag),
     ("jstype", .choice ["JS_NORMAL", "JS_STRING", "JS_NUMBER"]), ("lazy", .flag),
     ("deprecated", .flag), ("weak", .flag), ("json_name", .text)]
  | oneof => []
  | enum => [("allow_alias", .flag), ("deprecated", .flag)]
  | enumValue => [("deprecated", .flag)]
  | service => [("deprecated", .flag)]
  | method =>
    [("deprecated", .flag),
     ("idempotency_level", .choice ["IDEMPOTENCY_UNKNOWN", "NO_SIDE_EFFECTS", "IDEMPOTENT"])]

end OptionTarget

/-- The value of the option whose name is one plain word, if it is set. -/
def settingOf? (options : List OptionSetting) (name : String) : Option OptionValue :=
  (options.find? fun o => o.path == [.plain name]).map OptionSetting.value

/-- The value of an option that is `true` or `false`, if it is set. -/
def flagOf? (options : List OptionSetting) (name : String) : Option Bool :=
  (settingOf? options name).map fun value => value == .word "true"

/-- The value of an option that is a text, if it is set. -/
def textOptionOf? (options : List OptionSetting) (name : String) : Option String :=
  match settingOf? options name with
  | some (.text bytes) => Utf8.decode? bytes
  | _ => none

/-- Is each option `known` for its target or custom by `isCustom`, and none set twice?  The option `default` of
a field is checked by `FieldDeclaration.default?` instead. -/
def areOptionsValid (isCustom : String → Bool) (target : OptionTarget) (options : List OptionSetting) :
    Bool :=
  (options.all fun o =>
    match o.path with
    | [.plain name] =>
      (target == .field && name == "default") ||
        ((target.known.find? fun k => k.1 == name).map fun k => k.2.admits o.value).getD false
    | .custom path :: _ => isCustom path
    | _ => false) &&
  (options.map OptionSetting.path).Nodup

end Schema

end Tagwire
