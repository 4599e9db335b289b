import Tagwire.Schema.Options
import Tagwire.Number.Binary

/-!
# Linking a schema document

Linking follows the names in a document to what they stand for and refuses a document in which one leads
nowhere, or in which numbers or names collide.  A document sees its own names, those of the documents it
imports, and those that these import publicly.  A name that is not absolute is tried in its own scope and
then in each scope around it; the first scope that knows the first step of a name of several steps settles
it.  All names of all documents share one space, except that packages may be shared.
-/

set_option autoImplicit false

namespace Tagwire

namespace Schema

/-! ## Names -/

/-- The scope and those around it, the innermost first and `""` last. -/
def enclosingScopes (scope : String) : List String :=
  let parts := scope.toList.splitOn '.'
  let inner := (List.range parts.length).map fun n => parts.take (parts.length - n)
  (inner.map fun ps => String.ofList (['.'].intercalate ps)) ++ (if scope.isEmpty then [] else [""])

/-- The names of a package and of the packages around it, without `""`. -/
def packageNames (package : String) : List String := (enclosingScopes package).filter (· != "")

namespace SchemaFile

/-- The full names that a document declares, which no other declaration may have. -/
def names (file : SchemaFile) : List String :=
  let d := file.declarations
  (d.messages.flatMap fun m =>
    m.name :: (m.fields.map fun f => qualified m.name f.name)
      ++ (m.oneofs.map fun o => qualified m.name o.name))
  ++ (d.enums.flatMap fun e => e.name :: e.values.map fun v => qualified e.scope v.name)
  ++ (d.extensions.map fun e => qualified e.scope e.field.name)
  ++ (d.services.flatMap fun s => s.name :: s.methods.map fun m => qualified s.name m.name)

end SchemaFile

/-- Are the `names` of all documents different, and none of them that of a package? -/
def areNamesDistinct (files : List SchemaFile) : Bool :=
  let names := files.flatMap SchemaFile.names
  let packages := files.flatMap fun f => packageNames f.package
  names.Nodup && names.all fun n => !packages.contains n

/-! ## Visibility -/

/-- The documents with the given paths, and those that their public imports lead to. -/
def publicClosure (files : List SchemaFile) : Nat → List String → List SchemaFile
  | 0, _ => []
  | fuel + 1, paths =>
    paths.flatMap fun path =>
      match files.find? fun f => f.path == path with
      | none => []
      | some file =>
        file :: publicClosure files fuel
          ((file.imports.filter Import.isPublic).map Import.path)

/-- The documents whose names a document sees: itself, its imports and what these import publicly. -/
def visibleFiles (files : List SchemaFile) (file : SchemaFile) : List SchemaFile :=
  file :: publicClosure files (files.length + 1) (file.imports.map Import.path)

/-- The packages and declarations that the names in a document may lead to. -/
structure Visible where
  packages : List String
  messages : List MessageDeclaration
  enums : List EnumDeclaration
  extensions : List ExtensionDeclaration
  services : List ServiceDeclaration

namespace Visible

/-- What the names in a document may lead to, by `visibleFiles`. -/
def ofFile (files : List SchemaFile) (file : SchemaFile) : Visible :=
  let seen := visibleFiles files file
  { packages := seen.flatMap fun f => packageNames f.package
    messages := seen.flatMap fun f => f.declarations.messages
    enums := seen.flatMap fun f => f.declarations.enums
    extensions := seen.flatMap fun f => f.declarations.extensions
    services := seen.flatMap fun f => f.declarations.services }

/-- Is it the full name of a message? -/
def isMessage (visible : Visible) (name : String) : Bool := visible.messages.any fun m => m.name == name

/-- The enumeration with a full name. -/
def enum? (visible : Visible) (name : String) : Option EnumDeclaration :=
  visible.enums.find? fun e => e.name == name

/-- Is it the full name of a package, message, enumeration or service, in which other names stand? -/
def isScope (visible : Visible) (name : String) : Bool :=
  visible.packages.contains name || visible.isMessage name || (visible.enum? name).isSome
    || visible.services.any fun s => s.name == name

/-- The full name that a name in a scope stands for, among those that satisfy a test.  The innermost scope
that knows the first step of a name of several steps settles what it can stand for. -/
def resolve? (visible : Visible) (isMeant : String → Bool) (scope path : String) : Option String :=
  let meant (name : String) : Option String := if isMeant name then some name else none
  let steps := path.toList.splitOn '.'
  match steps with
  | [] :: _ => meant (String.ofList (path.toList.drop 1))
  | [_] => ((enclosingScopes scope).map fun s => qualified s path).find? isMeant
  | first :: _ =>
    let home := (enclosingScopes scope).find? fun s => visible.isScope (qualified s (String.ofList first))
    home.bind fun s => meant (qualified s path)
  | [] => none

/-- The type that a reference in a scope stands for: a scalar, or the message or enumeration by `resolve?`. -/
def type? (visible : Visible) (scope : String) : TypeReference → Option ValueType
  | .scalar kind => some (.scalar kind)
  | .named path => do
    let name ← visible.resolve? (fun n => visible.isMessage n || (visible.enum? n).isSome) scope path
    return if visible.isMessage name then .message name else .enum name

/-- Does a name in a scope stand for an extension of the message with the options of the target? -/
def isCustomOption (visible : Visible) (scope : String) (target : OptionTarget) (path : String) : Bool :=
  let fullName (e : ExtensionDeclaration) : String := qualified e.scope e.field.name
  match visible.resolve? (fun n => visible.extensions.any fun e => fullName e == n) scope path with
  | none => false
  | some name =>
    visible.extensions.any fun e =>
      fullName e == name &&
        visible.resolve? visible.isMessage e.scope e.target == some target.messageName

/-- Are the options set in a scope ones that `areOptionsValid` admits for their target? -/
def admits (visible : Visible) (scope : String) (target : OptionTarget) (options : List OptionSetting) :
    Bool :=
  areOptionsValid (visible.isCustomOption scope target) target options

end Visible

/-! ## Fields -/

namespace FieldDeclaration

/-- The key of the field in a record: its option `json_name`, or else its name in lower camel case. -/
def recordKey (field : FieldDeclaration) : String :=
  (textOptionOf? field.options "json_name").getD (lowerCamel field.name)

/-- The number of the first value of an enumeration type. -/
def firstNumber (visible : Visible) : ValueType → Int
  | .enum name =>
    match (visible.enum? name).map EnumDeclaration.values with
    | some (v :: _) => v.number
    | _ => 0
  | _ => 0

/-- A 64-bit float, or its negative. -/
def signedDecimal (negative : Bool) (x : Binary64) : Binary64 := if negative then x.neg else x

/-- The value of a type that the option `default` gives, if the type has it. -/
def defaultOf? (visible : Visible) (type : ValueType) (value : OptionValue) : Option Value :=
  let float : Option Binary64 := match value with
    | .integer n => some (.ofInt n)
    | .decimal negative x => some (signedDecimal negative x)
    | .word "inf" => some .infinity
    | .word "nan" => some .nan
    | _ => none
  let integer (low high : Int) : Option Value := match value with
    | .integer n => if low ≤ n ∧ n ≤ high then some (.int n) else none
    | _ => none
  match type, value with
  | .scalar .double, _ => float.map .double
  | .scalar .float, _ => float.map fun x => .float x.narrow
  | .scalar .boolean, .word "true" => some (.bool true)
  | .scalar .boolean, .word "false" => some (.bool false)
  | .scalar .boolean, _ => none
  | .scalar .string, .text bytes => (Utf8.decode? bytes).map .string
  | .scalar .bytes, .text bytes => some (.bytes bytes)
  | .scalar .string, _ | .scalar .bytes, _ => none
  | .scalar .int32, _ | .scalar .sint32, _ | .scalar .sfixed32, _ => integer (-(2 ^ 31)) (2 ^ 31 - 1)
  | .scalar .int64, _ | .scalar .sint64, _ | .scalar .sfixed64, _ => integer (-(2 ^ 63)) (2 ^ 63 - 1)
  | .scalar .uint32, _ | .scalar .fixed32, _ => integer 0 (2 ^ 32 - 1)
  | .scalar .uint64, _ | .scalar .fixed64, _ => integer 0 (2 ^ 64 - 1)
  | .enum name, .word text =>
    ((visible.enum? name).bind fun e => e.values.find? fun v => v.name == text).map fun v =>
      .int v.number
  | .enum _, _ => none
  | .message _, _ => none

/-- The default of a field: the option `default`, which only a single field of the dialect `proto2` may have,
and otherwise an empty list or map or the zero of the type. -/
def default? (dialect : Dialect) (visible : Visible) (field : FieldDeclaration) (type : ValueType) :
    Option Value :=
  match settingOf? field.options "default", field.shape with
  | none, .list => some (.list [])
  | none, .map => some (.map [])
  | none, .single => some (type.zero (firstNumber visible type))
  | some value, .single => if dialect = .proto2 then defaultOf? visible type value else none
  | some _, _ => none

/-- Is a field that is set to its default told from one that is not set? -/
def hasPresence (dialect : Dialect) (field : FieldDeclaration) (type : ValueType) : Bool :=
  field.shape == .single &&
    (dialect == .proto2 || field.label == some .optional || field.oneof.isSome ||
      match type with
      | .message _ => true
      | _ => false)

/-- Is a list written in one field?  The option `packed` decides, and without it the dialect. -/
def isPacked (dialect : Dialect) (field : FieldDeclaration) (type : ValueType) : Bool :=
  field.shape == .list && type.isPackable &&
    (flagOf? field.options "packed").getD (dialect == .proto3)

/-- The field with its type, record key, default and presence, or `none` where one of its names leads
nowhere. -/
def link? (dialect : Dialect) (visible : Visible) (scope : String) (field : FieldDeclaration) :
    Option MessageField := do
  let type ← visible.type? scope field.type
  let default ← field.default? dialect visible type
  if visible.admits scope .field field.options then
    return { name := field.name, jsonName := field.recordKey, number := field.number, type, default
             shape := field.shape, presence := field.hasPresence dialect type
             packed := field.isPacked dialect type, grouped := field.grouped, oneof := field.oneof }
  else none

end FieldDeclaration

/-! ## Messages, enumerations and services -/

/-- The numbers 19000 to 19999, which no field may have. -/
def forbiddenNumbers : NumberRange := ⟨19000, 19999⟩

/-- A name without underscores and in lower case: in the dialect `proto3`, no two fields of a message may share
it. -/
def foldedName (name : String) : List Char :=
  (name.toList.filter (· != '_')).map Char.toLower

namespace MessageDeclaration

/-- Are the numbers of the fields distinct, and none of them among `forbiddenNumbers` or those that the message
reserves or leaves to extensions? -/
def areNumbersFree (message : MessageDeclaration) : Bool :=
  let numbers := message.fields.map FieldDeclaration.number
  (numbers.all fun n =>
      !forbiddenNumbers.contains n &&
        !(message.reserved ++ message.extensible).any fun range => range.contains n) &&
    numbers.Nodup

/-- Are the record keys distinct, and in the dialect `proto3` the folded names of fields without `json_name`,
too? -/
def areKeysDistinct (dialect : Dialect) (message : MessageDeclaration) : Bool :=
  (message.fields.map FieldDeclaration.recordKey).Nodup &&
    (dialect == .proto2 ||
      ((message.fields.filter fun f => (settingOf? f.options "json_name").isNone).map fun f =>
        foldedName f.name).Nodup)

/-- The message type of a message with linked fields, or `none` where its numbers, keys or options are
refused. -/
def link? (dialect : Dialect) (visible : Visible) (message : MessageDeclaration) :
    Option MessageType := do
  let fields ← message.fields.mapM fun f => f.link? dialect visible message.name
  if message.areNumbersFree && message.areKeysDistinct dialect &&
      visible.admits message.name .message message.options &&
      (message.oneofs.all fun o => visible.admits message.name .oneof o.options) then
    return ⟨message.name, fields⟩
  else none

end MessageDeclaration

namespace EnumDeclaration

/-- The enumeration type, unless its numbers are refused: in the dialect `proto3` the first one is 0, and none
occurs twice without the option `allow_alias`. -/
def link? (dialect : Dialect) (visible : Visible) (enum : EnumDeclaration) : Option EnumType :=
  let numbers := enum.values.map EnumValueDeclaration.number
  if (dialect == .proto2 || numbers.head? == some 0) && !numbers.isEmpty &&
      ((flagOf? enum.options "allow_alias").getD false || numbers.Nodup) &&
      (numbers.all fun n => !enum.reserved.any fun range => range.contains n) &&
      visible.admits enum.name .enum enum.options &&
      (enum.values.all fun v => visible.admits enum.name .enumValue v.options) then
    some ⟨enum.name, enum.values.map fun v => (v.name, v.number)⟩
  else none

end EnumDeclaration

/-- Do the names of inputs and outputs of a service lead to messages, and are its options admitted? -/
def ServiceDeclaration.isValid (visible : Visible) (service : ServiceDeclaration) : Bool :=
  visible.admits service.name .service service.options &&
    service.methods.all fun m =>
      (visible.resolve? visible.isMessage service.name m.input).isSome &&
        (visible.resolve? visible.isMessage service.name m.output).isSome &&
        visible.admits service.name .method m.options

/-- Does the field of an extension link, and does its target leave its number open? -/
def ExtensionDeclaration.isValid (dialect : Dialect) (visible : Visible)
    (extension : ExtensionDeclaration) : Bool :=
  (extension.field.link? dialect visible extension.scope).isSome &&
    ((visible.resolve? visible.isMessage extension.scope extension.target).map fun name =>
      visible.messages.any fun m =>
        m.name == name && m.extensible.any fun range => range.contains extension.field.number).getD false

/-! ## Documents -/

namespace SchemaFile

/-- The types of a document, its names resolved among `files`. -/
def link? (files : List SchemaFile) (file : SchemaFile) : Option Schema := do
  let visible := Visible.ofFile files file
  let messages ← file.declarations.messages.mapM fun m => m.link? file.dialect visible
  let enums ← file.declarations.enums.mapM fun e => e.link? file.dialect visible
  if visible.admits file.package .file file.options &&
      (file.declarations.services.all fun s => s.isValid visible) &&
      (file.declarations.extensions.all fun e => e.isValid file.dialect visible) then
    return { messages := messages.map fun m => (m.name, m), enums := enums.map fun e => (e.name, e) }
  else none

end SchemaFile

/-- The schema of all types of some documents, or `none` if one does not link or `areNamesDistinct` fails. -/
def ofFiles? (files : List SchemaFile) : Option Schema := do
  let schemas ← files.mapM fun f => f.link? files
  if areNamesDistinct files then
    return { messages := Entries.ofList (schemas.flatMap Schema.messages)
             enums := Entries.ofList (schemas.flatMap Schema.enums) }
  else none

end Schema

end Tagwire
