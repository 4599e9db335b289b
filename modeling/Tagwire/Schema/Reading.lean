import Tagwire.Schema.Declaration
import Tagwire.Schema.Statement
import Tagwire.Text.Utf8

/-!
# Reading a schema document

Each statement is read by itself, from its first tokens on, and has to be used up.  The members of a
message are gathered in one pass over its block: its own fields and oneofs, and the declarations nested in
it, which are passed on.  What a document may not say in its dialect is refused here where the words alone
show it.
-/

set_option autoImplicit false

namespace Tagwire

namespace Schema

/-! ## Parts of statements -/

/-- The words that follow a path with a dot before each, joined to it, and what follows. -/
def readPathRest (read : String) : List Token → String × List Token
  | .mark '.' :: .word name :: rest => readPathRest (read ++ "." ++ name) rest
  | rest => (read, rest)

/-- A path of words with dots between them, and what follows. -/
def readPath? : List Token → Option (String × List Token)
  | .word name :: rest => some (readPathRest name rest)
  | _ => none

/-- A path that may begin with a dot, and what follows. -/
def readTypePath? : List Token → Option (String × List Token)
  | .mark '.' :: rest => (readPath? rest).map fun (path, rest) => ("." ++ path, rest)
  | tokens => readPath? tokens

/-- The type of a field, a scalar by its keyword or else a name, and what follows. -/
def readType? : List Token → Option (TypeReference × List Token)
  | .word name :: rest =>
    match rest, Scalar.ofKeyword? name with
    | .mark '.' :: _, _ | _, none => (readTypePath? (.word name :: rest)).map fun (p, r) => (.named p, r)
    | rest, some kind => some (.scalar kind, rest)
  | tokens => (readTypePath? tokens).map fun (path, rest) => (.named path, rest)

/-- An integer with an optional minus sign, and what follows. -/
def readInteger? : List Token → Option (Int × List Token)
  | .natural n :: rest => some (n, rest)
  | .mark '-' :: .natural n :: rest => some (-(n : Int), rest)
  | _ => none

/-- The text that bytes encode in UTF-8, if they do. -/
def textOf? (bytes : Bytes) : Option String := Utf8.decode? bytes

/-! ## Options -/

/-- The tokens behind the braces that are open, `depth` of them and one more. -/
def skipBraces : Nat → List Token → Option (List Token)
  | _, [] => none
  | depth, token :: rest =>
    if token = .mark '\x7b' then skipBraces (depth + 1) rest
    else if token = .mark '\x7d' then
      match depth with
      | 0 => some rest
      | depth + 1 => skipBraces depth rest
    else skipBraces depth rest

/-- The value of an option, and what follows. -/
def readOptionValue? : List Token → Option (OptionValue × List Token)
  | .word text :: rest => some (.word text, rest)
  | .natural n :: rest => some (.integer n, rest)
  | .decimal x :: rest => some (.decimal false x, rest)
  | .text bytes :: rest => some (.text bytes, rest)
  | .mark '-' :: .natural n :: rest => some (.integer (-(n : Int)), rest)
  | .mark '-' :: .decimal x :: rest => some (.decimal true x, rest)
  | .mark '-' :: .word text :: rest =>
    if text = "inf" then some (.decimal true .infinity, rest)
    else if text = "nan" then some (.decimal true .nan, rest)
    else none
  | .mark '\x7b' :: rest => (skipBraces 0 rest).map fun rest => (.aggregate, rest)
  | _ => none

/-- A step in the name of an option, and what follows. -/
def readOptionPart? : List Token → Option (OptionPart × List Token)
  | .word name :: rest => some (.plain name, rest)
  | .mark '(' :: rest => do
    let (path, rest) ← readTypePath? rest
    match rest with
    | .mark ')' :: rest => return (.custom path, rest)
    | _ => none
  | _ => none

/-- The name of an option, its steps with dots between them, and what follows. -/
def readOptionName? : Nat → List Token → Option (List OptionPart × List Token)
  | 0, _ => none
  | fuel + 1, tokens => do
    let (part, rest) ← readOptionPart? tokens
    match rest with
    | .mark '.' :: rest =>
      let (parts, rest) ← readOptionName? fuel rest
      return (part :: parts, rest)
    | rest => return ([part], rest)

/-- An option with its value behind an equals sign, and what follows. -/
def readSetting? (tokens : List Token) : Option (OptionSetting × List Token) := do
  let (path, rest) ← readOptionName? tokens.length tokens
  match rest with
  | .mark '=' :: rest =>
    let (value, rest) ← readOptionValue? rest
    return (⟨path, value⟩, rest)
  | _ => none

/-- Options with commas between them up to the closing bracket, which ends the statement. -/
def readSettings? : Nat → List Token → Option (List OptionSetting)
  | 0, _ => none
  | fuel + 1, tokens => do
    let (setting, rest) ← readSetting? tokens
    match rest with
    | [.mark ']'] => return [setting]
    | .mark ',' :: rest => return setting :: (← readSettings? fuel rest)
    | _ => none

/-- The options in brackets that end a statement, none where the statement ends without them. -/
def readBracketed? : List Token → Option (List OptionSetting)
  | [] => some []
  | .mark '[' :: rest => readSettings? rest.length rest
  | _ => none

/-- The one option of a statement, behind the word `option`. -/
def readOption? (tokens : List Token) : Option OptionSetting :=
  match readSetting? tokens with
  | some (setting, []) => some setting
  | _ => none

/-! ## Fields -/

/-- The numbers 1 to `2 ^ 29 - 1`, which the language has for fields. -/
def fieldNumbers : NumberRange := ⟨1, 2 ^ 29 - 1⟩

/-- The label at the start of a field, and what follows. -/
def readLabel : List Token → Option FieldLabel × List Token
  | .word "optional" :: rest => (some .optional, rest)
  | .word "required" :: rest => (some .required, rest)
  | .word "repeated" :: rest => (some .repeated, rest)
  | rest => (none, rest)

/-- The name, number and options of a field, which end its statement. -/
def readFieldRest? : List Token → Option (String × Nat × List OptionSetting)
  | .word name :: .mark '=' :: .natural number :: rest => do
    let options ← readBracketed? rest
    if fieldNumbers.contains number then return (name, number, options) else none
  | _ => none

/-- Where a field is declared. -/
inductive FieldContext where
  | message
  | oneof (name : String)
  | extend (target : String)
deriving DecidableEq, Repr

namespace FieldContext

/-- The oneof of a field: the one that it is declared in, or `ownOneof` for an optional field of a message in
the dialect `proto3`. -/
def oneof? (context : FieldContext) (dialect : Dialect) (label : Option FieldLabel) (name : String) :
    Option String :=
  match context with
  | oneof oneofName => some oneofName
  | extend _ => none
  | message => if dialect = .proto3 ∧ label = some .optional then some (ownOneof name) else none

/-- May a field have the label?  One in a oneof has none, the dialect `proto3` does not know `required`, and
`proto2` asks for a label. -/
def admits (context : FieldContext) (dialect : Dialect) (label : Option FieldLabel) : Bool :=
  match context, dialect, label with
  | oneof _, _, label => label.isNone
  | _, .proto3, label => label != some .required
  | _, .proto2, label => label.isSome

end FieldContext

/-- May the scalar be the key of a map?  Floats and bytes may not. -/
def isKeyKind (kind : Scalar) : Bool :=
  kind != .double && kind != .float && kind != .bytes

/-- What a block of a message holds: fields and oneofs of the message itself, ranges and options, and
declarations that are nested in it. -/
structure Members where
  fields : List FieldDeclaration := []
  oneofs : List OneofDeclaration := []
  reserved : List NumberRange := []
  extensible : List NumberRange := []
  options : List OptionSetting := []
  nested : Declarations := {}
deriving Repr, Inhabited

namespace Members

/-- The members of two parts of a block, kind by kind. -/
def append (a b : Members) : Members :=
  ⟨a.fields ++ b.fields, a.oneofs ++ b.oneofs, a.reserved ++ b.reserved, a.extensible ++ b.extensible,
    a.options ++ b.options, a.nested ++ b.nested⟩

/-- Members are joined with `++`, kind by kind. -/
instance : Append Members := ⟨append⟩

end Members

/-- A field as a member of its block, with the messages that it brings along; in the context `extend` it is an
extension. -/
def fieldMembers (scope : String) (context : FieldContext) (dialect : Dialect)
    (field : FieldDeclaration) (messages : List MessageDeclaration) : Members :=
  match context with
  | .extend target =>
    { nested := { messages, extensions := [⟨scope, target, field⟩] } }
  | context =>
    { fields := [field]
      oneofs := if context = .message then
          (context.oneof? dialect field.label field.name).toList.map fun name => { name }
        else []
      nested := { messages } }

/-- A field with an optional label, a type, a name and a number. -/
def readPlainField? (dialect : Dialect) (scope : String) (context : FieldContext) (tokens : List Token) :
    Option Members := do
  let (label, rest) := readLabel tokens
  let (type, rest) ← readType? rest
  let (name, number, options) ← readFieldRest? rest
  if context.admits dialect label then
    return fieldMembers scope context dialect
      { name, number, type, options, label
        shape := if label = some .repeated then .list else .single
        oneof := context.oneof? dialect label name }
      []
  else none

/-- A map field behind the word `map`, which only a message may have, with its entry type. -/
def readMapField? (dialect : Dialect) (scope : String) (context : FieldContext) (tokens : List Token) :
    Option Members :=
  match context, tokens with
  | .message, .mark '<' :: .word key :: .mark ',' :: rest => do
    let key ← Scalar.ofKeyword? key
    let (value, rest) ← readType? rest
    match rest with
    | .mark '>' :: rest =>
      let (name, number, options) ← readFieldRest? rest
      let entry := entryMessage scope name key value
      if isKeyKind key then
        return fieldMembers scope context dialect
          { name, number, options, type := .named ("." ++ entry.name), shape := .map } [entry]
      else none
    | _ => none
  | _, _ => none

/-- A field of a message, a oneof or an extension, other than a group. -/
def readField? (dialect : Dialect) (scope : String) (context : FieldContext) (tokens : List Token) :
    Option Members :=
  match tokens with
  | .word "map" :: .mark '<' :: rest => readMapField? dialect scope context (.mark '<' :: rest)
  | tokens => readPlainField? dialect scope context tokens

/-- The field of a group, which only the dialect `proto2` has: its name is that of the group in lower case. -/
def readGroup? (dialect : Dialect) (context : FieldContext) (tokens : List Token) :
    Option FieldDeclaration := do
  let (label, rest) := readLabel tokens
  match rest with
  | .word "group" :: rest =>
    let (name, number, options) ← readFieldRest? rest
    if dialect = .proto2 ∧ (name.toList.head?.map Char.isUpper).getD false ∧
        context.admits dialect label then
      return { name := String.ofList (name.toList.map Char.toLower), number, options, label
               type := .named name, grouped := true
               shape := if label = some .repeated then .list else .single
               oneof := context.oneof? dialect label name }
    else none
  | _ => none

/-- The name of the group whose field this is. -/
def groupName? : FieldDeclaration → Option String
  | { type := .named name, .. } => some name
  | _ => none

/-! ## Ranges -/

/-- Ranges of numbers within `limits`, with commas between them, and what follows them. -/
def readRanges? (limits : NumberRange) : Nat → List Token → Option (List NumberRange × List Token)
  | 0, _ => none
  | fuel + 1, tokens => do
    let (first, rest) ← readInteger? tokens
    let (last, rest) ← match rest with
      | .word "to" :: .word "max" :: rest => some (limits.last, rest)
      | .word "to" :: rest => readInteger? rest
      | rest => some (first, rest)
    if first ≤ last ∧ limits.contains first ∧ limits.contains last then
      match rest with
      | .mark ',' :: rest =>
        let (ranges, rest) ← readRanges? limits fuel rest
        return (⟨first, last⟩ :: ranges, rest)
      | rest => return ([⟨first, last⟩], rest)
    else none

/-- Strings with commas between them, up to the end of the statement. -/
def readNames? : List Token → Option (List String)
  | [.text bytes] => (textOf? bytes).map fun name => [name]
  | .text bytes :: .mark ',' :: rest => do
    let name ← textOf? bytes
    let names ← readNames? rest
    return name :: names
  | _ => none

/-- The ranges of numbers that a statement reserves; names that it reserves are read and dropped. -/
def readReserved? (limits : NumberRange) (tokens : List Token) : Option (List NumberRange) :=
  match tokens with
  | .text _ :: _ => (readNames? tokens).map fun _ => []
  | tokens =>
    match readRanges? limits tokens.length tokens with
    | some (ranges, []) => some ranges
    | _ => none

/-! ## Enumerations -/

/-- The numbers of 32 bits with a sign, which the language has for values of enumerations. -/
def enumNumbers : NumberRange := ⟨-(2 ^ 31), 2 ^ 31 - 1⟩

/-- A value of an enumeration with its number and its options. -/
def readEnumValue? : List Token → Option EnumValueDeclaration
  | .word name :: .mark '=' :: rest => do
    let (number, rest) ← readInteger? rest
    let options ← readBracketed? rest
    if enumNumbers.contains number then return ⟨name, number, options⟩ else none
  | _ => none

/-- Adds to an enumeration what one of its statements declares, an option, a reservation or a value. -/
def readEnumStatement? (enum : EnumDeclaration) : Statement → Option EnumDeclaration
  | .plain (.word "option" :: rest) => do
    let setting ← readOption? rest
    return { enum with options := enum.options ++ [setting] }
  | .plain (.word "reserved" :: rest) => do
    let ranges ← readReserved? enumNumbers rest
    return { enum with reserved := enum.reserved ++ ranges }
  | .plain tokens => do
    let value ← readEnumValue? tokens
    return { enum with values := enum.values ++ [value] }
  | .block .. => none

/-- The enumeration with a name in a scope whose block is given. -/
def readEnum? (scope name : String) (body : List Statement) : Option EnumDeclaration :=
  body.foldlM readEnumStatement? { scope, name := qualified scope name }

/-! ## Services -/

/-- The type of the input or output of a method in parentheses, without the word `stream`, and what follows. -/
def readMethodType? : List Token → Option (String × List Token)
  | .mark '(' :: rest => do
    let (path, rest) ← match rest with
      | .word "stream" :: .mark ')' :: rest => some ("stream", .mark ')' :: rest)
      | .word "stream" :: .mark '.' :: .word name :: rest => some (readPathRest ("." ++ name) rest)
      | .word "stream" :: rest => readTypePath? rest
      | rest => readTypePath? rest
    match rest with
    | .mark ')' :: rest => return (path, rest)
    | _ => none
  | _ => none

/-- A method behind the word `rpc`. -/
def readMethod? : List Token → Option MethodDeclaration
  | .word name :: rest => do
    let (input, rest) ← readMethodType? rest
    match rest with
    | .word "returns" :: rest =>
      let (output, rest) ← readMethodType? rest
      if rest.isEmpty then return { name, input, output } else none
    | _ => none
  | _ => none

/-- The options in a block that holds nothing else. -/
def readOptions? (body : List Statement) : Option (List OptionSetting) :=
  body.mapM fun
    | .plain (.word "option" :: rest) => readOption? rest
    | _ => none

/-- Adds to a service what one of its statements declares, an option or a method. -/
def readServiceStatement? (service : ServiceDeclaration) : Statement → Option ServiceDeclaration
  | .plain (.word "option" :: rest) => do
    let setting ← readOption? rest
    return { service with options := service.options ++ [setting] }
  | .plain (.word "rpc" :: rest) => do
    let method ← readMethod? rest
    return { service with methods := service.methods ++ [method] }
  | .block (.word "rpc" :: rest) body => do
    let method ← readMethod? rest
    let options ← readOptions? body
    return { service with methods := service.methods ++ [{ method with options }] }
  | _ => none

/-- The service with a name in a scope whose block is given. -/
def readService? (scope name : String) (body : List Statement) : Option ServiceDeclaration :=
  body.foldlM readServiceStatement? { name := qualified scope name }

/-! ## Messages -/

/-- The members that a statement without a block declares in a message, a oneof or an extension. -/
def readPlainMember? (dialect : Dialect) (scope : String) (context : FieldContext)
    (tokens : List Token) : Option Members :=
  match context, tokens with
  | .message, .word "option" :: rest => (readOption? rest).map fun setting => { options := [setting] }
  | .message, .word "reserved" :: rest =>
    (readReserved? fieldNumbers rest).map fun ranges => { reserved := ranges }
  | .message, .word "extensions" :: rest => do
    let (ranges, rest) ← readRanges? fieldNumbers rest.length rest
    let _ ← readBracketed? rest
    if dialect = .proto2 then return { extensible := ranges } else none
  | .oneof _, .word "option" :: rest => (readOption? rest).map fun setting => { options := [setting] }
  | context, tokens => readField? dialect scope context tokens

/-- A message with its members as a nested declaration of the block around it. -/
def messageMembers (name : String) (members : Members) : Members :=
  let message : MessageDeclaration :=
    ⟨name, members.fields, members.oneofs, members.reserved, members.extensible, members.options⟩
  { nested := { messages := [message] } ++ members.nested }

/-- The members of a block, statement by statement. -/
def readMembers? (dialect : Dialect) (scope : String) (context : FieldContext) :
    List Statement → Option Members
  | [] => some {}
  | .plain tokens :: rest => do
    let first ← readPlainMember? dialect scope context tokens
    let others ← readMembers? dialect scope context rest
    return first ++ others
  | .block tokens body :: rest => do
    let first ← match tokens, context with
      | [.word "message", .word name], .message => do
        let members ← readMembers? dialect (qualified scope name) .message body
        some (messageMembers (qualified scope name) members)
      | [.word "enum", .word name], .message => do
        let enum ← readEnum? scope name body
        some { nested := { enums := [enum] } }
      | [.word "oneof", .word name], .message => do
        let members ← readMembers? dialect scope (.oneof name) body
        if members.fields.isEmpty then none
        else some { members with options := [], oneofs := [⟨name, members.options⟩] }
      | .word "extend" :: target, .message => do
        let (target, left) ← readTypePath? target
        let members ← readMembers? dialect scope (.extend target) body
        if left.isEmpty && !members.nested.extensions.isEmpty then some members else none
      | tokens, context => do
        let field ← readGroup? dialect context tokens
        let name ← groupName? field
        let members ← readMembers? dialect (qualified scope name) .message body
        some (fieldMembers scope context dialect field [] ++
          messageMembers (qualified scope name) members)
    let others ← readMembers? dialect scope context rest
    return first ++ others

/-! ## The document -/

/-- Adds to a document what a statement about it as a whole says: its package, an import or an option. -/
def readHeader? (file : SchemaFile) : List Token → Option SchemaFile
  | .word "package" :: rest =>
    match readPath? rest with
    | some (package, []) => if file.package.isEmpty then some { file with package } else none
    | _ => none
  | .word "import" :: rest => do
    let (isPublic, path) ← match rest with
      | [.word "public", .text bytes] => some (true, bytes)
      | [.word "weak", .text bytes] => some (false, bytes)
      | [.text bytes] => some (false, bytes)
      | _ => none
    let path ← textOf? path
    return { file with imports := file.imports ++ [⟨path, isPublic⟩] }
  | .word "option" :: rest => do
    let setting ← readOption? rest
    return { file with options := file.options ++ [setting] }
  | _ => none

/-- Adds to a document what its statements without a block say, in turn. -/
def readHeaders? (file : SchemaFile) : List Statement → Option SchemaFile
  | [] => some file
  | .plain tokens :: rest => (readHeader? file tokens).bind fun file => readHeaders? file rest
  | .block .. :: rest => readHeaders? file rest

/-- The declarations of a document: its services, and the members of its other blocks. -/
def readDeclarations? (dialect : Dialect) (scope : String) : List Statement → Option Declarations
  | [] => some {}
  | .plain _ :: rest => readDeclarations? dialect scope rest
  | .block [.word "service", .word name] body :: rest => do
    let service ← readService? scope name body
    let others ← readDeclarations? dialect scope rest
    return { services := [service] } ++ others
  | .block tokens body :: rest => do
    let members ← match tokens with
      | .word "message" :: _ | .word "enum" :: _ | .word "extend" :: _ =>
        readMembers? dialect scope .message [.block tokens body]
      | _ => none
    let others ← readDeclarations? dialect scope rest
    return members.nested ++ others

/-- The dialect that the first statement names, `proto2` where it names none, and the statements behind it. -/
def readDialect? : List Statement → Option (Dialect × List Statement)
  | .plain (.word "syntax" :: tokens) :: rest =>
    match tokens with
    | [.mark '=', .text bytes] =>
      match textOf? bytes with
      | some "proto2" => some (.proto2, rest)
      | some "proto3" => some (.proto3, rest)
      | _ => none
    | _ => none
  | rest => some (.proto2, rest)

/-- The document that a text writes, under the given path. -/
def SchemaFile.ofText? (path text : String) : Option SchemaFile := do
  let statements ← statements? text
  let (dialect, statements) ← readDialect? statements
  let file ← readHeaders? { path, dialect } statements
  let declarations ← readDeclarations? dialect file.package statements
  return { file with declarations }

end Schema

end Tagwire
