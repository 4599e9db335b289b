/-!
# Names of messages and fields

A record definition has an identity, its message has a name derived from it, and its fields have record
keys in lower camel case beside field names in snake case.  A message name is an ASCII identifier of at
most 32 bytes other than the reserved name of the base type; the type carries that as a proof, so that a
name, once made, fits the slot of a type tag.
-/

set_option autoImplicit false

namespace Tagwire

/-- The identity of a record definition, which may be any text. -/
abbrev RecordId : Type := String

/-! ## Identifiers -/

/-- May the character start an identifier: is it an ASCII letter or an underscore? -/
def isIdentifierStart (c : Char) : Bool := c.isAlpha || c == '_'

/-- May the character continue an identifier: is it an ASCII letter, a digit or an underscore? -/
def isIdentifierRest (c : Char) : Bool := c.isAlphanum || c == '_'

/-- An ASCII letter or underscore, then ASCII letters, digits and underscores. -/
def isIdentifierChars : List Char → Bool
  | [] => false
  | c :: rest => isIdentifierStart c && rest.all isIdentifierRest

/-- Is the text an ASCII identifier? -/
def isIdentifier (text : String) : Bool := isIdentifierChars text.toList

/-! ## Record keys and field names -/

/-- Every upper-case ASCII letter in lower case and behind an underscore. -/
def underscored : List Char → List Char
  | [] => []
  | c :: rest => if c.isUpper then '_' :: c.toLower :: underscored rest else c :: underscored rest

/-- The snake-case form of a name: words split before each upper-case letter but a leading one. -/
def snakeCaseChars : List Char → List Char
  | [] => []
  | c :: rest => c.toLower :: underscored rest

/-- The field name of a record key: `createdAt` becomes `created_at`. -/
def snakeCase (key : String) : String := String.ofList (snakeCaseChars key.toList)

/-- Underscores dropped, and the next character that is none in upper case. -/
def lowerCamelChars (raise : Bool) : List Char → List Char
  | [] => []
  | c :: rest =>
    if c = '_' then lowerCamelChars true rest
    else (if raise then c.toUpper else c) :: lowerCamelChars false rest

/-- The record key of a field name, as the JSON mapping derives it: `created_at` becomes `createdAt`. -/
def lowerCamel (fieldName : String) : String :=
  String.ofList (lowerCamelChars false fieldName.toList)

/-! ## Message names -/

/-- The ending `SchemaDefinition` of an identity, which its message name does not keep. -/
def definitionSuffix : String := "SchemaDefinition"

/-- The ending `Message` of every derived message name. -/
def messageSuffix : String := "Message"

/-- The name `Message` of the base type, which is the parent of messages without another one and no name of a
definition. -/
def baseMessage : String := "Message"

/-- The key and name `type` of the field that holds the type of a record. -/
def typeField : String := "type"

/-- The longest message name: 32 bytes. -/
def maxMessageNameBytes : Nat := 32

/-- Why a text is no message name: it has more than `maxMessageNameBytes` bytes, is no identifier, or is
`baseMessage`. -/
inductive NameError where
  | tooLong (name : String)
  | notIdentifier (name : String)
  | reserved (name : String)
deriving DecidableEq, Repr

namespace NameError

/-- The wording of the error, with the name and, for one that is too long, its length and the limit. -/
def message : NameError → String
  | tooLong name =>
    "message name '" ++ name ++ "' is " ++ toString name.utf8ByteSize
      ++ " bytes, exceeding the " ++ toString maxMessageNameBytes ++ "-byte limit"
  | notIdentifier name =>
    "invalid message name '" ++ name ++ "': message names must be ASCII identifiers"
  | reserved name =>
    "invalid message name '" ++ name ++ "': '" ++ baseMessage
      ++ "' is reserved for the base message type"

end NameError

/-- Is the text fit to name a message: an identifier of at most `maxMessageNameBytes` bytes that is not
`baseMessage`? -/
def isMessageName (text : String) : Bool :=
  text.utf8ByteSize ≤ maxMessageNameBytes && isIdentifier text && text != baseMessage

/-- The name of a message, with the proof that it is fit to be one. -/
structure MessageName where
  text : String
  wellFormed : isMessageName text = true
deriving DecidableEq

namespace MessageName

/-- The message name with a given text: its length is judged first, then its characters, and then
whether it is reserved. -/
def ofText (text : String) : Except NameError MessageName :=
  if h : isMessageName text = true then .ok ⟨text, h⟩
  else if maxMessageNameBytes < text.utf8ByteSize then .error (.tooLong text)
  else if !isIdentifier text then .error (.notIdentifier text)
  else .error (.reserved text)

/-- An identity without its ending, if it has it. -/
def stem (id : RecordId) : String :=
  let ending := definitionSuffix.toList
  let cs := id.toList
  if ending.isSuffixOf cs then String.ofList (cs.take (cs.length - ending.length)) else id

/-- The message name of an identity. -/
def ofId (id : RecordId) : Except NameError MessageName := ofText (stem id ++ messageSuffix)

/-- The length of the name in bytes. -/
def byteSize (name : MessageName) : Nat := name.text.utf8ByteSize

end MessageName

end Tagwire
