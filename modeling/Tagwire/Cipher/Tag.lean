import Tagwire.Cipher.Block
import Tagwire.Json.Shape
import Tagwire.Text.Blank
import Tagwire.Text.Hex
import Tagwire.Text.Utf8
import Tagwire.Yaml

/-!
# Type tags

A tag is the name of a type, padded to one block, chained to an initialization block and enciphered, in
hexadecimal.  One block leaves room for fifteen bytes of name.  The key and the initialization block come
from a configuration or are the built-in ones, which are public: a tag hides nothing, it only keeps type
names out of plain sight.
-/

set_option autoImplicit false

namespace Tagwire

/-- The ciphers that a tag can be made with: AES with a key of 128 or of 256 bits, in CBC mode. -/
inductive CipherAlgorithm where
  | aes128
  | aes256
deriving DecidableEq, Repr, Inhabited

namespace CipherAlgorithm

/-- The identifier of an algorithm. -/
def identifier : CipherAlgorithm → String
  | aes128 => "aes-128-cbc"
  | aes256 => "aes-256-cbc"

/-- The label of an algorithm in descriptions. -/
def label : CipherAlgorithm → String
  | aes128 => "Aes128Cbc"
  | aes256 => "Aes256Cbc"

/-- The algorithm with an identifier. -/
def ofIdentifier? (text : String) : Option CipherAlgorithm :=
  [aes128, aes256].find? fun a => a.identifier == text

/-- The length of a key in bytes: 16 or 32. -/
def keyLength : CipherAlgorithm → Nat
  | aes128 => 16
  | aes256 => 32

/-- The built-in key, as long as the algorithm takes. -/
def defaultKey : CipherAlgorithm → Bytes
  | aes128 =>
    [0x70, 0x72, 0x6f, 0x74, 0x6f, 0x73, 0x70, 0x61, 0x72, 0x6b, 0x2d, 0x74, 0x61, 0x67, 0x2d, 0x6b]
  | aes256 =>
    [0x70, 0x72, 0x6f, 0x74, 0x6f, 0x73, 0x70, 0x61, 0x72, 0x6b, 0x2d, 0x65, 0x6e, 0x76, 0x65, 0x6c,
     0x6f, 0x70, 0x65, 0x2d, 0x74, 0x79, 0x70, 0x65, 0x2d, 0x74, 0x61, 0x67, 0x2d, 0x6b, 0x65, 0x79]

end CipherAlgorithm

/-- The built-in initialization block of 16 bytes. -/
def defaultInitialization : Bytes :=
  [0x70, 0x72, 0x6f, 0x74, 0x6f, 0x73, 0x70, 0x61, 0x72, 0x6b, 0x2d, 0x74, 0x61, 0x67, 0x69, 0x76]

/-- The length of a block, 16 bytes. -/
def blockLength : Nat := 16

/-- The length of a tag, the 32 hexadecimal digits of a block. -/
def tagLength : Nat := 2 * blockLength

/-- The bytes of the longest name, 15, which leaves room for padding in its block. -/
def maxTagNameBytes : Nat := blockLength - 1

/-- Why the plaintext of a tag is no name. -/
inductive TagFault where
  | padding
  | text (error : Utf8Error)
deriving DecidableEq, Repr

namespace TagFault

/-- The wording of the fault. -/
def message : TagFault → String
  | padding => "Unpad Error"
  | text error => error.message

end TagFault

/-- Why a cipher cannot be built, or a tag not be made or read. -/
inductive CipherError where
  | invalidKeyLength (algorithm : CipherAlgorithm) (actual : Nat)
  | invalidInitializationLength (actual : Nat)
  | hexDecode (error : Hex.DecodeError)
  | plaintextTooLong (length : Nat)
  | invalidTagLength (actual : Nat)
  | undecryptable (fault : TagFault)
deriving DecidableEq, Repr

namespace CipherError

/-- The wording of the error. -/
def message : CipherError → String
  | invalidKeyLength algorithm actual =>
    "invalid key length for " ++ algorithm.identifier ++ ": expected " ++ toString algorithm.keyLength
      ++ " bytes, got " ++ toString actual
  | invalidInitializationLength actual =>
    "invalid IV length: expected 16 bytes, got " ++ toString actual
  | hexDecode error => "hex decode error: " ++ error.message
  | plaintextTooLong length =>
    "plaintext is " ++ toString length ++ " bytes; a single-block tag holds at most "
      ++ toString maxTagNameBytes
  | invalidTagLength actual =>
    "tag must be " ++ toString tagLength ++ " hex characters, got " ++ toString actual
  | undecryptable fault => "tag does not decrypt under the configured key: " ++ fault.message

end CipherError

/-! ## Configuration -/

/-- The configuration of a cipher: the algorithm, and the key and the initialization block in hexadecimal or
left to the built-in ones. -/
structure CipherConfig where
  algorithm : CipherAlgorithm := .aes128
  key : Option String := none
  initialization : Option String := none
deriving DecidableEq, Repr, Inhabited

namespace CipherConfig

/-- The JSON form of a configuration. -/
def toJson (config : CipherConfig) : Json :=
  .ofMembers
    [("algo", .str config.algorithm.identifier),
     ("key", .ofOption (config.key.map Json.str)),
     ("iv", .ofOption (config.initialization.map Json.str))]

/-- The configuration with a JSON form; every member may be missing and no other is known. -/
def ofJson? (json : Json) : Option CipherConfig := do
  match ← json.structure? [⟨"algo", true⟩, ⟨"key", true⟩, ⟨"iv", true⟩] true with
  | [algorithm, key, initialization] =>
    let algorithm ← match algorithm with
      | none => some CipherAlgorithm.aes128
      | some choice => choice.choiceName?.bind CipherAlgorithm.ofIdentifier?
    let key ← (key.getD .null).optionalString?
    let initialization ← (initialization.getD .null).optionalString?
    return { algorithm, key, initialization }
  | _ => none

/-- The configuration that a YAML document says, of which JSON is a part. -/
def ofYaml? (text : String) : Option CipherConfig := (Yaml.read? text).bind ofJson?

/-- The text that says whether a secret is given, without showing it. -/
def redacted : Option String → String
  | some _ => "Some(\"<redacted>\")"
  | none => "None"

/-- A description that shows no secret. -/
def describe (config : CipherConfig) : String :=
  "CipherConfig \x7b algo: " ++ config.algorithm.label ++ ", key: " ++ redacted config.key ++ ", iv: "
    ++ redacted config.initialization ++ " \x7d"

end CipherConfig

/-! ## The cipher -/

/-- A cipher for tags, with an initialization block and a key whose length is the `keyLength` of its
algorithm. -/
structure TagCipher where
  algorithm : CipherAlgorithm
  key : Bytes
  initialization : Block
  key_length : key.length = algorithm.keyLength

namespace TagCipher

/-- The cipher with a raw key and a raw initialization block, or an error about the first of them whose length
is wrong. -/
def ofRaw (algorithm : CipherAlgorithm) (key initialization : Bytes) : Except CipherError TagCipher :=
  if h : key.length = algorithm.keyLength then
    match Block.ofBytes? initialization with
    | some block => .ok ⟨algorithm, key, block, h⟩
    | none => .error (.invalidInitializationLength initialization.length)
  else .error (.invalidKeyLength algorithm key.length)

/-- The bytes of a configured secret, or the built-in ones. -/
def secret (configured : Option String) (builtIn : Bytes) : Except CipherError Bytes :=
  match configured with
  | none => .ok builtIn
  | some text => (Hex.decode (trimmed text)).mapError .hexDecode

/-- The cipher that a configuration describes. -/
def ofConfig (config : CipherConfig) : Except CipherError TagCipher := do
  let key ← secret config.key config.algorithm.defaultKey
  let initialization ← secret config.initialization defaultInitialization
  ofRaw config.algorithm key initialization

/-- The cipher with the built-in key and initialization block. -/
def builtIn : TagCipher :=
  { algorithm := .aes128
    key := CipherAlgorithm.defaultKey .aes128
    initialization := (Block.ofBytes? defaultInitialization).getD default
    key_length := rfl }

/-- A description that shows no secret. -/
def describe (cipher : TagCipher) : String :=
  "EnvelopeCipher(" ++ cipher.algorithm.identifier ++ ", <key>)"

/-- The round keys of the cipher. -/
def roundKeys (cipher : TagCipher) : RoundKeys := .ofKey cipher.key

/-- A name filled up to `blockLength`, each added byte being the number of added ones. -/
def pad (name : Bytes) : Bytes :=
  let missing := blockLength - name.length
  name ++ List.replicate missing (UInt8.ofNat missing)

/-- A block without its padding, if its last byte is from 1 to 16 and as many bytes at its end are equal to
it. -/
def unpad? (block : Bytes) : Option Bytes :=
  let missing := (block.getLastD 0).toNat
  let kept := blockLength - missing
  if 0 < missing ∧ missing ≤ blockLength ∧ (block.drop kept).all (·.toNat == missing) then
    some (block.take kept)
  else none

/-- The tag of a name of at most fifteen bytes, as character codes. -/
def encryptBytes (cipher : TagCipher) (name : Bytes) : Bytes :=
  let block := (Block.ofBytes? (pad name)).getD default
  Hex.encodeBytes ((block.add cipher.initialization).encipher cipher.roundKeys).toBytes

/-- The tag of a name, or an error if the name has more than `maxTagNameBytes`. -/
def encrypt (cipher : TagCipher) (name : String) : Except CipherError String :=
  let bytes := Bytes.ofString name
  if maxTagNameBytes < bytes.length then .error (.plaintextTooLong bytes.length)
  else .ok (Hex.ofCodes (cipher.encryptBytes bytes))

/-- The plaintext of a deciphered tag, still with its padding. -/
def plaintext (cipher : TagCipher) (block : Block) : Bytes :=
  ((block.decipher cipher.roundKeys).add cipher.initialization).toBytes

/-- The name of a tag, or an error if the tag does not have `tagLength` bytes, is not hexadecimal, or does not
decipher to padded text in UTF-8. -/
def decrypt (cipher : TagCipher) (tag : String) : Except CipherError String :=
  if tag.utf8ByteSize ≠ tagLength then .error (.invalidTagLength tag.utf8ByteSize)
  else
    match Hex.decode (trimmed tag) with
    | .error e => .error (.hexDecode e)
    | .ok ciphertext =>
      match (Block.ofBytes? ciphertext).bind fun block => unpad? (cipher.plaintext block) with
      | none => .error (.undecryptable .padding)
      | some name => (Utf8.decode name).mapError fun e => .undecryptable (.text e)

end TagCipher

end Tagwire
