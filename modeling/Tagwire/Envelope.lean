import Tagwire.Cipher.Tag

/-!
# Predictive envelopes

An envelope is an encoded record whose first field, the one that holds its type, carries a tag in place of
the type name.  It therefore starts with the key of that field, the length of a tag, and the digits of the
tag, and the type can be read off before anything else of the record is.
-/

set_option autoImplicit false

namespace Tagwire

/-- Why bytes carry no readable type tag: there are fewer than `minLength`, the first two are not `header`, the
32 behind them are not hexadecimal digits, or the cipher refuses these. -/
inductive EnvelopeError where
  | tooShort (length : Nat)
  | wrongHeader (first second : UInt8)
  | notHex
  | undecryptable (error : CipherError)
deriving DecidableEq, Repr

namespace Envelope

/-- The first two bytes `0A 20`: the key of field 1 with a length-delimited value, and the length of a tag. -/
def header : Bytes := [0x0A, UInt8.ofNat tagLength]

/-- The least length of an envelope, 34: that of the header and of the tag. -/
def minLength : Nat := header.length + tagLength

/-- How an error names what was to be read: a predictive envelope. -/
def target : String := "predictive envelope"

end Envelope

namespace EnvelopeError

/-- A byte in two hexadecimal digits, as an error shows it. -/
def twoDigits (b : UInt8) : String := Hex.encode [b]

/-- What is wrong with the bytes, as the error says it. -/
def reason : EnvelopeError → String
  | tooShort length =>
    "need at least " ++ toString Envelope.minLength ++ " bytes for the type tag, got " ++ toString length
  | wrongHeader first second =>
    "expected header 0a 20 at offset 0, found " ++ twoDigits first ++ " " ++ twoDigits second
  | notHex => "type tag at offset 2 is not hex"
  | undecryptable error => "type tag at offset 2 does not decrypt: " ++ error.message

end EnvelopeError

namespace Envelope

/-- The 32 digits of the tag of an envelope, as character codes; the length is judged first, then the header,
then the digits. -/
def slot (bytes : Bytes) : Except EnvelopeError Bytes :=
  if bytes.length < minLength then .error (.tooShort bytes.length)
  else if bytes.take header.length ≠ header then
    .error (.wrongHeader (bytes.getD 0 0) (bytes.getD 1 0))
  else
    let digits := (bytes.drop header.length).take tagLength
    if digits.all fun c => (Hex.value? c).isSome then .ok digits else .error .notHex

/-- Do the bytes start with a header and 32 hexadecimal digits?  Whether the cipher accepts these is not
asked. -/
def isEnvelope (bytes : Bytes) : Bool :=
  match slot bytes with
  | .ok _ => true
  | .error _ => false

/-- The type that the tag of an envelope names: `slot`, decrypted. -/
def peek (cipher : TagCipher) (bytes : Bytes) : Except EnvelopeError String := do
  let digits ← slot bytes
  (cipher.decrypt (Hex.ofCodes digits)).mapError .undecryptable

end Envelope

end Tagwire
