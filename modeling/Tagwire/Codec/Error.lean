import Tagwire.Envelope

/-!
# Why encoding and decoding fail

The errors of everything that needs a loaded schema, with their wording.
-/

set_option autoImplicit false

namespace Tagwire

/-- Why a record does not conform to a type: what a member holds, or the lack of a field for the tag. -/
inductive Violation where
  | content
  | noTypeTag
deriving DecidableEq, Repr

/-- Why bytes cannot be decoded: they write no message of the type, or they carry no readable tag. -/
inductive FormatFault where
  | message (typeName : String)
  | envelope (error : EnvelopeError)
deriving DecidableEq, Repr

/-- Why a schema cannot be loaded, or a record or bytes cannot be used. -/
inductive CodecError where
  | notCompiled
  | alreadyCompiled
  | noDocuments
  | schemaLoad (origin : String)
  | typeNotFound (typeName : String)
  | unknownPredictiveType (typeName : String)
  | missingType
  | typeNameTooLong (typeName : String)
  | violation (typeName : String) (cause : Violation)
  | format (fault : FormatFault)
  | cipher (error : CipherError)
deriving DecidableEq, Repr

namespace Violation

/-- What is wrong with the record, in the words of the error. -/
def detail : Violation → String
  | content => "a member is unknown or does not fit its field"
  | noTypeTag => "predictive envelopes need `string type = 1`"

end Violation

namespace FormatFault

/-- What was to be read: the name of the message type, or an envelope. -/
def target : FormatFault → String
  | message typeName => typeName
  | envelope _ => Envelope.target

/-- What is wrong with the bytes, in the words of the error. -/
def reason : FormatFault → String
  | message _ => "the bytes are no message of the type"
  | envelope error => error.reason

end FormatFault

namespace CodecError

/-- How an error names the lack of documents, in the place of their paths. -/
def noOrigin : String := "<none>"

/-- The wording of the error, with the names and paths that it is about. -/
def message : CodecError → String
  | notCompiled => "schema has not been compiled"
  | alreadyCompiled => "schema is already compiled"
  | noDocuments => "schema load error for '" ++ noOrigin ++ "': no schema documents given"
  | schemaLoad origin =>
    "schema load error for '" ++ origin ++ "': the documents cannot be read and linked"
  | typeNotFound typeName =>
    "type " ++ typeName ++ " not found; make sure the schema was compiled and the type exists"
  | unknownPredictiveType typeName =>
    "predictive envelope carries unregistered type '" ++ typeName ++ "'"
  | missingType =>
    "type of the message is missing; every record must carry a non-empty string `type`"
  | typeNameTooLong typeName =>
    "type name '" ++ typeName ++ "' is " ++ toString typeName.utf8ByteSize
      ++ " bytes; predictive envelopes hold at most " ++ toString maxTagNameBytes
  | violation typeName cause =>
    "record does not conform to " ++ typeName ++ ": " ++ cause.detail
  | format fault => "invalid input format for " ++ fault.target ++ ": " ++ fault.reason
  | cipher error => "envelope cipher error: " ++ error.message

end CodecError

end Tagwire
