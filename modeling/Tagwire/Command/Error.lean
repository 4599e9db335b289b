import Tagwire.Codec.Error

/-!
# Why a command fails

A command fails at one of its steps, and most errors say at which file.
-/

set_option autoImplicit false

namespace Tagwire

/-- Why a command fails. -/
inductive CommandError where
  | configUnreadable (path : String)
  | configMalformed (path : String)
  | cipher (error : CodecError)
  | schema (error : CodecError)
  | recordUnreadable (path : String)
  | recordMalformed (path : String)
  | encoding (path : String) (error : CodecError)
  | inputUnreadable (path : String)
  | tag (path : String) (error : CodecError)
  | decoding (error : CodecError)
  | outputUnwritable (path : String)
deriving DecidableEq, Repr

namespace CommandError

/-- The step that failed, in words; an error of decoding stands for itself. -/
def context? : CommandError → Option String
  | configUnreadable path => some ("failed to read cipher config: " ++ path)
  | configMalformed path => some ("failed to parse cipher config: " ++ path)
  | cipher _ => some "invalid cipher configuration"
  | schema _ => some "failed to load schema"
  | recordUnreadable path => some ("failed to read record: " ++ path)
  | recordMalformed path => some ("failed to parse record JSON: " ++ path)
  | encoding path _ => some ("failed to encode " ++ path)
  | inputUnreadable path => some ("failed to read input: " ++ path)
  | tag path _ => some ("no readable type tag in " ++ path)
  | decoding _ => none
  | outputUnwritable path => some ("failed to write output: " ++ path)

/-- The error of the codec that the command failed on. -/
def codec? : CommandError → Option CodecError
  | cipher error => some error
  | schema error => some error
  | encoding _ error => some error
  | tag _ error => some error
  | decoding error => some error
  | _ => none

/-- The wording of the error. -/
def message (error : CommandError) : String :=
  ": ".intercalate (error.context?.toList ++ (error.codec?.map CodecError.message).toList)

end CommandError

end Tagwire
