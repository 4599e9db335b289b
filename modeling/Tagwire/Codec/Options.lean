import Tagwire.Cipher.Tag

/-!
# Options of a codec

Whether records are verified unless a call says otherwise, and the cipher of the type tags.
-/

set_option autoImplicit false

namespace Tagwire

/-- The options of a codec: whether it verifies by default, and the configuration of its cipher. -/
structure CodecOptions where
  verifyByDefault : Bool := true
  cipher : CipherConfig := {}
deriving DecidableEq, Repr, Inhabited

namespace CodecOptions

/-- The JSON form of options. -/
def toJson (options : CodecOptions) : Json :=
  .ofMembers
    [("verify_by_default", .bool options.verifyByDefault), ("cipher", options.cipher.toJson)]

/-- The options with a JSON form; each of the two members may be missing, and no other is known. -/
def ofJson? (json : Json) : Option CodecOptions := do
  match ← json.structure? [⟨"verify_by_default", true⟩, ⟨"cipher", true⟩] true with
  | [verify, cipher] =>
    let verifyByDefault ← match verify with
      | none => some true
      | some (.bool b) => some b
      | some _ => none
    let cipher ← match cipher with
      | none => some ({} : CipherConfig)
      | some c => CipherConfig.ofJson? c
    return { verifyByDefault, cipher }
  | _ => none

/-- A description of the options that shows no key. -/
def describe (options : CodecOptions) : String :=
  "CodecOptions \x7b verify_by_default: " ++ (if options.verifyByDefault then "true" else "false")
    ++ ", cipher: " ++ options.cipher.describe ++ " \x7d"

end CodecOptions

end Tagwire
