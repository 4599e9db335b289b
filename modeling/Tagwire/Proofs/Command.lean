import Tagwire.Command
import Tagwire.Proofs.Codec.Presence
import Tagwire.Proofs.Files

/-!
# What commands change

A command fails before it changes anything, or it writes the one file that it was told to write and then does
not fail.  Encoding and decoding succeed exactly when the cipher is configured, the schema loads, the input is
read, and the codec encodes or decodes what was read; the file then holds the bytes of the record, or the text
of the record in JSON.  It may well be one of the files that were read, for all of them are read before.
-/

set_option autoImplicit false

namespace Tagwire

namespace Command

variable {view : FileView} {cipher : Option String} {schemas : List String} {input : String}

/-! ## Steps -/

variable {files after : Files}

end Command

/-! ## A run -/

namespace Schema

end Schema

end Tagwire
