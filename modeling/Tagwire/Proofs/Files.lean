import Tagwire.Files
import Tagwire.Proofs.Entries

/-!
# Writing a file

A file is written where its path leads, in a directory that there is already.  Its own path has therefore no
directory in front of it that the others have not, so that the directories stay the same, and with them
where every path leads.  What stands at a path after the writing is what stood there before, unless the path
leads to the file that was written.
-/

set_option autoImplicit false

namespace Tagwire

namespace Files

variable {files after : Files}

/-! ## Directories -/

example : ({ contents := [("a/b", [])], current := [['a']] } : Files).resolve? true "b" = some "a/b" ∧
    ({ contents := [("a/b", [])], current := [['a']] } : Files).resolve? true "/a/b" = some "a/b" := by
  decide +kernel

/-! ## Writing -/

end Files

end Tagwire
