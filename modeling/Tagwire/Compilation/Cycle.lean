import Tagwire.Compilation.Catalog

/-!
# Cycles among definitions

A definition refers to its parent and to the records its fields hold.  A depth-first search follows these
references from every definition in order.  Its path holds the definitions whose references are being
followed, and a reference back into the path is a cycle; a definition whose references led to none is
finished and not searched again.  Since the path never repeats a definition, it is never longer than the
catalog, and that bounds the depth of the search.
-/

set_option autoImplicit false

namespace Tagwire

namespace RecordDefinition

/-- The identities a definition refers to: its parent, and then the records of its fields in order, listed or
not. -/
def references (definition : RecordDefinition) : List RecordId :=
  definition.parent.toList ++ definition.fields.filterMap fun f =>
    match f.2.kind with
    | .record target => some target
    | _ => none

end RecordDefinition

namespace Catalog

/-- The cycle that a reference closes, read from a path whose innermost definition comes first. -/
def cycleAt (path : List RecordId) (id : RecordId) : List RecordId :=
  id :: (path.takeWhile (· != id)).reverse ++ [id]

/-- Searches from one identity, at most `depth` references deep.

`path` holds the identities being searched with the innermost first, and `finished` those that lead to no
cycle.  The outcome is the new list of finished ones, or the first cycle. -/
def search (catalog : Catalog) (depth : Nat) (path finished : List RecordId) (id : RecordId) :
    Except (List RecordId) (List RecordId) :=
  if finished.contains id then .ok finished
  else if path.contains id then .error (cycleAt path id)
  else
    match depth with
    | 0 => .ok finished
    | depth + 1 =>
      match catalog.get? id with
      | none => .ok finished
      | some e =>
        (e.definition.references.foldlM (fun done target => search catalog depth (id :: path) done target)
          finished).map (id :: ·)

/-- Searches from every definition in order for a reference cycle, with one level more than there are
definitions. -/
def checkAcyclic (catalog : Catalog) : Except CompileError Unit :=
  match catalog.foldlM
      (fun finished e => catalog.search (catalog.length + 1) [] finished e.definition.id) [] with
  | .ok _ => .ok ()
  | .error ids => .error (.cycle ids)

end Catalog

end Tagwire
