import Tagwire.Json.Printer
import Tagwire.Name
import Tagwire.Text.Quoted

/-!
# Records

A record is a JSON object whose `type` member names the message it is an instance of.  It keeps its
members sorted by key and puts no other demand on them: what a member may hold is for a schema to judge.
-/

set_option autoImplicit false

namespace Tagwire

/-- A record: its members, strictly ascending by key. -/
structure Record where
  contents : SortedEntries Json := .empty
deriving BEq, Repr, Inhabited

namespace Record

/-- The members of a record, as a list that ascends by key. -/
def members (record : Record) : Entries Json := record.contents.entries

/-- Why a JSON value is no record: it is not an object, but what the constructor says. -/
inductive ShapeError where
  | null
  | boolean (value : Bool)
  | number
  | string (value : String)
  | sequence
deriving DecidableEq, Repr

namespace ShapeError

/-- What was found in place of an object, in the words of the error. -/
def found : ShapeError → String
  | null => "null"
  | boolean value => "boolean `" ++ (if value then "true" else "false") ++ "`"
  | number => "number"
  | string value => "string " ++ Quoted.text value
  | sequence => "sequence"

/-- The wording of the error, which ends in `expected a JSON object`. -/
def message (e : ShapeError) : String := "invalid type: " ++ e.found ++ ", expected a JSON object"

end ShapeError

/-- The record with a JSON form, which has to be an object. -/
def ofJson : Json → Except ShapeError Record
  | .obj members => .ok ⟨members⟩
  | .null => .error .null
  | .bool value => .error (.boolean value)
  | .int _ => .error .number
  | .float _ => .error .number
  | .str value => .error (.string value)
  | .arr _ => .error .sequence

/-- The JSON form of a record: the object of its members. -/
def toJson (record : Record) : Json := .obj record.members

/-- The member under `key`, if there is one. -/
def get? (record : Record) (key : String) : Option Json := Entries.get? record.members key

/-- Sets the member under `key`, in the place of an earlier one. -/
def insert (record : Record) (key : String) (value : Json) : Record := ⟨record.contents.insert key value⟩

/-- Removes the member under `key`, if there is one. -/
def erase (record : Record) (key : String) : Record := ⟨record.contents.erase key⟩

/-- Sets every member of `other`, each in the place of an earlier one under its key. -/
def extend (record other : Record) : Record := ⟨record.contents.insertAll other.members⟩

/-- The name of the type of a record: the string under `typeField`, if there is one and it is not empty. -/
def typeName? (record : Record) : Option String :=
  match record.get? typeField with
  | some (.str name) => if name.isEmpty then none else some name
  | _ => none

/-- Sets the type of a record: the string `name` under `typeField`. -/
def withType (record : Record) (name : String) : Record := record.insert typeField (.str name)

/-- The record with nothing but the string `name` under `typeField`. -/
def ofType (name : String) : Record := withType {} name

/-- The number of members, that of the type included. -/
def size (record : Record) : Nat := record.members.length

/-- The keys of a record, in ascending order. -/
def keys (record : Record) : List String := record.members.keys

end Record

end Tagwire
