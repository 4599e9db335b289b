import Tagwire.Bytes
import Tagwire.Number.Binary

/-!
# Values of message fields

What a message holds, apart from its type: scalars, nested messages, lists and maps.  Which of them a
field may hold, and which width an integer has, is for the type of the message to say.  A message lists
its fields in ascending order of their numbers, every number at most once, and an enumeration value is
the integer that stands for it.
-/

set_option autoImplicit false

namespace Tagwire

/-- A key of a map: a boolean, an integer or a text, as the kinds of keys are. -/
inductive MapKey where
  | bool (value : Bool)
  | int (value : Int)
  | string (value : String)
deriving DecidableEq, Repr, Inhabited

/-- The value of a field: a scalar, a message by its set fields, a list or a map. -/
inductive Value where
  | bool (value : Bool)
  | int (value : Int)
  | float (value : Binary32)
  | double (value : Binary64)
  | string (value : String)
  | bytes (value : Bytes)
  | message (fields : List (Nat × Value))
  | list (items : List Value)
  | map (entries : List (MapKey × Value))
deriving Repr, Inhabited

/-- The fields of a message that are set, in ascending order of their numbers. -/
abbrev FieldValues : Type := List (Nat × Value)

namespace FieldValues

/-- The value under a field number, if the field is set. -/
def get? (fields : FieldValues) (number : Nat) : Option Value :=
  (fields.find? fun f => f.1 == number).map Prod.snd

/-- Is the field with this number set? -/
def contains (fields : FieldValues) (number : Nat) : Bool := (fields.get? number).isSome

/-- Sets a field, in the place that keeps the numbers ascending and over an earlier value. -/
def set (fields : FieldValues) (number : Nat) (value : Value) : FieldValues :=
  match fields with
  | [] => [(number, value)]
  | f :: rest =>
    if number < f.1 then (number, value) :: f :: rest
    else if number = f.1 then (number, value) :: rest
    else f :: FieldValues.set rest number value

end FieldValues

namespace Value

/-- The entries of a map after setting one, which takes the place of an earlier one of its key. -/
def setEntry (entries : List (MapKey × Value)) (key : MapKey) (value : Value) :
    List (MapKey × Value) :=
  match entries with
  | [] => [(key, value)]
  | e :: rest => if e.1 = key then (key, value) :: rest else e :: setEntry rest key value

/-- Is a value the default of a field that does not tell a default from nothing?  For a float that is zero
of either sign. -/
def isDefault (default value : Value) : Bool :=
  match default, value with
  | bool a, bool b => a == b
  | int a, int b => a == b
  | string a, string b => a == b
  | bytes a, bytes b => a == b
  | float _, float x => x.isZero
  | double _, double x => x.isZero
  | list _, list items => items.isEmpty
  | map _, map entries => entries.isEmpty
  | _, _ => false

end Value

end Tagwire
