import Tagwire.Proofs.Except
import Tagwire.Proofs.Wire.Scalar
import Tagwire.Wire.Reader

/-!
# The loops of the reader

Every loop of the reader is bounded by the number of bytes that are left, and every field it reads takes a
byte at least.  So the bound is never reached: what a loop gives depends on the bytes only, and it can be
stated as a relation between the fields before and after them that does not mention the bound.
-/

set_option autoImplicit false

namespace Tagwire

/-- Reads the field behind a key: from the key, the fields so far and the bytes, to the fields and the bytes
that are left. -/
abbrev FieldReader : Type := WireKey → FieldValues → Bytes → Option (FieldValues × Bytes)

/-- The reader leaves no more bytes than there were. -/
def FieldReader.Consumes (field : FieldReader) : Prop :=
  ∀ key values bytes next rest, field key values bytes = some (next, rest) → rest.length ≤ bytes.length

/-- Reading field after field in the bytes before `tail` leads from some fields to others. -/
inductive FieldsRead (field : FieldReader) (tail : Bytes) : FieldValues → Bytes → FieldValues → Prop
  | done (values : FieldValues) : FieldsRead field tail values tail values
  | step {key : WireKey} {values next result : FieldValues} {bytes rest more : Bytes}
    (hkey : WireKey.decode? bytes = some (key, rest)) (hopen : key.type ≠ .endGroup)
    (hfield : field key values rest = some (next, more))
    (hmore : more.length ≤ rest.length) (h : FieldsRead field tail next more result) :
    FieldsRead field tail values bytes result

variable {field : FieldReader}

/-- While there are bytes, `readFields` reads a key and then the field behind it, unless the key ends the group
that is read. -/
theorem readFields_cons (group : Option Nat) (fuel : Nat) (values : FieldValues) (b : UInt8)
    (bytes : Bytes) : readFields field group (fuel + 1) values (b :: bytes) =
      (WireKey.decode? (b :: bytes)).bind fun (key, rest) =>
        if group.isSome ∧ key.type = .endGroup then
          if some key.number = group then some (values, rest) else none
        else (field key values rest).bind fun (values, rest) =>
          readFields field group fuel values rest := by
  rw [readFields]
  · cases WireKey.decode? (b :: bytes) with
    | none => rfl
    | some found => cases group <;> simp
  · simp

/-- Behind a field that has been read, `readFields` goes on with the bytes that are left. -/
theorem readFields_step {key : WireKey} {values next : FieldValues} {bytes rest more : Bytes}
    {group : Option Nat} (hkey : WireKey.decode? bytes = some (key, rest))
    (hopen : group.isSome → key.type ≠ .endGroup) (hfield : field key values rest = some (next, more))
    (fuel : Nat) :
    readFields field group (fuel + 1) values bytes = readFields field group fuel next more := by
  have hrest := WireKey.length_lt_of_decode? hkey
  cases bytes with
  | nil => simp at hrest
  | cons b bytes =>
    rw [readFields_cons, hkey, Option.bind_some]
    dsimp only
    rw [if_neg fun hend => hopen hend.1 hend.2, hfield, Option.bind_some]

/-- If `readFields` succeeds on bytes that begin with a key, it has read the field behind this key first. -/
theorem exists_of_readFields {key : WireKey} {fuel : Nat} {values : FieldValues} {bytes rest : Bytes}
    {result : FieldValues × Bytes} (hkey : WireKey.decode? bytes = some (key, rest))
    (h : readFields field none fuel values bytes = some result) : ∃ next more left,
      field key values rest = some (next, more) ∧ readFields field none left next more = some result := by
  have hrest := WireKey.length_lt_of_decode? hkey
  cases bytes with
  | nil => simp at hrest
  | cons b bytes =>
    cases fuel with
    | zero => cases h
    | succ fuel =>
      rw [readFields_cons, hkey, Option.bind_some] at h
      dsimp only at h
      rw [if_neg (by simp)] at h
      obtain ⟨⟨next, more⟩, hfield, hloop⟩ := Option.bind_eq_some_iff.mp h
      exact ⟨next, more, fuel, hfield, hloop⟩

/-- Fields with `FieldsRead` are read by `readFields` with as much fuel as there are bytes. -/
theorem FieldsRead.readFields_eq {values result : FieldValues} {bytes : Bytes}
    (h : FieldsRead field [] values bytes result) {fuel : Nat} (hfuel : bytes.length ≤ fuel) :
    readFields field none fuel values bytes = some (result, []) := by
  induction h generalizing fuel with
  | done values => cases fuel <;> rfl
  | @step key values next result bytes rest more hkey hopen hfield hmore _ ih =>
    have hrest := WireKey.length_lt_of_decode? hkey
    obtain ⟨fuel, rfl⟩ : ∃ f, fuel = f + 1 := ⟨fuel - 1, by omega⟩
    rw [readFields_step hkey (fun _ => hopen) hfield]
    exact ih (by omega)

/-- Bytes that have `FieldsRead` before every tail are read by `readFields`. -/
theorem readFields_eq_of_forall {values result : FieldValues} {bytes : Bytes}
    (h : ∀ tail, FieldsRead field tail values (bytes ++ tail) result) {fuel : Nat}
    (hfuel : bytes.length ≤ fuel) : readFields field none fuel values bytes = some (result, []) := by
  have hread := h []
  rw [List.append_nil] at hread
  exact hread.readFields_eq hfuel

/-- Fields with `FieldsRead` before the end of a group are read by `readFields` for this group. -/
theorem FieldsRead.readFields_group {number : Nat} (hpos : 0 < number) (hlt : number < 2 ^ 29)
    {values result : FieldValues} {bytes rest : Bytes}
    (h : FieldsRead field (WireKey.encode ⟨number, .endGroup⟩ ++ rest) values bytes result) {fuel : Nat}
    (hfuel : bytes.length ≤ fuel) :
    readFields field (some number) fuel values bytes = some (result, rest) := by
  induction h generalizing fuel with
  | done values =>
    have hkey := WireKey.decode?_encode ⟨number, .endGroup⟩ hpos hlt rest
    have hrest := WireKey.length_lt_of_decode? hkey
    obtain ⟨fuel, rfl⟩ : ∃ f, fuel = f + 1 := ⟨fuel - 1, by omega⟩
    cases hbytes : WireKey.encode ⟨number, .endGroup⟩ ++ rest with
    | nil =>
      rw [hbytes] at hrest
      exact absurd hrest (Nat.not_lt_zero _)
    | cons b bytes =>
      rw [readFields_cons, ← hbytes, hkey, Option.bind_some]
      dsimp only
      rw [if_pos ⟨rfl, rfl⟩, if_pos rfl]
  | @step key values next result bytes more' more hkey hopen hfield hmore _ ih =>
    have hrest := WireKey.length_lt_of_decode? hkey
    obtain ⟨fuel, rfl⟩ : ∃ f, fuel = f + 1 := ⟨fuel - 1, by omega⟩
    rw [readFields_step hkey (fun _ => hopen) hfield]
    exact ih (by omega)

/-- A property of the fields so far and the bytes left that keys and fields preserve is preserved by
`readFields`. -/
theorem of_readFields {P : FieldValues → Bytes → Prop}
    (hkey : ∀ values bytes key rest, P values bytes → WireKey.decode? bytes = some (key, rest) → P values rest)
    (hfield : ∀ key values bytes next rest, P values bytes → field key values bytes = some (next, rest) →
      P next rest)
    {group : Option Nat} {fuel : Nat} {values result : FieldValues} {bytes rest : Bytes}
    (hp : P values bytes) (h : readFields field group fuel values bytes = some (result, rest)) :
    P result rest := by
  induction fuel generalizing values bytes with
  | zero =>
    cases bytes with
    | nil =>
      rw [readFields] at h
      split at h
      · cases h
        exact hp
      · cases h
    | cons b bytes => cases h
  | succ fuel ih =>
    cases bytes with
    | nil =>
      rw [readFields] at h
      split at h
      · cases h
        exact hp
      · cases h
    | cons b bytes =>
      rw [readFields_cons, Option.bind_eq_some_iff] at h
      obtain ⟨⟨key, behind⟩, hread, h⟩ := h
      have hbehind := hkey _ _ key behind hp hread
      dsimp only at h
      split at h
      · split at h
        · cases h
          exact hbehind
        · cases h
      · obtain ⟨⟨next, more⟩, hnext, hrest⟩ := Option.bind_eq_some_iff.mp h
        exact ih (hfield _ _ _ next more hbehind hnext) hrest

/-- With a reader that `Consumes`, `readFields` leaves no more bytes than there were. -/
theorem length_le_of_readFields (hc : field.Consumes) {group : Option Nat} {fuel : Nat}
    {values result : FieldValues} {bytes rest : Bytes}
    (h : readFields field group fuel values bytes = some (result, rest)) :
    rest.length ≤ bytes.length := by
  refine of_readFields (P := fun _ more => more.length ≤ bytes.length) ?_ ?_ (Nat.le_refl _) h
  · intro values more key behind hle hkey
    exact (WireKey.length_lt_of_decode? hkey).le.trans hle
  · intro key values more next behind hle hfield
    exact (hc _ _ _ _ _ hfield).trans hle

/-- A relation that two readings of each field preserve is preserved by `readFields`, with any fuel of at least
as many steps as bytes, and both succeed or neither. -/
theorem readFields_rel (hc : field.Consumes) {r : FieldValues → FieldValues → Prop}
    (hstep : ∀ key a b bytes, r a b →
      Option.Rel (fun x y => r x.1 y.1 ∧ x.2 = y.2) (field key a bytes) (field key b bytes))
    {fuel fuel' : Nat} {a b : FieldValues} {bytes : Bytes} (hr : r a b) (hfuel : bytes.length ≤ fuel)
    (hfuel' : bytes.length ≤ fuel') :
    Option.Rel (fun x y => r x.1 y.1 ∧ x.2 = y.2) (readFields field none fuel a bytes)
      (readFields field none fuel' b bytes) := by
  induction fuel generalizing fuel' a b bytes with
  | zero =>
    obtain rfl : bytes = [] := List.length_eq_zero_iff.mp (by omega)
    cases fuel' <;> exact .some ⟨hr, rfl⟩
  | succ fuel ih =>
    cases bytes with
    | nil => cases fuel' <;> exact .some ⟨hr, rfl⟩
    | cons byte bytes =>
      obtain ⟨fuel', rfl⟩ : ∃ f, fuel' = f + 1 := ⟨fuel' - 1, by simp at hfuel'; omega⟩
      rw [readFields_cons, readFields_cons]
      cases hkey : WireKey.decode? (byte :: bytes) with
      | none => exact .none
      | some found =>
        obtain ⟨key, behind⟩ := found
        have hbehind := WireKey.length_lt_of_decode? hkey
        rw [Option.bind_some, Option.bind_some]
        dsimp only
        rw [if_neg (by simp), if_neg (by simp)]
        -- The field takes no bytes back, so that there is fuel for what is left of them.
        apply rel_bind (hstep key a b behind hr)
        rintro ⟨x, more⟩ ⟨y, more'⟩ hfield ⟨hr', hrest⟩
        have hmore := hc _ _ _ _ _ hfield
        obtain rfl : more = more' := hrest
        have hleft : more.length ≤ fuel ∧ more.length ≤ fuel' := by omega
        exact ih hr' hleft.1 hleft.2

/-! ## Nothing is read twice -/

/-- Passing over the fields of a group with `skipFields` leaves no more bytes than there were. -/
theorem length_le_of_skipFields {skip : WireKey → Bytes → Option Bytes}
    (hs : ∀ key bytes rest, skip key bytes = some rest → rest.length ≤ bytes.length) {number fuel : Nat}
    {bytes rest : Bytes} (h : skipFields skip number fuel bytes = some rest) :
    rest.length ≤ bytes.length := by
  induction fuel generalizing bytes with
  | zero => cases h
  | succ fuel ih =>
    rw [skipFields] at h
    cases hkey : WireKey.decode? bytes with
    | none =>
      rw [hkey] at h
      cases h
    | some found =>
      obtain ⟨key, behind⟩ := found
      have hbehind := WireKey.length_lt_of_decode? hkey
      rw [hkey] at h
      dsimp only at h
      split at h
      · split at h
        · cases h
          exact hbehind.le
        · cases h
      · obtain ⟨more, hmore, hnext⟩ := Option.bind_eq_some_iff.mp h
        have := hs _ _ _ hmore
        have := ih hnext
        omega

/-- Passing over a value with `skipValue` leaves no more bytes than there were. -/
theorem length_le_of_skipValue {depth : Nat} {key : WireKey} {bytes rest : Bytes}
    (h : skipValue depth key bytes = some rest) : rest.length ≤ bytes.length := by
  induction depth generalizing key bytes rest with
  | zero => cases h
  | succ depth ih =>
    rw [skipValue] at h
    split at h
    · obtain ⟨⟨n, rest'⟩, hn, rfl⟩ := Option.map_eq_some_iff.mp h
      exact (Varint.length_lt_of_decode? hn).le
    · obtain ⟨⟨body, rest'⟩, hbody, rfl⟩ := Option.map_eq_some_iff.mp h
      exact length_le_of_splitBytes? hbody
    · obtain ⟨⟨body, rest'⟩, hbody, rfl⟩ := Option.map_eq_some_iff.mp h
      exact length_le_of_splitBytes? hbody
    · obtain ⟨⟨body, rest'⟩, hbody, rfl⟩ := Option.map_eq_some_iff.mp h
      exact length_le_of_readLengthPrefixed? hbody
    · exact length_le_of_skipFields (fun key bytes rest => ih) h
    · cases h

namespace Schema

variable {schema : Schema} {nested : NestedReader}

/-- The reader of nested messages leaves no more bytes than there were. -/
def NestedReader.Consumes (nested : NestedReader) : Prop :=
  ∀ type group values bytes result rest, nested type group values bytes = some (result, rest) →
    rest.length ≤ bytes.length

/-- Reading a value with `readValue` leaves no more bytes than there were. -/
theorem length_le_of_readValue (hn : NestedReader.Consumes nested) {field : MessageField}
    {type : WireType} {current : Option Value} {bytes rest : Bytes} {value : Value}
    (h : schema.readValue nested field type current bytes = some (value, rest)) :
    rest.length ≤ bytes.length := by
  unfold readValue at h
  split at h
  · split at h
    · exact Scalar.length_le_of_decode? h
    · cases h
  · simp only [Option.bind_eq_bind, Option.bind_eq_some_iff] at h
    obtain ⟨message, -, h⟩ := h
    split at h
    · split at h
      · obtain ⟨⟨values, more⟩, hnested, hresult⟩ := Option.bind_eq_some_iff.mp h
        cases hresult
        exact hn _ _ _ _ _ _ hnested
      · cases h
    · split at h
      · obtain ⟨⟨body, more⟩, hbody, hresult⟩ := Option.bind_eq_some_iff.mp h
        obtain ⟨⟨values, behind⟩, -, hresult⟩ := Option.bind_eq_some_iff.mp hresult
        cases hresult
        exact length_le_of_readLengthPrefixed? hbody
      · cases h

/-- Reading items with `readItems` leaves no more bytes than there were. -/
theorem length_le_of_readItems (hn : NestedReader.Consumes nested) {field : MessageField}
    {type : WireType} {bytes rest : Bytes} {items : List Value}
    (h : schema.readItems nested field type bytes = some (items, rest)) :
    rest.length ≤ bytes.length := by
  unfold readItems at h
  split at h
  · simp only [Option.bind_eq_bind, Option.bind_eq_some_iff] at h
    obtain ⟨⟨body, more⟩, hbody, items', -, hresult⟩ := h
    cases hresult
    exact length_le_of_readLengthPrefixed? hbody
  · obtain ⟨⟨item, more⟩, hitem, hresult⟩ := Option.map_eq_some_iff.mp h
    cases hresult
    exact length_le_of_readValue hn hitem

/-- Reading an entry with `readMapEntry` leaves no more bytes than there were. -/
theorem length_le_of_readMapEntry {depth : Nat} {field : MessageField} {bytes rest : Bytes}
    {entry : MapKey × Value} (h : schema.readMapEntry nested depth field bytes = some (entry, rest)) :
    rest.length ≤ bytes.length := by
  unfold readMapEntry at h
  simp only [Option.bind_eq_bind, Option.bind_eq_some_iff] at h
  obtain ⟨entryType, -, keyField, -, valueField, -, ⟨body, more⟩, hbody, entry', -, key, -, hresult⟩ := h
  cases hresult
  exact length_le_of_readLengthPrefixed? hbody

/-- The items of the list that a field holds so far, if any. -/
def itemsOf : Option Value → List Value
  | some (.list items) => items
  | _ => []

/-- The entries of the map that a field holds so far, if any. -/
def entriesOf : Option Value → List (MapKey × Value)
  | some (.map entries) => entries
  | _ => []

/-- The value that a field has after its next occurrence is read: of a single field the value read, of a list or
a map the items or the entry added to those so far. -/
def readOver (schema : Schema) (nested : NestedReader) (depth : Nat) (field : MessageField) (wire : WireType)
    (current : Option Value) (bytes : Bytes) : Option (Value × Bytes) :=
  match field.shape with
  | .single => schema.readValue nested field wire current bytes
  | .list => (schema.readItems nested field wire bytes).map fun read =>
    (.list (itemsOf current ++ read.1), read.2)
  | .map => (schema.readMapEntry nested depth field bytes).map fun read =>
    (.map (Value.setEntry (entriesOf current) read.1.1 read.1.2), read.2)

/-- The bytes behind a field that the type does not know, be it a group or a value. -/
def skipField (nested : NestedReader) (key : WireKey) (bytes : Bytes) : Option Bytes :=
  match key.type with
  | .startGroup => (nested ⟨"", []⟩ (some key.number) [] bytes).map Prod.snd
  | _ => skipValue 1 key bytes

/-- A field that the type knows is read with `readOver` and set with `setField`. -/
theorem readField_eq_of_field? {depth : Nat} {type : MessageType} {key : WireKey} {field : MessageField}
    (hf : type.field? key.number = some field) (values : FieldValues) (bytes : Bytes) :
    schema.readField nested depth type key values bytes =
      (schema.readOver nested depth field key.type (FieldValues.get? values field.number) bytes).map
        fun read => (type.setField field read.1 values, read.2) := by
  unfold readField readOver
  rw [hf]
  dsimp only
  cases field.shape with
  | single => rfl
  | list | map =>
    dsimp only
    rw [Option.map_map]
    rfl

/-- A field that the type does not know is passed over with `skipField` and changes nothing. -/
theorem readField_eq_of_unknown {depth : Nat} {type : MessageType} {key : WireKey}
    (hf : type.field? key.number = none) (values : FieldValues) (bytes : Bytes) :
    schema.readField nested depth type key values bytes =
      (skipField nested key bytes).map fun rest => (values, rest) := by
  unfold readField skipField
  rw [hf]
  dsimp only
  cases key.type with
  | startGroup =>
    dsimp only
    rw [Option.map_map]
    rfl
  | varint | fixed64 | lengthDelimited | endGroup | fixed32 => rfl

/-- Reading a field with `readOver` leaves no more bytes than there were. -/
theorem length_le_of_readOver (hn : NestedReader.Consumes nested) {depth : Nat} {field : MessageField}
    {wire : WireType} {current : Option Value} {bytes rest : Bytes} {value : Value}
    (h : schema.readOver nested depth field wire current bytes = some (value, rest)) :
    rest.length ≤ bytes.length := by
  unfold readOver at h
  split at h
  · exact length_le_of_readValue hn h
  · obtain ⟨read, hitems, hresult⟩ := Option.map_eq_some_iff.mp h
    cases hresult
    exact length_le_of_readItems hn hitems
  · obtain ⟨read, hentry, hresult⟩ := Option.map_eq_some_iff.mp h
    cases hresult
    exact length_le_of_readMapEntry hentry

/-- Passing over a field with `skipField` leaves no more bytes than there were. -/
theorem length_le_of_skipField (hn : NestedReader.Consumes nested) {key : WireKey} {bytes rest : Bytes}
    (h : skipField nested key bytes = some rest) : rest.length ≤ bytes.length := by
  unfold skipField at h
  split at h
  · obtain ⟨skipped, hskipped, rfl⟩ := Option.map_eq_some_iff.mp h
    exact hn _ _ _ _ _ _ hskipped
  · exact length_le_of_skipValue h

/-- The reader `readField` of the fields of a type consumes. -/
theorem consumes_readField (hn : NestedReader.Consumes nested) (depth : Nat) (type : MessageType) :
    FieldReader.Consumes (schema.readField nested depth type) := by
  intro key values bytes next rest h
  cases hf : type.field? key.number with
  | some field =>
    rw [readField_eq_of_field? hf] at h
    obtain ⟨read, hread, hresult⟩ := Option.map_eq_some_iff.mp h
    cases hresult
    exact length_le_of_readOver hn hread
  | none =>
    rw [readField_eq_of_unknown hf] at h
    obtain ⟨more, hmore, hresult⟩ := Option.map_eq_some_iff.mp h
    cases hresult
    exact length_le_of_skipField hn hmore

/-- The reader of messages within a message: `readMessage` with a level less, and failure at depth 0. -/
def nestedReader (schema : Schema) : Nat → NestedReader
  | 0 => fun _ _ _ _ => none
  | depth + 1 => schema.readMessage depth

/-- A message is read by `readFields`, with as much fuel as there are bytes. -/
theorem readMessage_eq (depth : Nat) (type : MessageType) (group : Option Nat) (values : FieldValues)
    (bytes : Bytes) : schema.readMessage depth type group values bytes =
      readFields (schema.readField (schema.nestedReader depth) depth type) group bytes.length values
        bytes := by
  cases depth <;> rfl

/-- The reader `readMessage depth` consumes. -/
theorem consumes_readMessage (depth : Nat) : NestedReader.Consumes (schema.readMessage depth) := by
  induction depth with
  | zero =>
    intro type group values bytes result rest h
    rw [readMessage_eq] at h
    refine length_le_of_readFields (consumes_readField ?_ 0 type) h
    intro _ _ _ _ _ _ hnone
    cases hnone
  | succ depth ih =>
    intro type group values bytes result rest h
    rw [readMessage_eq] at h
    exact length_le_of_readFields (consumes_readField ih _ type) h

/-- The reader `nestedReader depth` consumes. -/
theorem consumes_nestedReader (depth : Nat) : NestedReader.Consumes (schema.nestedReader depth) := by
  cases depth with
  | zero =>
    intro _ _ _ _ _ _ hnone
    cases hnone
  | succ depth => exact consumes_readMessage depth

end Schema

end Tagwire
