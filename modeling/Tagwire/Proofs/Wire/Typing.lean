import Tagwire.Proofs.Schema.Linking
import Tagwire.Proofs.Schema.Loaded
import Tagwire.Proofs.Wire.Map

/-!
# Values of a type

A value is of a type if its scalars are, if the fields of every message in it are those of its type, and if
no message holds two fields of one oneof.

Whatever a document says of a field, what it may not do is fixed: only lists are packed, lists and maps have no
default of their own, and a default that is given is a value of the field.  The fields of documents in the
present dialect are moreover all of one make: their lists are packed where they can be, their defaults are zero,
and what tells a default from nothing is a message or a oneof.
-/

set_option autoImplicit false

namespace Tagwire

/-! ## Types -/

/-- The scalar kind of a type that is packable is packable. -/
theorem ValueType.isPackable_of_scalar? {type : ValueType} {kind : Scalar} (hk : type.scalar? = some kind)
    (hp : type.isPackable = true) : (ValueType.scalar kind).isPackable = true := by
  cases type with
  | scalar own =>
    cases hk
    exact hp
  | enum name =>
    cases hk
    rfl
  | message name => cases hp

/-- A type that is packable has a scalar kind. -/
theorem ValueType.exists_scalar?_of_isPackable {type : ValueType} (h : type.isPackable = true) :
    ∃ kind, type.scalar? = some kind := by
  cases type with
  | scalar kind => exact ⟨kind, rfl⟩
  | enum name => exact ⟨.int32, rfl⟩
  | message name => cases h

/-- A type that `isMessage` is the message type of some name. -/
theorem ValueType.exists_of_isMessage {type : ValueType} (h : type.isMessage = true) :
    ∃ name, type = .message name := by
  cases type with
  | message name => exact ⟨name, rfl⟩
  | scalar kind => cases h
  | enum name => cases h

/-- The default of a field of a shape and a type: the zero of the type for a single one, and the empty list or
map. -/
def FieldShape.zero : FieldShape → ValueType → Value
  | .single, type => type.zero 0
  | .list, _ => .list []
  | .map, _ => .map []

/-- No field omits a message. -/
theorem MessageField.omits_message (f : MessageField) (values : FieldValues) :
    f.omits (.message values) = false := by
  rw [omits]
  cases f.default <;> exact Bool.and_false _

/-- A list that its field omits is empty. -/
theorem MessageField.eq_nil_of_omits_list {f : MessageField} {items : List Value}
    (h : f.omits (.list items) = true) : items = [] := by
  rw [omits, Bool.and_eq_true] at h
  cases items with
  | nil => rfl
  | cons => cases hdefault : f.default <;> rw [hdefault] at h <;> cases h.2

/-- A map that its field omits is empty. -/
theorem MessageField.eq_nil_of_omits_map {f : MessageField} {entries : List (MapKey × Value)}
    (h : f.omits (.map entries) = true) : entries = [] := by
  rw [omits, Bool.and_eq_true] at h
  cases entries with
  | nil => rfl
  | cons => cases hdefault : f.default <;> rw [hdefault] at h <;> cases h.2

/-- The value, with zero for a float that is `-0.0`. -/
def Value.unsigned : Value → Value
  | .double x => .double (if x.isZero then .zero else x)
  | .float x => .float (if x.isZero then .zero else x)
  | other => other

/-- A field that can be written and read: its number is positive and below `2 ^ 29`, only a packable list is
packed, a list or a map has the empty default and no oneof, the default of a single field is of its type, and a
scalar that it omits is the default up to the sign of a zero. -/
structure MessageField.IsWired (f : MessageField) : Prop where
  pos : 0 < f.number
  lt : f.number < 2 ^ 29
  packed : f.packed = true → f.shape = .list ∧ f.type.isPackable = true
  zero : f.shape ≠ .single → f.default = f.shape.zero f.type
  presence : f.shape ≠ .single → f.presence = false
  oneof : f.shape ≠ .single → f.oneof = none
  scalar : f.shape = .single → ∀ kind, f.type.scalar? = some kind → kind.Holds f.default
  message : f.shape = .single → f.StartsEmpty
  omitted : ∀ value : Value, value.isScalar = true → f.omits value = true → value.unsigned = f.default

/-- A linked message type whose fields are wired, and all of whose enumerations and message types the schema
has. -/
structure MessageType.IsWired (type : MessageType) (schema : Schema) : Prop extends type.IsLinked where
  wired : ∀ f ∈ type.fields, f.IsWired
  enums : ∀ f ∈ type.fields, ∀ name, f.type = .enum name →
    f.shape ≠ .map ∧ (schema.enum? name).isSome = true
  messages : ∀ f ∈ type.fields, ∀ name, f.type = .message name →
    ∃ target, schema.message? name = some target ∧ (f.shape = .map →
      ∃ kind keyField valueField, target.IsEntry kind keyField valueField)
  scalars : ∀ f ∈ type.fields, ∀ kind, f.type = .scalar kind → f.shape ≠ .map

/-- Each message type of the schema is wired. -/
def Schema.IsWired (schema : Schema) : Prop :=
  ∀ name type, schema.message? name = some type → type.IsWired schema

/-- The numbers of the enumeration are integers of 32 bits. -/
def EnumType.IsWired (enum : EnumType) : Prop := ∀ v ∈ enum.values, -(2 ^ 31) ≤ v.2 ∧ v.2 ≤ 2 ^ 31 - 1

/-- The schema is linked, and its message types and enumerations are wired. -/
structure Schema.IsTyped (schema : Schema) : Prop extends schema.IsLinked where
  types : schema.IsWired
  enums : ∀ name enum, schema.enum? name = some enum → enum.IsWired

/-- The schema has the enumeration or the message type that a field of this shape and type refers to, with
entries for a map. -/
def Schema.Admits (schema : Schema) (shape : FieldShape) : ValueType → Prop
  | .scalar _ => shape ≠ .map
  | .enum name => shape ≠ .map ∧ (schema.enum? name).isSome = true
  | .message name => ∃ target, schema.message? name = some target ∧ (shape = .map →
      ∃ kind keyField valueField, target.IsEntry kind keyField valueField)

/-- A type that is admitted in any shape is admitted as a single one. -/
theorem Schema.Admits.single {schema : Schema} {shape : FieldShape} {type : ValueType}
    (h : schema.Admits shape type) : schema.Admits .single type := by
  cases type with
  | scalar kind => exact nofun
  | enum name => exact ⟨nofun, h.2⟩
  | message name =>
    obtain ⟨target, ht, -⟩ := h
    exact ⟨target, ht, nofun⟩

/-- A message type of the schema is admitted as a single one. -/
theorem Schema.admits_message {schema : Schema} {type : MessageType}
    (hm : schema.message? type.name = some type) : schema.Admits .single (.message type.name) :=
  ⟨type, hm, by intro h; cases h⟩

namespace MessageType.IsWired

variable {schema : Schema} {type : MessageType} {f : MessageField}

/-- The shape and type of each field of a wired message type are admitted. -/
theorem admits (h : type.IsWired schema) (hf : f ∈ type.fields) : schema.Admits f.shape f.type := by
  cases htype : f.type with
  | scalar kind => exact h.scalars f hf kind htype
  | enum name => exact h.enums f hf name htype
  | message name => exact h.messages f hf name htype

/-- A field of a wired type is found under its number, which fits a key. -/
theorem finds (h : type.IsWired schema) {number : Nat} (hf : type.field? number = some f) :
    type.Finds f ∧ f.number = number := by
  have hmem := List.mem_of_find?_eq_some hf
  have hnumber : f.number = number := MessageType.number_of_field? hf
  exact ⟨⟨hnumber ▸ hf, (h.wired f hmem).pos, (h.wired f hmem).lt⟩, hnumber⟩

/-- A list or a map of a wired type is declared, that is, in no oneof. -/
theorem declares (h : type.IsWired schema) {number : Nat} (hf : type.field? number = some f)
    (hs : f.shape ≠ .single) : type.Declares f :=
  ⟨(h.finds hf).1, (h.wired f (List.mem_of_find?_eq_some hf)).oneof hs⟩

end MessageType.IsWired

/-- The field for the values of a map `StartsEmpty`. -/
theorem MessageType.IsEntry.startsEmpty {schema : Schema} {type : MessageType} {kind : Scalar}
    {keyField valueField : MessageField} (he : type.IsEntry kind keyField valueField)
    (hw : type.IsWired schema) : valueField.StartsEmpty :=
  (hw.wired valueField (List.mem_of_find?_eq_some he.value)).message he.valueShape

/-! ## Zeros -/

/-- The zero of a type with a scalar kind is a value of this kind. -/
theorem ValueType.holds_zero {type : ValueType} {kind : Scalar} {first : Int} (hk : type.scalar? = some kind)
    (hfirst : -(2 ^ 31) ≤ first ∧ first ≤ 2 ^ 31 - 1) : kind.Holds (type.zero first) := by
  cases type with
  | scalar own =>
    cases hk
    cases kind <;> first | exact ⟨_, rfl⟩ | exact ⟨0, rfl, by decide⟩
  | enum name =>
    cases hk
    exact ⟨first, rfl, hfirst⟩
  | message name => cases hk

/-- A scalar that `isDefault` for the zero of its type is this zero up to its sign. -/
theorem ValueType.unsigned_eq_zero {type : ValueType} {first : Int} {value : Value}
    (hvalue : value.isScalar = true) (h : (type.zero first).isDefault value = true) :
    value.unsigned = type.zero first := by
  have hint : ∀ n m : Int, (Value.int n).isDefault (.int m) = true → (Value.int m).unsigned = .int n :=
    fun n m heq => congrArg Value.int (beq_iff_eq.mp heq).symm
  cases type with
  | message name => cases value <;> contradiction
  | enum name => cases value <;> first | contradiction | exact hint _ _ h
  | scalar kind =>
    cases kind <;> cases value <;> first
      | contradiction
      | exact hint _ _ h
      | exact congrArg _ (beq_iff_eq.mp h).symm
      | exact congrArg _ (if_pos h)

/-- No scalar `isDefault` for the empty list or map. -/
theorem FieldShape.isDefault_zero {shape : FieldShape} {type : ValueType} {value : Value}
    (hshape : shape ≠ .single) (hvalue : value.isScalar = true) :
    (shape.zero type).isDefault value = false := by
  cases shape with
  | single => exact absurd rfl hshape
  | list | map => cases value <;> first | rfl | cases hvalue

/-! ## Types of the present dialect -/

/-- A field as the dialect `proto3` declares it: no group, packed exactly if it is a packable list, and with the
zero of its shape and type for its default. -/
structure MessageField.IsPlain (f : MessageField) : Prop where
  pos : 0 < f.number
  lt : f.number < 2 ^ 29
  grouped : f.grouped = false
  packed : f.packed = (f.shape == .list && f.type.isPackable)
  default : f.default = f.shape.zero f.type
  presence : f.presence = (f.shape == .single && (f.type.isMessage || f.oneof.isSome))
  oneof : f.shape ≠ .single → f.oneof = none

/-- A plain field is wired. -/
theorem MessageField.IsPlain.isWired {f : MessageField} (h : f.IsPlain) : f.IsWired where
  pos := h.pos
  lt := h.lt
  packed hpacked := by
    rw [h.packed, Bool.and_eq_true, beq_iff_eq] at hpacked
    exact hpacked
  zero _ := h.default
  presence hs := by rw [h.presence, beq_eq_false_iff_ne.mpr hs, Bool.false_and]
  oneof := h.oneof
  scalar hs kind hk := by
    rw [h.default, hs]
    exact ValueType.holds_zero hk (by decide)
  message hs name hname := by
    rw [h.default, hs, hname]
    rfl
  omitted value hvalue homits := by
    rw [MessageField.omits, Bool.and_eq_true, h.default] at homits
    by_cases hshape : f.shape = .single
    · rw [h.default, hshape]
      rw [hshape] at homits
      exact ValueType.unsigned_eq_zero hvalue homits.2
    · rw [FieldShape.isDefault_zero hshape hvalue] at homits
      exact absurd homits.2 Bool.false_ne_true

/-- If the shape is a map, its keys are texts and its values messages. -/
def Schema.MapsMessages (schema : Schema) (shape : FieldShape) (type : ValueType) : Prop :=
  shape = .map → ∀ target, schema.message? type.name = some target →
    ∃ keyField valueField, target.IsEntry .string keyField valueField ∧ valueField.type.isMessage = true

/-- Each field of the message type is plain, and its maps have texts for keys and messages for values. -/
structure MessageType.IsPlain (type : MessageType) (schema : Schema) : Prop where
  fields : ∀ f ∈ type.fields, f.IsPlain
  entries : ∀ f ∈ type.fields, schema.MapsMessages f.shape f.type

/-- The schema is typed, its message types are plain, and the names of each enumeration are distinct. -/
structure Schema.IsPlain (schema : Schema) : Prop extends schema.IsTyped where
  plain : ∀ name type, schema.message? name = some type → type.IsPlain schema
  enumNames : ∀ name enum, schema.enum? name = some enum → (enum.values.map Prod.fst).Nodup

/-! ## Values -/

namespace Schema

/-- The value is one of this shape and this type in the schema. -/
inductive Holds (schema : Schema) : FieldShape → ValueType → Value → Prop
  | scalar {type : ValueType} {kind : Scalar} {value : Value} (hk : type.scalar? = some kind)
    (h : kind.Holds value) : Holds schema .single type value
  | message {name : String} {type : MessageType} {values : FieldValues}
    (hm : schema.message? name = some type) (hs : Assoc.IsSorted values)
    (hfound : ∀ e ∈ values, (type.field? e.1).isSome = true)
    (halone : ∀ e ∈ values, ∀ f, type.field? e.1 = some f →
      ∀ number ∈ type.rivals f, number ∈ values.map Prod.fst → number = e.1)
    (hfields : ∀ e ∈ values, ∀ f, type.field? e.1 = some f → Holds schema f.shape f.type e.2) :
    Holds schema .single (.message name) (.message values)
  | list {type : ValueType} {items : List Value} (h : ∀ item ∈ items, Holds schema .single type item) :
    Holds schema .list type (.list items)
  | map {name : String} {type : MessageType} {kind : Scalar} {keyField valueField : MessageField}
    {entries : List (MapKey × Value)} (hm : schema.message? name = some type)
    (he : type.IsEntry kind keyField valueField) (hn : (entries.map Prod.fst).Nodup)
    (hkeys : ∀ e ∈ entries, kind.Holds e.1.toValue)
    (hvalues : ∀ e ∈ entries, Holds schema .single valueField.type e.2) :
    Holds schema .map (.message name) (.map entries)

end Schema

/-- The fields are a message of the type: sorted by number, each known and with a value of its shape and type,
and no two in one oneof. -/
structure MessageType.Holds (type : MessageType) (schema : Schema) (values : FieldValues) : Prop where
  sorted : Assoc.IsSorted values
  found : ∀ e ∈ values, (type.field? e.1).isSome = true
  alone : ∀ e ∈ values, ∀ f, type.field? e.1 = some f →
    ∀ number ∈ type.rivals f, number ∈ values.map Prod.fst → number = e.1
  fields : ∀ e ∈ values, ∀ f, type.field? e.1 = some f → schema.Holds f.shape f.type e.2

/-- One field of the type with a value of its shape and type is a message of the type. -/
theorem MessageType.holds_singleton {type : MessageType} {schema : Schema} {number : Nat} {f : MessageField}
    (hf : type.field? number = some f) {value : Value} (h : schema.Holds f.shape f.type value) :
    type.Holds schema [(number, value)] := by
  refine ⟨List.pairwise_singleton _ _, ?_, ?_, ?_⟩
  all_goals rw [List.forall_mem_singleton]
  · rw [hf]
    rfl
  · exact fun _ _ other _ hother => List.mem_singleton.mp hother
  · rintro g hg
    rw [hf, Option.some.injEq] at hg
    exact hg ▸ h

namespace Schema

variable {schema : Schema}

/-- A single value of a type with a scalar kind is of this kind. -/
theorem Holds.of_scalar? {type : ValueType} {kind : Scalar} {value : Value}
    (h : schema.Holds .single type value) (hk : type.scalar? = some kind) : kind.Holds value := by
  cases h with
  | scalar hk' h =>
    rw [hk, Option.some.injEq] at hk'
    exact hk' ▸ h
  | message => cases hk

/-- A single value of a message type is exactly a message of this type. -/
theorem holds_message_iff {name : String} {value : Value} :
    schema.Holds .single (.message name) value ↔ ∃ type values, schema.message? name = some type ∧
      value = .message values ∧ type.Holds schema values := by
  constructor
  · intro h
    cases h with
    | scalar hk => cases hk
    | message hm hs hfound halone hfields => exact ⟨_, _, hm, rfl, hs, hfound, halone, hfields⟩
  · rintro ⟨type, values, hm, rfl, hs, hfound, halone, hfields⟩
    exact .message hm hs hfound halone hfields

/-- A message in a field is single and of the type of the field. -/
theorem Holds.of_message {shape : FieldShape} {type : MessageType} (hm : schema.message? type.name = some type)
    {values : FieldValues} (h : schema.Holds shape (.message type.name) (.message values)) :
    shape = .single ∧ type.Holds schema values := by
  cases h with
  | scalar hk => cases hk
  | message hfound hsorted hfields halone hvalues =>
    rw [hm, Option.some.injEq] at hfound
    subst hfound
    exact ⟨rfl, hsorted, hfields, halone, hvalues⟩

end Schema

/-! ## Levels -/

mutual

/-- How many levels of messages a value has, its own included: 0 for a scalar. -/
def Value.nesting : Value → Nat
  | .message fields => FieldValues.nesting fields + 1
  | .list items => Value.nestingOfItems items
  | .map entries => Value.nestingOfEntries entries
  | _ => 0

/-- How many levels of messages there are within a message, its own not included. -/
def FieldValues.nesting : List (Nat × Value) → Nat
  | [] => 0
  | (_, value) :: rest => max value.nesting (FieldValues.nesting rest)

/-- The greatest nesting of the items of a list. -/
def Value.nestingOfItems : List Value → Nat
  | [] => 0
  | item :: rest => max item.nesting (Value.nestingOfItems rest)

/-- The greatest nesting of the values of a map. -/
def Value.nestingOfEntries : List (MapKey × Value) → Nat
  | [] => 0
  | (_, value) :: rest => max value.nesting (Value.nestingOfEntries rest)

end

/-- The nesting of a scalar is 0. -/
theorem Value.nesting_of_isScalar {value : Value} (h : value.isScalar = true) : value.nesting = 0 := by
  cases value <;> first | rfl | cases h

/-- Fields nest at most `levels` deep exactly if each value does. -/
theorem FieldValues.nesting_le_iff {values : FieldValues} {levels : Nat} :
    FieldValues.nesting values ≤ levels ↔ ∀ e ∈ values, e.2.nesting ≤ levels := by
  induction values with
  | nil => simp [FieldValues.nesting]
  | cons e rest ih =>
    obtain ⟨number, value⟩ := e
    rw [FieldValues.nesting, Nat.max_le, ih, List.forall_mem_cons]

/-- Items nest at most `levels` deep exactly if each one does. -/
theorem Value.nestingOfItems_le_iff {items : List Value} {levels : Nat} :
    Value.nestingOfItems items ≤ levels ↔ ∀ item ∈ items, item.nesting ≤ levels := by
  induction items with
  | nil => simp [Value.nestingOfItems]
  | cons item rest ih => rw [Value.nestingOfItems, Nat.max_le, ih, List.forall_mem_cons]

/-- Entries nest at most `levels` deep exactly if each value does. -/
theorem Value.nestingOfEntries_le_iff {entries : List (MapKey × Value)} {levels : Nat} :
    Value.nestingOfEntries entries ≤ levels ↔ ∀ e ∈ entries, e.2.nesting ≤ levels := by
  induction entries with
  | nil => simp [Value.nestingOfEntries]
  | cons e rest ih =>
    obtain ⟨key, value⟩ := e
    rw [Value.nestingOfEntries, Nat.max_le, ih, List.forall_mem_cons]

end Tagwire
