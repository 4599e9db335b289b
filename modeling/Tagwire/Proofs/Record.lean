import Tagwire.Proofs.Entries
import Tagwire.Registry

/-!
# Records by their members

What a record holds after its type has been set, or after it has taken over the members of another one, is
told member by member.  A fresh record of a registered type has a member for the type and for every field
with a default, and no others.
-/

set_option autoImplicit false

namespace Tagwire

/-- `get?` after `erase` finds nothing under the erased key, and under any other what it found before. -/
theorem Entries.get?_erase {α : Type} (entries : Entries α) (key other : String) :
    (entries.erase key).get? other = if other = key then none else entries.get? other := by
  induction entries with
  | nil => simp [erase, get?]
  | cons e rest ih =>
    have hcons : erase (e :: rest) key = if e.1 = key then erase rest key else e :: erase rest key := by
      by_cases hkey : e.1 = key
      · rw [if_pos hkey, erase, List.filter_cons_of_neg (by simp [hkey])]
        rfl
      · rw [if_neg hkey, erase, List.filter_cons_of_pos (by simp [hkey])]
        rfl
    rw [hcons, get?_eq (e :: rest), Assoc.get?_cons, ← get?_eq]
    by_cases hkey : e.1 = key
    · rw [if_pos hkey, ih]
      split
      · rfl
      · rename_i hother
        rw [if_neg fun heq => hother (heq.symm.trans hkey)]
    · rw [if_neg hkey, get?_eq, Assoc.get?_cons, ← get?_eq, ih]
      by_cases hother : e.1 = other
      · rw [if_pos hother, if_pos hother, if_neg fun heq => hkey (hother.trans heq)]
      · rw [if_neg hother, if_neg hother]

namespace Record

variable {record other : Record} {name : String}

/-- The members of `Record.mk` are the entries that it is given. -/
@[simp] theorem members_mk (contents : SortedEntries Json) : (mk contents).members = contents.entries := rfl

/-- The keys of a record ascend strictly. -/
theorem sorted (record : Record) : Assoc.IsSorted record.members := record.contents.sorted

/-- Records with the same `members` are the same. -/
theorem ext_members (h : record.members = other.members) : record = other := by
  obtain ⟨⟨members, _⟩⟩ := record
  obtain ⟨⟨others, _⟩⟩ := other
  obtain rfl : members = others := h
  rfl

/-- Records with the same `get?` are the same. -/
theorem ext_get? (h : ∀ key, record.get? key = other.get? key) : record = other := by
  refine ext_members (Assoc.IsSorted.ext record.sorted other.sorted fun key => ?_)
  rw [← Entries.get?_eq, ← Entries.get?_eq]
  exact h key

/-- The members of a record that is made of entries in order are these entries. -/
theorem members_ofList {members : Entries Json} (h : Assoc.IsSorted members) :
    (⟨.ofList members⟩ : Record).members = members :=
  Entries.ofList_of_isSorted h

/-- `get?` of a record that is made of entries in order finds what the entries have. -/
theorem get?_ofList {members : Entries Json} (h : Assoc.IsSorted members) (key : String) :
    (⟨.ofList members⟩ : Record).get? key = Entries.get? members key := by
  rw [get?, members_ofList h]

/-- A record that is made of the members of another one is this one. -/
theorem ofList_members (record : Record) : (⟨.ofList record.members⟩ : Record) = record :=
  ext_members (members_ofList record.sorted)

/-- A record whose `typeName?` is `name` has this string under `typeField`. -/
theorem get?_typeField (h : record.typeName? = some name) : record.get? typeField = some (.str name) := by
  unfold typeName? at h
  split at h
  · split at h
    · cases h
    · cases h
      assumption
  · cases h

/-- `typeName?` gives no empty name. -/
theorem ne_empty_of_typeName? (h : record.typeName? = some name) : name ≠ "" := by
  unfold typeName? at h
  split at h
  · split at h
    · cases h
    · cases h
      rename_i hne
      rintro rfl
      exact hne rfl
  · cases h

/-- `get?` after `insert` finds the new value under its key, and under any other what it found before. -/
theorem get?_insert (record : Record) (key other : String) (value : Json) :
    (record.insert key value).get? other = if key = other then some value else record.get? other := by
  show Entries.get? (Entries.insert record.members key value) other = _
  rw [Entries.insert_eq, Entries.get?_eq, Assoc.get?_insert, get?, Entries.get?_eq]

/-- `get?` after `withType` finds the name under `typeField`, and under any other key what it found before. -/
theorem get?_withType (record : Record) (name key : String) : (record.withType name).get? key =
    if typeField = key then some (.str name) else record.get? key :=
  get?_insert record typeField key (.str name)

/-- `typeName?` after `withType` gives the name, unless it is empty. -/
theorem typeName?_withType (record : Record) (h : name ≠ "") : (record.withType name).typeName? = some name := by
  have hne : name.isEmpty = false := by simpa using h
  unfold typeName?
  rw [get?_withType, if_pos rfl]
  dsimp only
  rw [hne, if_neg Bool.false_ne_true]

/-- `withType` leaves a record of this type as it is. -/
theorem withType_eq (h : record.get? typeField = some (.str name)) : record.withType name = record := by
  refine ext_get? fun key => ?_
  rw [get?_withType]
  split
  · rename_i hkey
    rw [← hkey, h]
  · rfl

/-- `withType` makes two records the same that differ under `typeField` only. -/
theorem withType_congr (heq : ∀ key, key ≠ typeField → record.get? key = other.get? key) (name : String) :
    record.withType name = other.withType name := by
  refine ext_get? fun key => ?_
  rw [get?_withType, get?_withType]
  split
  · rfl
  · rename_i hkey
    exact heq key (Ne.symm hkey)

/-- `get?` after `erase` finds nothing under the erased key, and under any other what it found before. -/
theorem get?_erase (record : Record) (key other : String) :
    (record.erase key).get? other = if other = key then none else record.get? other :=
  Entries.get?_erase record.members key other

/-- `get?` after `extend` finds the member of the other record, and else that of the record itself. -/
theorem get?_extend (record other : Record) (key : String) :
    (record.extend other).get? key = (other.get? key).or (record.get? key) := by
  show Entries.get? (Entries.insertAll record.members other.members) key = _
  rw [Entries.insertAll_eq, Entries.get?_eq, Assoc.get?_insertAll other.sorted.nodup, get?, get?,
    Entries.get?_eq, Entries.get?_eq]

/-- What `decodePredictive` makes of a fresh and a decoded record has the name under `typeField`, and under any
other key the member of the decoded record, or else that of the fresh one. -/
theorem get?_withType_extend_erase (fresh decoded : Record) (name key : String) :
    ((fresh.extend (decoded.erase typeField)).withType name).get? key =
      if typeField = key then some (.str name) else (decoded.get? key).or (fresh.get? key) := by
  rw [get?_withType]
  by_cases hkey : typeField = key
  · rw [if_pos hkey, if_pos hkey]
  · rw [if_neg hkey, if_neg hkey, get?_extend, get?_erase, if_neg (Ne.symm hkey)]

/-- A type that `withType` has set is erased with any other. -/
theorem erase_withType (record : Record) (name : String) :
    (record.withType name).erase typeField = record.erase typeField := by
  refine ext_get? fun key => ?_
  rw [get?_erase, get?_erase, get?_withType]
  by_cases hkey : key = typeField
  · rw [if_pos hkey, if_pos hkey]
  · rw [if_neg hkey, if_neg hkey, if_neg (Ne.symm hkey)]

/-- Where a record has a member under every key of the fresh one, nothing of the fresh one is left when `extend`
has set its members. -/
theorem withType_extend_erase {fresh : Record}
    (hmembers : ∀ key, key ≠ typeField → record.get? key = none → fresh.get? key = none) (name : String) :
    (fresh.extend (record.erase typeField)).withType name = record.withType name := by
  refine ext_get? fun key => ?_
  rw [get?_withType_extend_erase, get?_withType]
  by_cases hkey : typeField = key
  · rw [if_pos hkey, if_pos hkey]
  · rw [if_neg hkey, if_neg hkey]
    cases hvalue : record.get? key with
    | some value => rfl
    | none => exact hmembers key (Ne.symm hkey) hvalue

end Record

namespace RegisteredType

/-- The record with the default of a field, if the field has one. -/
def setDefault (record : Record) (field : RegisteredField) : Record :=
  field.defaultValue?.elim record (record.insert field.name)

/-- `defaults` is the fold of `setDefault` over the fields. -/
theorem defaults_eq (fields : List RegisteredField) : defaults fields = fields.foldl setDefault {} := by
  unfold defaults
  congr 1
  funext record f
  unfold setDefault
  cases f.defaultValue? <;> rfl

/-- `setDefault` leaves nothing under a key if there was nothing and the default is not one of this key. -/
theorem get?_setDefault_eq_none_iff (record : Record) (field : RegisteredField) (key : String) :
    (setDefault record field).get? key = none ↔
      (field.name = key → field.defaultValue? = none) ∧ record.get? key = none := by
  unfold setDefault
  cases field.defaultValue? with
  | none => simp
  | some value =>
    rw [Option.elim_some, Record.get?_insert]
    by_cases hkey : field.name = key <;> simp [hkey]

/-- `defaults` has nothing but under the keys of fields that have a default. -/
theorem get?_defaults_eq_none_iff (fields : List RegisteredField) (key : String) :
    (defaults fields).get? key = none ↔ ∀ f ∈ fields, f.name = key → f.defaultValue? = none := by
  -- The fold is told from any record, as its steps start from what the earlier fields have set.
  have hfold : ∀ (fields : List RegisteredField) (record : Record),
      (fields.foldl setDefault record).get? key = none ↔
        (∀ f ∈ fields, f.name = key → f.defaultValue? = none) ∧ record.get? key = none := by
    intro fields
    induction fields with
    | nil => exact fun record => by simp
    | cons f rest ih =>
      intro record
      rw [List.foldl_cons, ih, get?_setDefault_eq_none_iff, List.forall_mem_cons, and_left_comm, and_assoc]
  rw [defaults_eq]
  exact (hfold fields {}).trans (and_iff_left rfl)

/-- The fresh record that `instantiate` makes without a constructor has a member for the type and for every
field that has a default. -/
theorem get?_instantiate_eq_none_iff {type : RegisteredType} (h : type.constructed = none) {key : String}
    (hkey : key ≠ typeField) : type.instantiate.get? key = none ↔
      ∀ f ∈ type.fields, f.name = key → f.defaultValue? = none := by
  have hfresh : type.instantiate = (defaults type.fields).withType type.name := by
    rw [instantiate, h]
    rfl
  rw [hfresh, Record.get?_withType, if_neg (Ne.symm hkey)]
  exact get?_defaults_eq_none_iff type.fields key

end RegisteredType

end Tagwire
