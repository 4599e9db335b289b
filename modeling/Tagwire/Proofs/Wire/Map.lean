import Tagwire.Proofs.Wire.Writing
import Tagwire.Schema.Reading

/-!
# Maps on the wire

A map writes each of its entries as a message of a key and a value.  Such a message is read over the
defaults of the two, so that a key or a value that is left out comes back, and the entries are set one after
the other in a map that has none of them yet.
-/

set_option autoImplicit false

namespace Tagwire

/-- The type is that of the entries of a map: a key of this scalar kind under number 1 and a value under number
2. -/
structure MessageType.IsEntry (type : MessageType) (kind : Scalar) (keyField valueField : MessageField) :
    Prop where
  key : type.field? 1 = some keyField
  value : type.field? 2 = some valueField
  keyKind : Schema.isKeyKind kind = true
  keyType : keyField.type = .scalar kind
  keyShape : keyField.shape = .single
  valueShape : valueField.shape = .single

/-- If the field is of a message type, its default is the message without fields. -/
def MessageField.StartsEmpty (f : MessageField) : Prop :=
  ∀ name, f.type = .message name → f.default = .message []

/-- Of the value of a map key, `ofValue?` makes this key. -/
theorem MapKey.ofValue?_toValue (key : MapKey) : ofValue? key.toValue = some key := by
  cases key <;> rfl

/-- A map key that `ofValue?` makes of a value has this value. -/
theorem MapKey.toValue_of_ofValue? {key : MapKey} {value : Value}
    (h : ofValue? value = some key) : key.toValue = value := by
  cases value <;> cases h <;> rfl

/-- A map key that `isDefault` for a value is this value. -/
theorem MapKey.eq_of_isDefault {key : MapKey} {default : Value} (h : default.isDefault key.toValue = true) :
    default = key.toValue := by
  cases key <;> cases default <;> first | contradiction | exact congrArg _ (beq_iff_eq.mp h)

namespace Value

/-- The keys after `setEntry` are those before and the one that is set. -/
theorem mem_keys_setEntry {entries : List (MapKey × Value)} {key other : MapKey} {value : Value} :
    other ∈ (setEntry entries key value).map Prod.fst ↔
      other = key ∨ other ∈ entries.map Prod.fst := by
  induction entries with
  | nil => simp [setEntry]
  | cons e rest ih =>
    rw [setEntry]
    split
    · rename_i heq
      simp [heq]
    · rw [List.map_cons, List.mem_cons, ih, List.map_cons, List.mem_cons, or_left_comm]

/-- Distinct keys stay distinct when `setEntry` sets one. -/
theorem nodup_setEntry {entries : List (MapKey × Value)} (h : (entries.map Prod.fst).Nodup)
    (key : MapKey) (value : Value) : ((setEntry entries key value).map Prod.fst).Nodup := by
  induction entries with
  | nil => simp [setEntry]
  | cons e rest ih =>
    rw [List.map_cons, List.nodup_cons] at h
    rw [setEntry]
    split
    · rename_i heq
      rw [List.map_cons, List.nodup_cons, ← heq]
      exact h
    · rename_i hne
      rw [List.map_cons, List.nodup_cons, mem_keys_setEntry, not_or]
      exact ⟨⟨hne, h.1⟩, ih h.2⟩

/-- An entry after `setEntry` is the one that is set or one from before. -/
theorem mem_of_mem_setEntry {entries : List (MapKey × Value)} {key : MapKey} {value : Value}
    {e : MapKey × Value} (h : e ∈ setEntry entries key value) : e = (key, value) ∨ e ∈ entries := by
  induction entries with
  | nil => exact .inl (List.mem_singleton.mp h)
  | cons first rest ih =>
    rw [setEntry] at h
    split at h
    · exact (List.mem_cons.mp h).imp_right (List.mem_cons_of_mem _)
    · rcases List.mem_cons.mp h with rfl | h
      · exact .inr List.mem_cons_self
      · exact (ih h).imp_right (List.mem_cons_of_mem _)

/-- An entry with a new key is put behind the others. -/
theorem setEntry_of_not_mem {entries : List (MapKey × Value)} {key : MapKey}
    (h : key ∉ entries.map Prod.fst) (value : Value) :
    setEntry entries key value = entries ++ [(key, value)] := by
  induction entries with
  | nil => rfl
  | cons e rest ih =>
    rw [List.map_cons, List.mem_cons, not_or] at h
    rw [setEntry, if_neg (Ne.symm h.1), ih h.2, List.cons_append]

end Value

namespace Schema

variable {schema : Schema} {nested : NestedReader} {depth : Nat} {type entryType : MessageType}
  {f keyField valueField : MessageField} {kind : Scalar}

/-! ## One entry -/

/-- The bytes of an entry of a map: those of its key, unless this is the default, and those of its value. -/
def entryBody (schema : Schema) (keyField valueField : MessageField) (e : MapKey × Value) : Bytes :=
  (if keyField.omits e.1.toValue then [] else keyField.encodeScalar e.1.toValue) ++
    schema.encodeField valueField e.2

/-- The bytes of entries are those of the first, behind the key of the field and a length, and those of the
others. -/
theorem encodeEntries_cons (f keyField valueField : MessageField) (e : MapKey × Value)
    (rest : List (MapKey × Value)) :
    schema.encodeEntries f (some keyField) (some valueField) (e :: rest) =
      f.key .lengthDelimited ++ lengthPrefixed (schema.entryBody keyField valueField e) ++
        schema.encodeEntries f (some keyField) (some valueField) rest := by
  rw [encodeEntries.eq_def]
  rfl

/-- A value takes no more bytes in its field than all entries of the map. -/
theorem length_encodeField_le_encodeEntries {entries : List (MapKey × Value)} {e : MapKey × Value}
    (h : e ∈ entries) : (schema.encodeField valueField e.2).length ≤
      (schema.encodeEntries f (some keyField) (some valueField) entries).length := by
  induction entries with
  | nil => cases h
  | cons first rest ih =>
    rw [encodeEntries_cons, List.length_append, List.length_append]
    rcases List.mem_cons.mp h with rfl | h
    · have hbody := length_lt_lengthPrefixed (schema.entryBody keyField valueField e)
      have hle : (schema.encodeField valueField e.2).length ≤
          (schema.entryBody keyField valueField e).length := by
        rw [entryBody, List.length_append]
        exact Nat.le_add_left _ _
      omega
    · exact (ih h).trans (Nat.le_add_left _ _)

/-- Behind a key, `readEntry` reads the key of the entry for number 1, the value for number 2, and passes over
anything else. -/
theorem readEntry_step {wireKey : WireKey} {bytes rest : Bytes}
    (hkey : WireKey.decode? bytes = some (wireKey, rest)) (fuel : Nat) (entry : Value × Value) :
    schema.readEntry nested depth keyField valueField (fuel + 1) entry bytes =
      if wireKey.number = 1 then
        (schema.readValue nested keyField wireKey.type none rest).bind fun read =>
          schema.readEntry nested depth keyField valueField fuel (read.1, entry.2) read.2
      else if wireKey.number = 2 then
        (schema.readValue nested valueField wireKey.type (some entry.2) rest).bind fun read =>
          schema.readEntry nested depth keyField valueField fuel (entry.1, read.1) read.2
      else (skipValue depth wireKey rest).bind fun rest =>
        schema.readEntry nested depth keyField valueField fuel entry rest := by
  have hrest := WireKey.length_lt_of_decode? hkey
  cases bytes with
  | nil => simp at hrest
  | cons b bytes =>
    obtain ⟨key, value⟩ := entry
    rw [readEntry.eq_def]
    dsimp only
    rw [hkey]
    rfl

/-- Reading a value over the default of a field that `StartsEmpty` is reading it over nothing. -/
theorem readValue_default (h : f.StartsEmpty) (wire : WireType) (bytes : Bytes) :
    schema.readValue nested f wire (some f.default) bytes = schema.readValue nested f wire none bytes := by
  unfold readValue
  cases htype : f.type with
  | message name => rw [h name htype]
  | _ => rfl

/-- The bytes of the value in its field are none and `read` is the default, or they are a key and a body that is
read as `read`. -/
def ValueWrites (schema : Schema) (nested : NestedReader) (f : MessageField) (value read : Value) : Prop :=
  schema.encodeField f value = [] ∧ read = f.default ∨ ItemWrites schema nested f value read

/-- From the bytes of its value with `ValueWrites`, `readEntry` reads an entry with the key before and this
value. -/
theorem readEntry_value (he : entryType.IsEntry kind keyField valueField) (hstart : valueField.StartsEmpty)
    {value read : Value} (h : ValueWrites schema nested valueField value read) (key : Value) {fuel : Nat}
    (hfuel : (schema.encodeField valueField value).length ≤ fuel) :
    schema.readEntry nested depth keyField valueField fuel (key, valueField.default)
      (schema.encodeField valueField value) = some (key, read) := by
  have hend : ∀ fuel entry, schema.readEntry nested depth keyField valueField fuel entry [] = some entry := by
    intro fuel entry
    cases fuel <;> rfl
  rcases h with ⟨hempty, rfl⟩ | ⟨wire, body, hchunk, hwrites⟩
  · rw [hempty, hend]
  · have hnumber : valueField.number = 2 := MessageType.number_of_field? he.value
    have hkey : WireKey.decode? (valueField.key wire ++ body) = some (⟨2, wire⟩, body) := by
      have hbound : 2 < 2 ^ 29 := by decide
      have := WireKey.decode?_encode ⟨2, wire⟩ Nat.two_pos hbound body
      rwa [MessageField.key, hnumber]
    have hpos := List.length_pos_iff.mpr (Varint.encode_ne_nil (8 * valueField.number + wire.code))
    rw [hchunk] at hfuel ⊢
    have hlength : (valueField.key wire ++ body).length =
        (Varint.encode (8 * valueField.number + wire.code)).length + body.length := List.length_append
    obtain ⟨fuel, rfl⟩ : ∃ n, fuel = n + 1 := ⟨fuel - 1, by omega⟩
    have hread : schema.readValue nested valueField wire none body = some (read, []) := by
      have := hwrites []
      rwa [List.append_nil] at this
    rw [readEntry_step hkey, if_neg (by simp), if_pos rfl, readValue_default hstart, hread,
      Option.bind_some, hend]

/-- The body of an entry is that of its value if the key is the default, and otherwise the key is read first. -/
theorem entryBody_cases (he : entryType.IsEntry kind keyField valueField) {key : MapKey}
    (hholds : kind.Holds key.toValue) {value : Value}
    (hlength : (schema.entryBody keyField valueField (key, value)).length < 2 ^ 64) :
    (keyField.default = key.toValue ∧
      schema.entryBody keyField valueField (key, value) = schema.encodeField valueField value) ∨
    ((schema.encodeField valueField value).length < (schema.entryBody keyField valueField (key, value)).length ∧
      ∀ fuel own, schema.readEntry nested depth keyField valueField (fuel + 1) (own, valueField.default)
        (schema.entryBody keyField valueField (key, value)) =
          schema.readEntry nested depth keyField valueField fuel (key.toValue, valueField.default)
            (schema.encodeField valueField value)) := by
  have hnumber : keyField.number = 1 := MessageType.number_of_field? he.key
  have hscalar : keyField.type.scalar? = some kind := by rw [he.keyType]; rfl
  cases homits : keyField.omits key.toValue with
  | true =>
    refine .inl ⟨?_, by rw [entryBody, if_pos homits, List.nil_append]⟩
    rw [MessageField.omits, Bool.and_eq_true] at homits
    exact MapKey.eq_of_isDefault homits.2
  | false =>
    have hbody : schema.entryBody keyField valueField (key, value) =
        keyField.key kind.wireType ++ (kind.encode key.toValue ++ schema.encodeField valueField value) := by
      rw [entryBody, if_neg (by rw [homits]; simp), MessageField.encodeScalar, hscalar]
      exact List.append_assoc _ _ _
    have hkey : WireKey.decode? (schema.entryBody keyField valueField (key, value)) =
        some (⟨1, kind.wireType⟩, kind.encode key.toValue ++ schema.encodeField valueField value) := by
      have := WireKey.decode?_encode ⟨1, kind.wireType⟩ Nat.one_pos (show 1 < 2 ^ 29 by decide)
        (kind.encode key.toValue ++ schema.encodeField valueField value)
      rwa [hbody, MessageField.key, hnumber]
    have hless := WireKey.length_lt_of_decode? hkey
    rw [List.length_append] at hless
    refine .inr ⟨by omega, fun fuel own => ?_⟩
    have hread : schema.readValue nested keyField kind.wireType none
        (kind.encode key.toValue ++ schema.encodeField valueField value) =
        some (key.toValue, schema.encodeField valueField value) :=
      writes_scalar hscalar hholds (by omega) _
    rw [readEntry_step hkey, if_pos rfl, hread, Option.bind_some]

/-- From the body of an entry whose value has `ValueWrites`, `readEntry` reads its key and its value. -/
theorem readEntry_entryBody (he : entryType.IsEntry kind keyField valueField)
    (hstart : valueField.StartsEmpty) {key : MapKey} (hholds : kind.Holds key.toValue)
    {value read : Value} (h : ValueWrites schema nested valueField value read)
    (hlength : (schema.entryBody keyField valueField (key, value)).length < 2 ^ 64)
    {fuel : Nat} (hfuel : (schema.entryBody keyField valueField (key, value)).length ≤ fuel) :
    schema.readEntry nested depth keyField valueField fuel (keyField.default, valueField.default)
      (schema.entryBody keyField valueField (key, value)) = some (key.toValue, read) := by
  obtain ⟨hkey, hbody⟩ | ⟨hless, hstep⟩ := entryBody_cases he hholds hlength
  · rw [hbody] at hfuel ⊢
    rw [hkey]
    exact readEntry_value he hstart h _ hfuel
  · obtain ⟨fuel, rfl⟩ : ∃ n, fuel = n + 1 := ⟨fuel - 1, by omega⟩
    rw [hstep]
    exact readEntry_value he hstart h _ (by omega)

/-! ## All entries -/

/-- The bytes of an entry whose value has `ValueWrites` set this entry in a map. -/
theorem fieldsRead_entry (hf : type.Declares f) (hs : f.shape = .map)
    (ht : schema.message? f.type.name = some entryType) (he : entryType.IsEntry kind keyField valueField)
    (hstart : valueField.StartsEmpty) {key : MapKey} (hholds : kind.Holds key.toValue)
    {value read : Value} (h : ValueWrites schema nested valueField value read)
    (hlength : (schema.entryBody keyField valueField (key, value)).length < 2 ^ 64)
    {values : FieldValues} {tail rest : Bytes} {result : FieldValues}
    (hrest : FieldsRead (schema.readField nested depth type) tail (FieldValues.set values f.number
      (.map (Value.setEntry (entriesOf (FieldValues.get? values f.number)) key read))) rest result) :
    FieldsRead (schema.readField nested depth type) tail values (f.key .lengthDelimited ++
      lengthPrefixed (schema.entryBody keyField valueField (key, value)) ++ rest) result := by
  have hentry : schema.readMapEntry nested depth f
      (lengthPrefixed (schema.entryBody keyField valueField (key, value)) ++ rest) =
      some ((key, read), rest) := by
    unfold readMapEntry
    simp only [ht, he.key, he.value, readLengthPrefixed?_append hlength, Option.bind_eq_bind,
      Option.bind_some, readEntry_entryBody he hstart hholds h hlength (Nat.le_refl _),
      MapKey.ofValue?_toValue]
    rfl
  have hfield : schema.readField nested depth type ⟨f.number, .lengthDelimited⟩ values
      (lengthPrefixed (schema.entryBody keyField valueField (key, value)) ++ rest) =
      some (FieldValues.set values f.number
        (.map (Value.setEntry (entriesOf (FieldValues.get? values f.number)) key read)), rest) := by
    rw [readField_eq_of_field? hf.found, readOver, hs]
    dsimp only
    rw [hentry, Option.map_some, Option.map_some, hf.setField_eq]
  rw [List.append_assoc]
  exact .step (hf.decode?_key _ _) (by simp) hfield (by simp) hrest

/-- Both entries have one key, of the kind, and the value of the first `ValueWrites` that of the second. -/
def EntryWrites (schema : Schema) (nested : NestedReader) (kind : Scalar) (valueField : MessageField)
    (e read : MapKey × Value) : Prop :=
  e.1 = read.1 ∧ kind.Holds e.1.toValue ∧ ValueWrites schema nested valueField e.2 read.2

/-- The bytes of entries with `EntryWrites` set these entries in a map, one after the other. -/
theorem fieldsRead_entries (hf : type.Declares f) (hs : f.shape = .map)
    (ht : schema.message? f.type.name = some entryType) (he : entryType.IsEntry kind keyField valueField)
    (hstart : valueField.StartsEmpty) {entries reads : List (MapKey × Value)}
    (h : List.Forall₂ (EntryWrites schema nested kind valueField) entries reads)
    (hn : (entries.map Prod.fst).Nodup) (hne : entries ≠ [])
    (hlength : (schema.encodeEntries f (some keyField) (some valueField) entries).length < 2 ^ 64)
    {values : FieldValues} {before : List (MapKey × Value)}
    (hnew : ∀ key ∈ entries.map Prod.fst, key ∉ before.map Prod.fst)
    (hbefore : entriesOf (FieldValues.get? values f.number) = before) {tail rest : Bytes}
    {result : FieldValues} (hrest : FieldsRead (schema.readField nested depth type) tail
      (FieldValues.set values f.number (.map (before ++ reads))) rest result) :
    FieldsRead (schema.readField nested depth type) tail values
      (schema.encodeEntries f (some keyField) (some valueField) entries ++ rest) result := by
  induction h generalizing values before with
  | nil => exact absurd rfl hne
  | @cons e read entries reads hentry hentries ih =>
    obtain ⟨key, value⟩ := e
    obtain ⟨key', value'⟩ := read
    obtain ⟨heq, hholds, hwrites⟩ := hentry
    obtain rfl : key = key' := heq
    replace hwrites : ValueWrites schema nested valueField value value' := hwrites
    replace hholds : kind.Holds key.toValue := hholds
    rw [List.map_cons, List.nodup_cons] at hn
    rw [encodeEntries_cons, List.length_append, List.length_append] at hlength
    have hbody := length_lt_lengthPrefixed (schema.entryBody keyField valueField (key, value))
    have hset : Value.setEntry before key value' = before ++ [(key, value')] :=
      Value.setEntry_of_not_mem (hnew _ (by simp)) _
    rw [encodeEntries_cons, List.append_assoc]
    apply fieldsRead_entry hf hs ht he hstart hholds hwrites (by omega)
    rw [hbefore, hset]
    cases hentries with
    | nil => simpa [encodeEntries] using hrest
    | cons hnext hmore =>
      refine @ih hn.2 (by simp) (by omega) _ (before ++ [(key, value')]) ?_ ?_ ?_
      · intro other hother
        rw [List.map_append, List.mem_append, not_or]
        refine ⟨hnew other (List.mem_cons_of_mem _ hother), ?_⟩
        rw [List.map_cons, List.map_nil, List.mem_singleton]
        rintro rfl
        exact hn.1 hother
      · rw [FieldValues.get?_set, if_pos rfl, entriesOf]
      · rw [FieldValues.set_set, List.append_assoc]
        exact hrest

/-- The bytes of a map that is not empty, whose entries have `EntryWrites`, add this map. -/
theorem adds_entries (hf : type.Declares f) (hs : f.shape = .map)
    (ht : schema.message? f.type.name = some entryType) (he : entryType.IsEntry kind keyField valueField)
    (hstart : valueField.StartsEmpty) {entries reads : List (MapKey × Value)}
    (h : List.Forall₂ (EntryWrites schema nested kind valueField) entries reads)
    (hn : (entries.map Prod.fst).Nodup) (hne : entries ≠ [])
    (hlength : (schema.encodeEntries f (some keyField) (some valueField) entries).length < 2 ^ 64) :
    Adds schema nested depth type f (schema.encodeEntries f (some keyField) (some valueField) entries)
      (.map reads) := by
  intro tail values rest result hopen hrest
  have hnone : entriesOf (FieldValues.get? values f.number) = [] := by
    rw [hf.isOpen_iff.mp hopen]
    rfl
  exact fieldsRead_entries hf hs ht he hstart h hn hne hlength (by simp) hnone hrest

end Schema

end Tagwire
