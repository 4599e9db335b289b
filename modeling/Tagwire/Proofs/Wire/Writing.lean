import Tagwire.Proofs.Entries
import Tagwire.Proofs.Wire.Reading
import Tagwire.Wire.Writer

/-!
# The reader after the writer

A field that has been written is read into a message that does not have it yet, whatever stands behind it.
So a message is read field by field in the order in which it was written, and it suffices to know of each
field what is read in its place.
-/

set_option autoImplicit false

namespace Tagwire

namespace Schema

variable {schema : Schema} {nested : NestedReader} {depth : Nat} {type : MessageType}
  {f : MessageField}

/-! ## Single values -/

/-- From the body, with any bytes behind it, `readValue` reads the value over nothing and leaves these bytes. -/
def Writes (schema : Schema) (nested : NestedReader) (f : MessageField) (wire : WireType) (body : Bytes)
    (value : Value) : Prop :=
  ∀ rest, schema.readValue nested f wire none (body ++ rest) = some (value, rest)

/-- The bytes of a scalar below `2 ^ 64` write it. -/
theorem writes_scalar {kind : Scalar} (hk : f.type.scalar? = some kind) {value : Value}
    (h : kind.Holds value) (hlength : (kind.encode value).length < 2 ^ 64) :
    Writes schema nested f kind.wireType (kind.encode value) value := by
  intro rest
  unfold readValue
  rw [hk]
  dsimp only
  rw [if_pos rfl, Scalar.decode?_encode h hlength]

/-- The bytes of a message behind their length write it, if the nested reader reads them. -/
theorem writes_message {name : String} {message : MessageType} (ht : f.type = .message name)
    (hm : schema.message? name = some message) (hg : f.grouped = false) {body : Bytes}
    {values : FieldValues} {more : Bytes} (h : nested message none [] body = some (values, more))
    (hlength : body.length < 2 ^ 64) :
    Writes schema nested f .lengthDelimited (lengthPrefixed body) (.message values) := by
  intro rest
  have hscalar : f.type.scalar? = none := by rw [ht]; rfl
  have hname : f.type.name = name := by rw [ht]; rfl
  unfold readValue
  rw [hscalar, hname]
  dsimp only
  rw [hm, hg]
  simp only [Option.bind_eq_bind, Option.bind_some, Bool.false_eq_true, if_false, if_true,
    readLengthPrefixed?_append hlength, h]
  rfl

/-- The bytes of a message before the end of a group write it, if the nested reader reads them. -/
theorem writes_group {name : String} {message : MessageType} (ht : f.type = .message name)
    (hm : schema.message? name = some message) (hg : f.grouped = true) {body : Bytes} {values : FieldValues}
    (h : ∀ rest, nested message (some f.number) [] (body ++ (f.key .endGroup ++ rest)) = some (values, rest)) :
    Writes schema nested f .startGroup (body ++ f.key .endGroup) (.message values) := by
  intro rest
  have hscalar : f.type.scalar? = none := by rw [ht]; rfl
  have hname : f.type.name = name := by rw [ht]; rfl
  unfold readValue
  rw [hscalar, hname]
  dsimp only
  rw [hm, hg, List.append_assoc]
  simp only [Option.bind_eq_bind, Option.bind_some, if_true, h]
  rfl

/-- No value is written behind a key of wire type `endGroup`. -/
theorem Writes.ne_endGroup {wire : WireType} {body : Bytes} {value : Value}
    (h : Writes schema nested f wire body value) : wire ≠ .endGroup := by
  rintro rfl
  have hread := h []
  unfold readValue at hread
  split at hread
  · rename_i kind _
    rw [if_neg (by cases kind <;> decide)] at hread
    cases hread
  · obtain ⟨message, -, hread⟩ := Option.bind_eq_some_iff.mp hread
    dsimp only at hread
    split at hread
    · rw [if_neg (by decide)] at hread
      cases hread
    · rw [if_neg (by decide)] at hread
      cases hread

/-- A value of a packable type is not written behind a key with a length. -/
theorem Writes.ne_lengthDelimited (hp : f.type.isPackable = true) {wire : WireType} {body : Bytes}
    {value : Value} (h : Writes schema nested f wire body value) : wire ≠ .lengthDelimited := by
  rintro rfl
  have hread := h []
  unfold readValue at hread
  cases htype : f.type with
  | message name =>
    rw [htype] at hp
    cases hp
  | enum name =>
    rw [htype] at hread
    cases hread
  | scalar kind =>
    rw [htype] at hread hp
    cases kind <;> cases hp <;> cases hread

/-- A scalar in a field has the key of its wire type and its bytes, or none if the field omits it. -/
theorem encodeField_scalar {f : MessageField} {kind : Scalar} (hk : f.type.scalar? = some kind)
    {value : Value} (h : value.isScalar = true) : schema.encodeField f value =
      if f.omits value then [] else f.key kind.wireType ++ kind.encode value := by
  have hscalar : f.encodeScalar value = f.key kind.wireType ++ kind.encode value := by
    rw [MessageField.encodeScalar, hk]
  rw [← hscalar]
  cases value <;> first | (cases h; done) | simp only [encodeField]

/-- A message in a field that does not omit it is written with `encodeBody`. -/
theorem encodeField_message {f : MessageField} (message : MessageType) {values : FieldValues}
    (homits : f.omits (.message values) = false) (hmessage : schema.message? f.type.name = some message) :
    schema.encodeField f (.message values) = f.encodeBody (schema.encode message values) := by
  rw [encodeField, homits, if_neg Bool.false_ne_true, hmessage]

/-- The bytes of a message of one field are those of this field. -/
theorem encode_singleton {number : Nat} {f : MessageField} (hf : type.field? number = some f) (value : Value) :
    schema.encode type [(number, value)] = schema.encodeField f value := by
  rw [encode, encode, List.append_nil, hf]

/-- An item takes no more bytes than all items. -/
theorem length_encodeField_le_encodeItems (f : MessageField) {items : List Value} {item : Value}
    (h : item ∈ items) : (schema.encodeField f item).length ≤ (schema.encodeItems f items).length := by
  induction items with
  | nil => cases h
  | cons first rest ih =>
    rw [encodeItems, List.length_append]
    rcases List.mem_cons.mp h with rfl | h
    · exact Nat.le_add_right _ _
    · exact (ih h).trans (Nat.le_add_left _ _)

end Schema

/-! ## Fields -/

/-- The field that `field?` finds under a number has this number. -/
theorem MessageType.number_of_field? {type : MessageType} {number : Nat} {f : MessageField}
    (h : type.field? number = some f) : f.number = number := by
  simpa using List.find?_some h

/-- The field is found under its number, which is positive and below `2 ^ 29`. -/
structure MessageType.Finds (type : MessageType) (f : MessageField) : Prop where
  found : type.field? f.number = some f
  pos : 0 < f.number
  lt : f.number < 2 ^ 29

/-- The field is found under its number and is in no oneof. -/
structure MessageType.Declares (type : MessageType) (f : MessageField) : Prop extends type.Finds f where
  oneof : f.oneof = none

/-- Neither the field nor one of its `rivals` is set. -/
def MessageType.IsOpen (type : MessageType) (f : MessageField) (values : FieldValues) : Prop :=
  ∀ number, number = f.number ∨ number ∈ type.rivals f → FieldValues.get? values number = none

/-- Reading `chunk` before other bytes sets the field to `value` in each message that is open for it. -/
def Schema.Adds (schema : Schema) (nested : NestedReader) (depth : Nat) (type : MessageType)
    (f : MessageField) (chunk : Bytes) (value : Value) : Prop :=
  ∀ tail values rest result, type.IsOpen f values →
    FieldsRead (schema.readField nested depth type) tail (FieldValues.set values f.number value) rest result →
    FieldsRead (schema.readField nested depth type) tail values (chunk ++ rest) result

namespace MessageType

variable {type : MessageType} {f : MessageField}

/-- The key of a field is decoded from its bytes. -/
theorem Finds.decode?_key (h : type.Finds f) (wire : WireType) (rest : Bytes) :
    WireKey.decode? (f.key wire ++ rest) = some (⟨f.number, wire⟩, rest) :=
  WireKey.decode?_encode ⟨f.number, wire⟩ h.pos h.lt rest

/-- Where none of the `rivals` of a field is set, `setField` is `FieldValues.set`. -/
theorem setField_eq_of_rivals {values : FieldValues}
    (h : ∀ number ∈ type.rivals f, FieldValues.get? values number = none) (value : Value) :
    type.setField f value values = FieldValues.set values f.number value := by
  have hkept : values.filter (fun e =>
      !((type.rivals f).filter (· != f.number)).contains e.1) = values := by
    rw [List.filter_eq_self]
    intro e he
    rw [Bool.not_eq_true', ← Bool.not_eq_true, List.contains_iff_mem, List.mem_filter]
    rintro ⟨hrival, -⟩
    have hnone := h e.1 hrival
    rw [FieldValues.get?_eq, Assoc.get?_eq_none_iff] at hnone
    exact hnone (List.mem_map_of_mem he)
  rw [setField, hkept]

/-- Where a field is open, `setField` is `FieldValues.set`. -/
theorem IsOpen.setField_eq {values : FieldValues} (h : type.IsOpen f values) (value : Value) :
    type.setField f value values = FieldValues.set values f.number value :=
  setField_eq_of_rivals (fun number hrival => h number (.inr hrival)) value

/-- A declared field has no rivals. -/
theorem Declares.rivals_eq_nil (h : type.Declares f) : type.rivals f = [] := by
  rw [rivals, h.oneof]

/-- For a declared field, `setField` is `FieldValues.set`. -/
theorem Declares.setField_eq (h : type.Declares f) (value : Value) (values : FieldValues) :
    type.setField f value values = FieldValues.set values f.number value :=
  setField_eq_of_rivals (by simp [h.rivals_eq_nil]) value

/-- A declared field is open exactly if it is not set. -/
theorem Declares.isOpen_iff (h : type.Declares f) {values : FieldValues} :
    type.IsOpen f values ↔ FieldValues.get? values f.number = none := by
  simp [IsOpen, h.rivals_eq_nil]

end MessageType

namespace FieldValues

/-- Setting a number changes what is under it and nothing else. -/
theorem get?_set (values : FieldValues) (number other : Nat) (value : Value) :
    get? (set values number value) other = if number = other then some value else get? values other := by
  rw [get?_eq, set_eq, Assoc.get?_insert, get?_eq]

/-- Of two values that are set under one number the second remains. -/
theorem set_set (values : FieldValues) (number : Nat) (first second : Value) :
    set (set values number first) number second = set values number second := by
  induction values with
  | nil => simp [set]
  | cons e rest ih =>
    rw [set]
    by_cases hlt : number < e.1
    · simp [set, hlt]
    · by_cases heq : number = e.1
      · simp [set, heq]
      · simp [set, hlt, heq, ih]

end FieldValues

/-- A field stays open when another number is set that is none of its rivals. -/
theorem MessageType.IsOpen.set {type : MessageType} {f : MessageField} {values : FieldValues}
    (h : type.IsOpen f values) {number : Nat} (hne : number ≠ f.number) (hrival : number ∉ type.rivals f)
    (value : Value) : type.IsOpen f (FieldValues.set values number value) := by
  intro other hother
  rw [FieldValues.get?_set, if_neg ?_]
  · exact h other hother
  rintro rfl
  exact hother.elim hne hrival

namespace Schema

variable {schema : Schema} {nested : NestedReader} {depth : Nat} {type : MessageType}
  {f : MessageField}

/-- From a body that writes a value of a single field, `readField` sets the field to it. -/
theorem readField_single (hf : type.Finds f) (hs : f.shape = .single) {wire : WireType} {body : Bytes}
    {value : Value} (h : Writes schema nested f wire body value) {values : FieldValues}
    (hopen : type.IsOpen f values) (rest : Bytes) :
    schema.readField nested depth type ⟨f.number, wire⟩ values (body ++ rest) =
      some (FieldValues.set values f.number value, rest) := by
  rw [readField_eq_of_field? hf.found, readOver, hs, hopen f.number (.inl rfl)]
  dsimp only
  rw [h rest, Option.map_some, hopen.setField_eq]

/-- A key and a body that writes a value of a single field add this value. -/
theorem adds_single (hf : type.Finds f) (hs : f.shape = .single) {wire : WireType} {body : Bytes}
    {value : Value} (h : Writes schema nested f wire body value) :
    Adds schema nested depth type f (f.key wire ++ body) value := by
  intro tail values rest result hopen hrest
  rw [List.append_assoc]
  exact .step (hf.decode?_key wire _) h.ne_endGroup (readField_single hf hs h hopen rest) (by simp) hrest

/-! ## Lists -/

/-- A value of a packable kind has at least one byte. -/
theorem encode_ne_nil {kind : Scalar} (hk : (ValueType.scalar kind).isPackable = true) {value : Value}
    (h : kind.Holds value) : kind.encode value ≠ [] := by
  have hfixed : ∀ n count, Bytes.littleEndian n (count + 1) ≠ [] := by
    intro n count
    simp [Bytes.littleEndian]
  cases kind <;> cases hk <;> obtain ⟨x, rfl, -⟩ := h
  all_goals first | exact Varint.encode_ne_nil _ | exact hfixed _ _

/-- From the bytes of items of a packable kind, `readPacked` reads these items. -/
theorem readPacked_flatMap {kind : Scalar} (hk : (ValueType.scalar kind).isPackable = true)
    {items : List Value} (h : ∀ item ∈ items, kind.Holds item)
    (hlength : (items.flatMap kind.encode).length < 2 ^ 64) {fuel : Nat}
    (hfuel : (items.flatMap kind.encode).length ≤ fuel) :
    readPacked kind fuel (items.flatMap kind.encode) = some items := by
  induction items generalizing fuel with
  | nil => cases fuel <;> rfl
  | cons item items ih =>
    rw [List.flatMap_cons, List.length_append] at hlength hfuel
    have hpos := List.length_pos_iff.mpr (encode_ne_nil hk (h item (by simp)))
    obtain ⟨fuel, rfl⟩ : ∃ n, fuel = n + 1 := ⟨fuel - 1, by omega⟩
    have hitem := Scalar.decode?_encode (h item (by simp)) (by omega) (items.flatMap kind.encode)
    have hrest := ih (fun i hi => h i (by simp [hi])) (by omega) (by omega : _ ≤ fuel)
    rw [List.flatMap_cons]
    cases hbytes : kind.encode item ++ items.flatMap kind.encode with
    | nil => simp [List.length_pos_iff.mp hpos] at hbytes
    | cons b bytes =>
      rw [hbytes] at hitem
      simp only [readPacked, hitem, hrest, Option.map_some]

/-- The items that `readItems` reads are put behind those that a list has. -/
theorem readField_list (hf : type.Declares f) (hs : f.shape = .list) {wire : WireType} {bytes rest : Bytes}
    {items : List Value} (h : schema.readItems nested f wire bytes = some (items, rest))
    (values : FieldValues) : schema.readField nested depth type ⟨f.number, wire⟩ values bytes =
      some (FieldValues.set values f.number
        (.list (itemsOf (FieldValues.get? values f.number) ++ items)), rest) := by
  rw [readField_eq_of_field? hf.found, readOver, hs]
  dsimp only
  rw [h, Option.map_some, Option.map_some, hf.setField_eq]

/-- The bytes of a packed list that is not empty add this list. -/
theorem adds_packed (hf : type.Declares f) (hs : f.shape = .list) {kind : Scalar}
    (hk : f.type.scalar? = some kind) (hp : f.type.isPackable = true)
    (hkp : (ValueType.scalar kind).isPackable = true) {items : List Value}
    (h : ∀ item ∈ items, kind.Holds item) (hlength : (f.encodePacked items).length < 2 ^ 64) :
    Adds schema nested depth type f (f.encodePacked items) (.list items) := by
  intro tail values rest result hopen hrest
  have hnone := hf.isOpen_iff.mp hopen
  have hchunk : f.encodePacked items =
      f.key .lengthDelimited ++ lengthPrefixed (items.flatMap kind.encode) := by
    rw [MessageField.encodePacked, hk]
  have hbody : (items.flatMap kind.encode).length < 2 ^ 64 := by
    have := length_lt_lengthPrefixed (items.flatMap kind.encode)
    rw [hchunk, List.length_append] at hlength
    omega
  have hread : schema.readItems nested f .lengthDelimited
      (lengthPrefixed (items.flatMap kind.encode) ++ rest) = some (items, rest) := by
    unfold readItems
    rw [hk, hp]
    simp only [readLengthPrefixed?_append hbody, readPacked_flatMap hkp h hbody (Nat.le_refl _),
      Option.bind_eq_bind, Option.bind_some, Option.pure_def]
  have hfield : schema.readField nested depth type ⟨f.number, .lengthDelimited⟩ values
      (lengthPrefixed (items.flatMap kind.encode) ++ rest) =
      some (FieldValues.set values f.number (.list items), rest) := by
    rw [readField_list hf hs hread, hnone]
    rfl
  rw [hchunk, List.append_assoc]
  exact .step (hf.decode?_key _ _) nofun hfield (by simp) hrest

/-- A key and a body that writes an item put it behind the items of a list. -/
theorem fieldsRead_item (hf : type.Declares f) (hs : f.shape = .list)
    {wire : WireType} {body : Bytes} {item : Value} (h : Writes schema nested f wire body item)
    {values : FieldValues} {tail rest : Bytes} {result : FieldValues}
    (hrest : FieldsRead (schema.readField nested depth type) tail (FieldValues.set values f.number
      (.list (itemsOf (FieldValues.get? values f.number) ++ [item]))) rest result) :
    FieldsRead (schema.readField nested depth type) tail values (f.key wire ++ body ++ rest) result := by
  have hread : schema.readItems nested f wire (body ++ rest) = some ([item], rest) := by
    unfold readItems
    split
    · rename_i hp
      exact absurd rfl (h.ne_lengthDelimited hp)
    · rw [h rest, Option.map_some]
  rw [List.append_assoc]
  exact .step (hf.decode?_key wire _) h.ne_endGroup (readField_list hf hs hread values) (by simp) hrest

/-- The bytes of the item in its field are a key and a body that writes `read`. -/
def ItemWrites (schema : Schema) (nested : NestedReader) (f : MessageField) (item read : Value) : Prop :=
  ∃ wire body, schema.encodeField f item = f.key wire ++ body ∧ Writes schema nested f wire body read

/-- The bytes of items with `ItemWrites` put what they write behind the items of a list. -/
theorem fieldsRead_items (hf : type.Declares f) (hs : f.shape = .list)
    {items reads : List Value} (h : List.Forall₂ (ItemWrites schema nested f) items reads)
    (hne : items ≠ []) {values : FieldValues} {tail rest : Bytes} {result : FieldValues}
    (hrest : FieldsRead (schema.readField nested depth type) tail (FieldValues.set values f.number
      (.list (itemsOf (FieldValues.get? values f.number) ++ reads))) rest result) :
    FieldsRead (schema.readField nested depth type) tail values (schema.encodeItems f items ++ rest)
      result := by
  induction h generalizing values with
  | nil => exact absurd rfl hne
  | @cons item read items reads hitem hitems ih =>
    obtain ⟨wire, body, hchunk, hwrites⟩ := hitem
    rw [encodeItems, hchunk, List.append_assoc]
    apply fieldsRead_item hf hs hwrites
    cases hitems with
    | nil => simpa [encodeItems] using hrest
    | cons hnext hmore =>
      apply ih (by simp)
      rw [FieldValues.get?_set, if_pos rfl, FieldValues.set_set, itemsOf, List.append_assoc]
      exact hrest

/-- The bytes of a list that is neither packed nor empty, whose items have `ItemWrites`, add what these
write. -/
theorem adds_items (hf : type.Declares f) (hs : f.shape = .list)
    {items reads : List Value} (h : List.Forall₂ (ItemWrites schema nested f) items reads)
    (hne : items ≠ []) :
    Adds schema nested depth type f (schema.encodeItems f items) (.list reads) := by
  intro tail values rest result hopen hrest
  apply fieldsRead_items hf hs h hne
  rw [hf.isOpen_iff.mp hopen]
  exact hrest

/-! ## Messages -/

/-- A field takes no more bytes than the message that it is one of. -/
theorem length_encodeField_le {values : FieldValues} {e : Nat × Value} (he : e ∈ values)
    (hf : type.field? e.1 = some f) :
    (schema.encodeField f e.2).length ≤ (schema.encode type values).length := by
  induction values with
  | nil => cases he
  | cons first rest ih =>
    obtain ⟨number, value⟩ := first
    rw [encode, List.length_append]
    rcases List.mem_cons.mp he with rfl | he
    · rw [hf]
      exact Nat.le_add_right _ _
    · exact (ih he).trans (Nat.le_add_left _ _)

/-- The field of an entry of a message with such numbers.  It shares no oneof with another of them, and its bytes
add a value, or it is left out; what is read for it is as `p` asks. -/
structure EntryAdds (schema : Schema) (nested : NestedReader) (depth : Nat) (type : MessageType)
    (p : Nat × Value → Option Value → Prop) (numbers : List Nat) (e : Nat × Value) (f : MessageField) :
    Prop where
  found : type.field? e.1 = some f
  number : f.number = e.1
  alone : ∀ number ∈ type.rivals f, number ∈ numbers → number = e.1
  chunk : schema.encodeField f e.2 = [] ∧ p e none ∨
    ∃ read, Adds schema nested depth type f (schema.encodeField f e.2) read ∧ p e (some read)

/-- The bytes of a message whose fields have `EntryAdds` are read as sorted fields, each of which is as `p` asks
of its entry. -/
theorem exists_fieldsRead {p : Nat × Value → Option Value → Prop} {values : FieldValues}
    (hn : (values.map Prod.fst).Nodup)
    (h : ∀ e ∈ values, ∃ f, EntryAdds schema nested depth type p (values.map Prod.fst) e f)
    {before : FieldValues} (hb : Assoc.IsSorted before)
    (hnew : ∀ e ∈ values, ∀ f, type.field? e.1 = some f → f.number = e.1 → type.IsOpen f before) :
    ∃ result, (∀ tail, FieldsRead (schema.readField nested depth type) tail before
        (schema.encode type values ++ tail) result) ∧
      Assoc.IsSorted result ∧ (∀ e ∈ values, p e (FieldValues.get? result e.1)) ∧
      ∀ number, number ∉ values.map Prod.fst →
        FieldValues.get? result number = FieldValues.get? before number := by
  induction values generalizing before with
  | nil => exact ⟨before, fun _ => .done before, hb, by simp, by simp⟩
  | cons e rest ih =>
    obtain ⟨f, hf⟩ := h e (by simp)
    rw [List.map_cons, List.nodup_cons] at hn
    obtain ⟨hfirst, hrest⟩ := hn
    have hbytes : schema.encode type (e :: rest) = schema.encodeField f e.2 ++ schema.encode type rest := by
      obtain ⟨number, value⟩ := e
      rw [encode, hf.found]
    have hlater : ∀ e' ∈ rest, ∃ g, EntryAdds schema nested depth type p (rest.map Prod.fst) e' g := by
      intro e' he'
      obtain ⟨g, hg⟩ := h e' (by simp [he'])
      exact ⟨g, { hg with alone := fun number hr hmem => hg.alone number hr (List.mem_cons_of_mem _ hmem) }⟩
    -- A field that is left out changes nothing; what another one adds stands under its own number.
    rcases hf.chunk with ⟨hempty, hp⟩ | ⟨read, hadds, hp⟩
    · obtain ⟨result, hread, hsorted, hall, hkept⟩ :=
        ih hrest hlater hb fun e' he' => hnew e' (by simp [he'])
      refine ⟨result, ?_, hsorted, ?_, ?_⟩
      · rw [hbytes, hempty]
        exact hread
      · rw [List.forall_mem_cons]
        refine ⟨?_, hall⟩
        rw [hkept e.1 hfirst, hnew e (by simp) f hf.found hf.number e.1 (.inl hf.number.symm)]
        exact hp
      · intro number hnot
        rw [List.map_cons, List.mem_cons, not_or] at hnot
        exact hkept number hnot.2
    · have hsorted' : Assoc.IsSorted (FieldValues.set before f.number read) := by
        rw [FieldValues.set_eq]
        exact hb.insert f.number read
      have hget := FieldValues.get?_set before f.number
      have hopen : ∀ e' ∈ rest, ∀ g, type.field? e'.1 = some g → g.number = e'.1 →
          type.IsOpen g (FieldValues.set before f.number read) := by
        intro e' he' g hg hgnumber
        have hother : e'.1 ≠ e.1 := fun heq => hfirst (heq ▸ List.mem_map_of_mem he')
        refine (hnew e' (by simp [he']) g hg hgnumber).set ?_ ?_ read
        · rw [hf.number, hgnumber]
          exact hother.symm
        · intro hrival
          obtain ⟨g', hg'⟩ := h e' (by simp [he'])
          obtain rfl : g = g' := Option.some.inj (hg.symm.trans hg'.found)
          exact hother ((hg'.alone _ hrival (by simp [hf.number])).symm.trans hf.number)
      obtain ⟨result, hread, hsorted, hall, hkept⟩ := ih hrest hlater hsorted' hopen
      refine ⟨result, ?_, hsorted, ?_, ?_⟩
      · intro tail
        rw [hbytes, List.append_assoc]
        exact hadds tail before _ result (hnew e (by simp) f hf.found hf.number) (hread tail)
      · rw [List.forall_mem_cons]
        refine ⟨?_, hall⟩
        rw [hkept e.1 hfirst, hget, if_pos hf.number]
        exact hp
      · intro number hnot
        rw [List.map_cons, List.mem_cons, not_or] at hnot
        rw [hkept number hnot.2, hget, hf.number, if_neg fun heq => hnot.1 heq.symm]

end Schema

end Tagwire
