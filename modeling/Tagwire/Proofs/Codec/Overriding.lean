import Tagwire.Proofs.Codec.Decodable
import Tagwire.Proofs.Codec.Leniency
import Tagwire.Proofs.Mapping.Spellings

/-!
# Members on their own

What is decoded for a field depends on what the message has for it and on nothing else in the message.  So a
member of a record comes back from the bytes of the record as it comes back from the bytes of a record that
holds it alone, unless the record overrides it by another member for the same field.
-/

set_option autoImplicit false

namespace Tagwire

open Schema

namespace Schema

variable {schema : Schema} {type : MessageType} {values less : FieldValues} {record : Record}

/-- What is decoded for a field from the bytes of a message is what is kept of the message for it. -/
theorem IsTyped.get?_of_decodeRecord (hs : schema.IsTyped) (ht : type.IsOrdinary schema)
    (h : type.Holds schema values) (hlength : (schema.encode type values).length < 2 ^ 64)
    (hdecode : schema.decodeRecord type (schema.encode type values) = .ok record) {f : MessageField}
    (hf : f ∈ type.fields) : record.get? f.jsonName =
      (schema.memberToJson? schema.unpackAny? (schema.kept type values) f).bind fun shown =>
        shown.head?.map Prod.snd := by
  obtain ⟨read, hread, hrecord⟩ := decodeRecord_eq_ok_iff.mp hdecode
  rw [hs.types.decode?_encode_eq (hs.types _ type ht.message) h hlength] at hread
  obtain ⟨-, hkept⟩ := Option.ite_none_right_eq_some.mp hread
  obtain rfl := Option.some.inj hkept
  have hsorted : Assoc.IsSorted (schema.kept type values) := h.sorted.sublist (keys_kept_sublist type values)
  obtain ⟨members, hmembers, -, -, hshown⟩ := ht.exists_members hsorted
    (isSome_field?_of_mem_kept h.found) (fromMessage_eq_ok_iff.mp hrecord)
  cases hmembers
  rw [hshown f hf, Record.get?]
  cases Entries.get? record.members f.jsonName <;> rfl

/-- Some of the fields of a message that is decoded as a record are decoded as one too, which has the same
for them. -/
theorem IsTyped.exists_decodeRecord_of_subset (hs : schema.IsTyped) {names : String → Prop}
    (hp : schema.IsOrdinaryWithin names) (hn : names type.name) (ht : type.IsOrdinary schema)
    (h : type.Holds schema values) (hless : type.Holds schema less) (hsub : ∀ e ∈ less, e ∈ values)
    (hlength : (schema.encode type values).length < 2 ^ 64)
    (hdecode : schema.decodeRecord type (schema.encode type values) = .ok record) :
    ∃ own, schema.decodeRecord type (schema.encode type less) = .ok own ∧
      ∀ f ∈ type.fields, FieldValues.get? less f.number = FieldValues.get? values f.number →
        own.get? f.jsonName = record.get? f.jsonName := by
  have hshorter : (schema.encode type less).length < 2 ^ 64 :=
    (length_encode_le_of_subset (.of_map _ hless.sorted.nodup) hsub).trans_lt hlength
  have hlevels := ((hs.exists_decodeRecord_encode_iff ht.message h hlength).mp ⟨record, hdecode⟩).1
  obtain ⟨own, hown⟩ := (hs.exists_decodeRecord_encode_iff ht.message hless hshorter).mpr
    ⟨FieldValues.nesting_le_iff.mpr fun e he => FieldValues.nesting_le_iff.mp hlevels e (hsub e he),
      exists_fromMessage hp hn ht.message hless⟩
  refine ⟨own, hown, fun f hf hget => ?_⟩
  have hkept : FieldValues.get? (schema.kept type less) f.number =
      FieldValues.get? (schema.kept type values) f.number := by
    rw [get?_kept hless.sorted.nodup, get?_kept h.sorted.nodup, hget]
  rw [hs.get?_of_decodeRecord ht hless hshorter hown hf, hs.get?_of_decodeRecord ht h hlength hdecode hf,
    memberToJson?, memberToJson?, hkept]

end Schema

namespace Record

/-- The record of the type `name` with the one member `json` under `key`. -/
def single (name key : String) (json : Json) : Record := (ofType name).insert key json

/-- `single` is of the type that it is given, as long as its key is not `typeField`. -/
theorem typeName?_single {name key : String} (hname : name ≠ "") (hkey : key ≠ typeField) (json : Json) :
    (single name key json).typeName? = some name := by
  have hget : (single name key json).get? typeField = (ofType name).get? typeField := by
    rw [single, get?_insert, if_neg hkey]
  rw [← typeName?_withType {} hname, typeName?, hget]
  rfl

/-- `single` has no members but the given one and that of its type. -/
theorem mem_members_single {name key : String} {json : Json} {m : String × Json}
    (h : m ∈ (single name key json).members) : m = (key, json) ∨ m = (typeField, .str name) := by
  have hinsert : m ∈ Assoc.insert (ofType name).members key json := by
    rw [← Entries.insert_eq]
    exact h
  exact (Assoc.mem_of_mem_insert hinsert).imp id List.mem_singleton.mp

/-- The members of `single`, under any key. -/
theorem get?_single (name key : String) (json : Json) (other : String) :
    (single name key json).get? other =
      if key = other then some json else if typeField = other then some (.str name) else none := by
  rw [single, get?_insert, ofType, get?_withType]
  rfl

end Record

/-- In a compiled type only `typeTag` has `typeField` for its record key or its `protoName`. -/
theorem RegisteredType.IsLaidOut.eq_typeTag {type : RegisteredType} (h : type.IsLaidOut) {f : RegisteredField}
    (hf : f ∈ type.fields) (hkey : f.name = typeField ∨ f.protoName = typeField) : f = .typeTag :=
  Option.some.inj ((h.member?_eq_some_iff.mpr ⟨hf, hkey⟩).symm.trans h.member?_typeField)

/-- The one member of `single` is not overridden: the other one is that of the type, which addresses
`typeTag`. -/
theorem RegisteredType.IsLaidOut.not_isOverridden_single {type : RegisteredType} (h : type.IsLaidOut)
    {f : RegisteredField} (hf : f ∈ type.fields) {key : String} (hkey : f.name = key ∨ f.protoName = key)
    (hother : key ≠ typeField) {name : String} (json : Json) :
    ¬ (Record.single name key json).IsOverridden f key := by
  rintro ⟨hne, own, hown, -⟩
  rw [Record.get?_single, if_neg (Ne.symm hne)] at hown
  split at hown
  · rename_i htag
    obtain rfl := h.eq_typeTag hf (.inr htag.symm)
    exact hother (hkey.elim Eq.symm Eq.symm)
  · cases hown

/-- A member that `memberSetting?` accepts with strictness addresses a field, by its record key or its
`protoName`. -/
theorem RegisteredType.IsLoaded.exists_field_of_memberSetting? {type : RegisteredType} {schema : Schema}
    (ht : type.IsLoaded schema) {m : String × Json} {setting : Option (Nat × Value)}
    (h : schema.memberSetting? true type.linked m = some setting) :
    ∃ f ∈ type.fields, f.name = m.1 ∨ f.protoName = m.1 := by
  rw [memberSetting?, ht.member?_linked_eq] at h
  cases hmember : type.member? m.1 with
  | none =>
    rw [hmember] at h
    cases h
  | some f => exact ⟨f, ht.member?_eq_some_iff.mp hmember⟩

namespace CompiledSchema.IsLoaded

variable {compiled : CompiledSchema} {schema : Schema} {type : RegisteredType} {f : RegisteredField}
  {key name : String} {json : Json} {record : Record} {values less : FieldValues}

/-- Each member of a record whose members are read with `fieldsOfJson?` is read alone, next to the type. -/
theorem exists_fieldsOfJson?_single (type : RegisteredType) (hname : record.typeName? = some name)
    (h : schema.fieldsOfJson? true type.linked false [] record.members = some values)
    (hget : record.get? key = some json) : ∃ less,
      schema.fieldsOfJson? true type.linked false [] (Record.single name key json).members = some less := by
  have hreads := (exists_fieldsOfJson?_iff type.oneof_eq_none [] _).mp ⟨values, h⟩
  refine (exists_fieldsOfJson?_iff type.oneof_eq_none [] _).mpr fun m hm => ?_
  rcases Record.mem_members_single hm with rfl | rfl
  · exact hreads _ (Entries.mem_of_get?_eq_some hget)
  · exact hreads _ (Entries.mem_of_get?_eq_some (Record.get?_typeField hname))

/-- A member that is not overridden sets its field to the same value alone as in its record, and alone nothing
else is set that the record does not set. -/
theorem get?_of_fieldsOfJson?_single (hl : compiled.IsLoaded schema) (hc : compiled.registry.IsClosed)
    (htype : compiled.registry.get? name = some type) (hname : record.typeName? = some name)
    (h : schema.fieldsOfJson? true type.linked false [] record.members = some values)
    (hless : schema.fieldsOfJson? true type.linked false [] (Record.single name key json).members = some less)
    (hf : f ∈ type.fields) (hkey : f.name = key ∨ f.protoName = key) (hother : key ≠ typeField)
    (hget : record.get? key = some json)
    (hsets : json = .null → ∃ kind, Scalar.ofKeyword? f.typeName = some kind)
    (hnot : ¬ record.IsOverridden f key) :
    (∀ e ∈ less, e ∈ values) ∧ FieldValues.get? less f.number = FieldValues.get? values f.number := by
  obtain ⟨-, ht⟩ := hl.of_get? htype
  have htag : record.get? typeField = some (.str name) := Record.get?_typeField hname
  obtain ⟨value, hvalue, hfound⟩ := hl.exists_get?_of_not_isOverridden hc htype h hf hkey hget hsets hnot
  obtain ⟨tag, htag', hfoundTag⟩ := hl.exists_get?_of_not_isOverridden hc htype h ht.typeTag_mem
    (.inl rfl) htag nofun fun hover => hover.1 rfl
  refine ⟨fun e he => ?_, ?_⟩
  · obtain ⟨m, hm, hsetting⟩ := exists_member_of_fieldsOfJson? type.oneof_eq_none hless he
    rcases Record.mem_members_single hm with rfl | rfl
    · obtain rfl := Option.some.inj (Option.some.inj (hvalue.symm.trans hsetting))
      exact FieldValues.mem_of_get?_eq_some hfound
    · obtain rfl := Option.some.inj (Option.some.inj (htag'.symm.trans hsetting))
      exact FieldValues.mem_of_get?_eq_some hfoundTag
  · obtain ⟨own, hown, hfoundOwn⟩ := hl.exists_get?_of_not_isOverridden hc htype hless hf hkey
      ((Record.get?_single name key json key).trans (if_pos rfl)) hsets
      (ht.not_isOverridden_single hf hkey hother json)
    rw [hfound, hfoundOwn]
    exact congrArg some (Prod.mk.inj (Option.some.inj (Option.some.inj (hown.symm.trans hvalue)))).2

end CompiledSchema.IsLoaded

namespace Codec

variable {codec : Codec} {record result : Record} {name key : String} {json : Json} {bytes : Bytes}
  {definitions : List RecordDefinition} {compiled : CompiledSchema}

/-- The plain bytes that `encodeWith` gives a record of a loaded type are those of the message that
`fieldsOfJson?` reads from its members. -/
theorem exists_holds_of_encodeWith {schema : Schema} {type : RegisteredType} (hs : schema.IsTyped)
    (hstore : codec.store = ⟨some schema⟩) (ht : type.IsLoaded schema)
    (hname : record.typeName? = some type.name)
    (hencode : codec.encodeWith { verify := true, predictive := false } record = .ok bytes) :
    ∃ values, schema.fieldsOfJson? true type.linked false [] record.members = some values ∧
      type.linked.Holds schema values ∧ bytes = schema.encode type.linked values := by
  rw [encodeWith_eq hstore ht hname, if_neg Bool.false_ne_true, encodeRecord_eq_ok_iff] at hencode
  obtain ⟨values, hvalues, rfl⟩ := hencode
  have hm : schema.message? type.linked.name = some type.linked := ht.linked
  obtain ⟨_, ⟨⟩, hholds⟩ := exists_message_of_valueOfJson? hs hm (Schema.toMessage_eq_ok_iff.mp hvalues)
  exact ⟨values, ht.toMessage_eq_ok_iff.mp hvalues, hholds, rfl⟩

/-- `encodeWith` accepts each member of a record that it accepts also alone, next to the type. -/
theorem exists_encodeWith_single {schema : Schema} {type : RegisteredType} (hs : schema.IsTyped)
    (hstore : codec.store = ⟨some schema⟩) (ht : type.IsLoaded schema)
    (hname : record.typeName? = some type.name)
    (hencode : codec.encodeWith { verify := true, predictive := false } record = .ok bytes)
    (hother : key ≠ typeField) (hget : record.get? key = some json) :
    ∃ own, codec.encodeWith { verify := true, predictive := false } (.single type.name key json) = .ok own := by
  obtain ⟨values, hvalues, -⟩ := exists_holds_of_encodeWith hs hstore ht hname hencode
  obtain ⟨less, hless⟩ := CompiledSchema.IsLoaded.exists_fieldsOfJson?_single type hname hvalues hget
  have hsingle := Record.typeName?_single (Record.ne_empty_of_typeName? hname) hother json
  refine ⟨schema.encode type.linked less, ?_⟩
  rw [encodeWith_eq hstore ht hsingle, if_neg Bool.false_ne_true, encodeRecord_eq_ok_iff]
  exact ⟨less, ht.toMessage_eq_ok_iff.mpr hless, rfl⟩

/-- Where `decodeAs` reads a record from the bytes of another one, it reads one from the bytes of each of its
members alone, and a member that is not overridden has the same value in both. -/
theorem exists_decodeAs_single (h : compile definitions = .ok compiled)
    (hkinds : ∀ d ∈ definitions, ∀ f ∈ d.fields, f.2.kind.isBundled = false)
    (hload : SchemaStore.loadText {} compiled.document.text = .ok codec.store)
    (hname : record.typeName? = some name)
    (hencode : codec.encodeWith { verify := true, predictive := false } record = .ok bytes)
    (hlength : bytes.length < 2 ^ 64) (hdecode : codec.decodeAs bytes name = .ok result)
    {type : RegisteredType} (htype : compiled.registry.get? name = some type) {f : RegisteredField}
    (hf : f ∈ type.fields) (hkey : f.name = key ∨ f.protoName = key) (hother : key ≠ typeField)
    (hget : record.get? key = some json)
    (hsets : json = .null → ∃ kind, Scalar.ofKeyword? f.typeName = some kind)
    (hnot : ¬ record.IsOverridden f key) {own : Bytes}
    (hown : codec.encodeWith { verify := true, predictive := false } (.single name key json) = .ok own) :
    ∃ alone, codec.decodeAs own name = .ok alone ∧ result.get? f.name = alone.get? f.name := by
  obtain ⟨schema, hstore, hl⟩ := CompiledSchema.exists_isLoaded_of_loadText h hload
  have hs := (CompiledSchema.isPlain_of_loadText h (hstore ▸ hload)).toIsTyped
  have hsound := Compilation.isSound_of_compile h
  obtain ⟨rfl, ht⟩ := hl.of_get? htype
  obtain ⟨values, hvalues, hholds, rfl⟩ := exists_holds_of_encodeWith hs hstore ht hname hencode
  have hsingle := Record.typeName?_single (Record.ne_empty_of_typeName? hname) hother json
  obtain ⟨less, hless, hlessHolds, rfl⟩ := exists_holds_of_encodeWith hs hstore ht hsingle hown
  rw [decodeAs_eq hstore ht] at hdecode
  obtain ⟨shown, hshown, rfl⟩ := map_eq_ok_iff.mp hdecode
  obtain ⟨hsub, hsame⟩ := hl.get?_of_fieldsOfJson?_single (hsound.isClosed hkinds hl) htype hname hvalues hless
    hf hkey hother hget hsets hnot
  obtain ⟨alone, halone, hmember⟩ := hs.exists_decodeRecord_of_subset (hsound.isOrdinaryWithin hkinds hl)
    (Registry.mem_names_of_get? htype) ht.isOrdinary hholds hlessHolds hsub hlength hshown
  refine ⟨_, (decodeAs_eq hstore ht _).trans (map_eq_ok_iff.mpr ⟨alone, halone, rfl⟩), ?_⟩
  have hmine := hmember f.linked (List.mem_map_of_mem hf) hsame
  rw [ht.jsonName_linked hf] at hmine
  rw [Record.get?_withType, Record.get?_withType, hmine]

/-- For definitions without well-known kinds, `decodeAs` reads the bytes of a message exactly when it nests at
most `maxNesting` levels. -/
theorem exists_decodeAs_iff (h : compile definitions = .ok compiled)
    (hkinds : ∀ d ∈ definitions, ∀ f ∈ d.fields, f.2.kind.isBundled = false) {schema : Schema}
    (hs : schema.IsTyped) (hl : compiled.IsLoaded schema) (hstore : codec.store = ⟨some schema⟩)
    {type : RegisteredType} (htype : compiled.registry.get? type.name = some type) (ht : type.IsLoaded schema)
    {values : FieldValues} (hholds : type.linked.Holds schema values)
    (hlength : (schema.encode type.linked values).length < 2 ^ 64) :
    (∃ result, codec.decodeAs (schema.encode type.linked values) type.name = .ok result) ↔
      FieldValues.nesting values ≤ maxNesting := by
  obtain ⟨shown, hshown⟩ := exists_fromMessage ((Compilation.isSound_of_compile h).isOrdinaryWithin hkinds hl)
    (Registry.mem_names_of_get? htype) ht.linked hholds
  have hiff := hs.exists_decodeRecord_encode_iff ht.linked hholds hlength
  rw [and_iff_left ⟨shown, hshown⟩] at hiff
  rw [← hiff, decodeAs_eq hstore ht, exists_map_eq_ok_iff]

/-- A record that `encodeWith` verifies and encodes is decoded by `decodeAs` exactly when its message nests at most
`maxNesting` levels.  Each member of it that is not null addresses a field, and `encodeWith` accepts the member
alone, next to the type.  Where the record is decoded, `decodeAs` gives the field of the member the value that it
gives it for the member alone.  The exception is a member that the record overrides, by one for the same field
under its `protoName`, and then the field has the value that it has for that one alone.  The bytes are fewer than
`2 ^ 64`. -/
theorem decodeAs_encodeWith_member (h : compile definitions = .ok compiled)
    (hkinds : ∀ d ∈ definitions, ∀ f ∈ d.fields, f.2.kind.isBundled = false)
    (hload : SchemaStore.loadText {} compiled.document.text = .ok codec.store)
    (hname : record.typeName? = some name) (hlisted : name ∈ compiled.registry.names)
    (hencode : codec.encodeWith { verify := true, predictive := false } record = .ok bytes)
    (hlength : bytes.length < 2 ^ 64) :
    (∃ schema type values, codec.toMessage record true = .ok (schema, type, values) ∧
      ((∃ result, codec.decodeAs bytes name = .ok result) ↔ FieldValues.nesting values ≤ maxNesting)) ∧
    ∀ key json, record.get? key = some json → key ≠ typeField → json ≠ .null →
      ∃ type own, compiled.registry.get? name = some type ∧
        (∃ f ∈ type.fields, f.name = key ∨ f.protoName = key) ∧
        codec.encodeWith { verify := true, predictive := false } (.single name key json) = .ok own ∧
        ∀ f ∈ type.fields, f.name = key ∨ f.protoName = key → f.name ≠ typeField ∧
          ∀ result, codec.decodeAs bytes name = .ok result →
            (¬ record.IsOverridden f key → ∃ alone, codec.decodeAs own name = .ok alone ∧
              result.get? f.name = alone.get? f.name) ∧
            (record.IsOverridden f key → ∃ later other alone, record.get? f.protoName = some later ∧
              codec.encodeWith { verify := true, predictive := false } (.single name f.protoName later) =
                  .ok other ∧
                codec.decodeAs other name = .ok alone ∧ result.get? f.name = alone.get? f.name) := by
  obtain ⟨schema, hstore, hl⟩ := CompiledSchema.exists_isLoaded_of_loadText h hload
  have hs := (CompiledSchema.isPlain_of_loadText h (hstore ▸ hload)).toIsTyped
  obtain ⟨type, htype, rfl, ht⟩ := hl.types name hlisted
  obtain ⟨values, hvalues, hholds, hbytes⟩ := exists_holds_of_encodeWith hs hstore ht hname hencode
  refine ⟨⟨schema, type.linked, values, ?_, ?_⟩, fun key json hget hother hnull => ?_⟩
  · exact (toMessage_eq_ok_iff hstore ht hname).mpr ⟨values, ht.toMessage_eq_ok_iff.mpr hvalues, rfl⟩
  · subst hbytes
    exact exists_decodeAs_iff h hkinds hs hl hstore htype ht hholds hlength
  obtain ⟨own, hown⟩ := exists_encodeWith_single hs hstore ht hname hencode hother hget
  refine ⟨type, own, htype, ?_, hown, fun f hf hkey => ?_⟩
  · -- A member without a field would have been refused.
    obtain ⟨setting, hsetting⟩ := (exists_fieldsOfJson?_iff type.oneof_eq_none [] _).mp ⟨values, hvalues⟩ _
      (Entries.mem_of_get?_eq_some hget)
    exact ht.exists_field_of_memberSetting? hsetting
  have hfield : ¬ (f.name = typeField ∨ f.protoName = typeField) := by
    intro htag
    obtain rfl := ht.eq_typeTag hf htag
    exact hother (hkey.elim Eq.symm Eq.symm)
  refine ⟨fun htag => hfield (.inl htag), fun result hdecode => ⟨fun hnot => ?_, ?_⟩⟩
  · exact exists_decodeAs_single h hkinds hload hname hencode hlength hdecode htype hf hkey hother
      hget (fun hzero => absurd hzero hnull) hnot hown
  · rintro ⟨-, later, hlater, hsets⟩
    -- The member that overrides the other is not overridden itself, its key being the name of the field.
    have hlast : ¬ record.IsOverridden f f.protoName := fun hover => hover.1 rfl
    have hlaterOther : f.protoName ≠ typeField := fun htag => hfield (.inr htag)
    obtain ⟨other, hotherOwn⟩ := exists_encodeWith_single hs hstore ht hname hencode hlaterOther hlater
    obtain ⟨alone, halone, hsame⟩ := exists_decodeAs_single h hkinds hload hname hencode hlength hdecode htype
      hf (.inr rfl) hlaterOther hlater hsets hlast hotherOwn
    exact ⟨later, other, alone, hlater, hotherOwn, halone, hsame⟩

end Codec

/-! ## A palette with a color in both spellings -/

/-- The field `mainColor` of a palette, whose `protoName` is `main_color`. -/
def colorField : RegisteredField := ⟨"mainColor", "main_color", 2, "string", false⟩

/-- The definition of a palette with the one text `mainColor`. -/
def paletteDefinitions : List RecordDefinition := [textRecord "Palette" ["mainColor"]]

/-- A palette with `red` under `mainColor` and `blue` under `main_color`. -/
def twoColors : Record :=
  ⟨[("mainColor", .str "red"), ("main_color", .str "blue"), ("type", .str "PaletteMessage")], by decide⟩

/-- The message type of a palette. -/
def paletteType : MessageType :=
  ⟨"PaletteMessage", [RegisteredField.typeTag.linked,
    { name := "main_color", jsonName := "mainColor", number := 2, type := .scalar .string
      default := .string "" }]⟩

/-- The message of a palette: its type in field 1 and a color in field 2. -/
def paletteValues (color : String) : FieldValues := [(1, .string "PaletteMessage"), (2, .string color)]

/-- The fields of a palette link to `paletteType`. -/
theorem linked_palette {type : RegisteredType} (hname : type.name = "PaletteMessage")
    (hfields : type.fields = [.typeTag, colorField]) : type.linked = paletteType := by
  have hcolor := @RegisteredField.linked_eq colorField "mainColor" _ (by decide) (linkedType_keyword .string)
  rw [RegisteredType.linked, hname, hfields, List.map_cons, List.map_cons, List.map_nil, hcolor]
  rfl

/-- The message of a palette of either color has fewer than `2 ^ 64` bytes. -/
theorem Schema.length_encode_palette (schema : Schema) {color : String} (h : color = "red" ∨ color = "blue") :
    (schema.encode paletteType (paletteValues color)).length < 2 ^ 64 := by
  rcases h with rfl | rfl
  all_goals
    simp [encode, encodeField, MessageType.field?, paletteType, RegisteredField.linked_typeTag,
      MessageField.omits, Value.isDefault, MessageField.encodeScalar, ValueType.scalar?, paletteValues]
    decide +kernel

namespace Codec

/-- There is a codec for `paletteDefinitions`, and a record that `fieldsOfJson?` reads as a palette of one color
is encoded and decoded with this color. -/
theorem exists_paletteCodec : ∃ compiled, ∃ codec : Codec, ∃ type,
    compile paletteDefinitions = .ok compiled ∧
      SchemaStore.loadText {} compiled.document.text = .ok codec.store ∧
      compiled.registry.get? "PaletteMessage" = some type ∧ colorField ∈ type.fields ∧
      ∀ record color, color = "red" ∨ color = "blue" → record.typeName? = some "PaletteMessage" →
        (∀ schema : Schema, schema.fieldsOfJson? true paletteType false [] record.members =
          some (paletteValues color)) →
        ∃ bytes result, codec.encodeWith { verify := true, predictive := false } record = .ok bytes ∧
          bytes.length < 2 ^ 64 ∧ codec.decodeAs bytes "PaletteMessage" = .ok result ∧
          result.get? "mainColor" = some (.str color) := by
  have hcompiles : CompilesLinkable paletteDefinitions := by decide
  obtain ⟨compiled, codec, schema, h, hload, -, hstore, hl⟩ := hcompiles.exists_codec .builtIn
  have htype : ((compile paletteDefinitions).toOption.bind fun c =>
      (c.registry.get? "PaletteMessage").map RegisteredType.fields) = some [.typeTag, colorField] := by
    decide
  rw [h, Except.toOption, Option.bind_some, Option.map_eq_some_iff] at htype
  obtain ⟨type, hfound, hfields⟩ := htype
  obtain ⟨hname, ht⟩ := hl.of_get? hfound
  have hlinked := linked_palette hname hfields
  have hs := (CompiledSchema.isPlain_of_loadText h (hstore ▸ hload)).toIsTyped
  have hkinds : ∀ d ∈ paletteDefinitions, ∀ f ∈ d.fields, f.2.kind.isBundled = false := by decide
  have hmem : colorField ∈ type.fields := hfields ▸ List.mem_cons_of_mem _ (List.mem_singleton_self _)
  refine ⟨compiled, codec, type, h, hload, hfound, hmem, fun record color hcolor hrecord hread => ?_⟩
  have hvalues : schema.fieldsOfJson? true type.linked false [] record.members = some (paletteValues color) :=
    hlinked ▸ hread schema
  have hencode : codec.encodeWith { verify := true, predictive := false } record =
      .ok (schema.encode type.linked (paletteValues color)) := by
    rw [encodeWith_eq hstore ht (hname ▸ hrecord), if_neg Bool.false_ne_true, encodeRecord_eq_ok_iff]
    exact ⟨_, ht.toMessage_eq_ok_iff.mpr hvalues, rfl⟩
  obtain ⟨_, hsame, hholds, -⟩ := exists_holds_of_encodeWith hs hstore ht (hname ▸ hrecord) hencode
  obtain rfl := Option.some.inj (hvalues.symm.trans hsame)
  have hlength : (schema.encode type.linked (paletteValues color)).length < 2 ^ 64 := by
    rw [hlinked]
    exact schema.length_encode_palette hcolor
  have hlevels : FieldValues.nesting (paletteValues color) ≤ maxNesting := by
    rcases hcolor with rfl | rfl <;> decide
  obtain ⟨result, hdecode⟩ :=
    (exists_decodeAs_iff h hkinds hs hl hstore (hname.symm ▸ hfound) ht hholds hlength).mpr hlevels
  refine ⟨_, result, hencode, hlength, hname ▸ hdecode, ?_⟩
  rw [decodeAs_eq hstore ht] at hdecode
  obtain ⟨shown, hshown, rfl⟩ := map_eq_ok_iff.mp hdecode
  have hshows : schema.memberToJson? schema.unpackAny? (schema.kept paletteType (paletteValues color))
      colorField.linked = some [("mainColor", .str color)] := by
    rcases hcolor with rfl | rfl <;> rfl
  have hget := hs.get?_of_decodeRecord ht.isOrdinary hholds hlength hshown (List.mem_map_of_mem hmem)
  rw [ht.jsonName_linked hmem, hlinked, hshows] at hget
  exact (Record.get?_withType _ _ _).trans hget

/-- `fieldsOfJson?` reads `twoColors` as a palette of the color `blue`, whose key is the later one, and the
first member alone as one of the color `red`. -/
theorem fieldsOfJson?_twoColors (schema : Schema) :
    schema.fieldsOfJson? true paletteType false [] twoColors.members = some (paletteValues "blue") ∧
      schema.fieldsOfJson? true paletteType false []
        (Record.single "PaletteMessage" "mainColor" (.str "red")).members = some (paletteValues "red") := by
  constructor <;> rfl

/-- Of the two colors of `twoColors`, the one under `protoName`, in snake case, comes back from the bytes of the
palette as it does from its own. -/
theorem decodeAs_encodeWith_member_twoColors : ∃ compiled, ∃ codec : Codec, ∃ bytes result own alone,
    compile paletteDefinitions = .ok compiled ∧
      SchemaStore.loadText {} compiled.document.text = .ok codec.store ∧
      codec.encodeWith { verify := true, predictive := false } twoColors = .ok bytes ∧
      codec.decodeAs bytes "PaletteMessage" = .ok result ∧
      codec.encodeWith { verify := true, predictive := false }
        (.single "PaletteMessage" "main_color" (.str "blue")) = .ok own ∧
      codec.decodeAs own "PaletteMessage" = .ok alone ∧
      result.get? "mainColor" = alone.get? "mainColor" := by
  obtain ⟨compiled, codec, type, h, hload, hfound, hmem, hreads⟩ := exists_paletteCodec
  have hname : twoColors.typeName? = some "PaletteMessage" := by decide
  have hkinds : ∀ d ∈ paletteDefinitions, ∀ f ∈ d.fields, f.2.kind.isBundled = false := by decide
  obtain ⟨bytes, result, hencode, hlength, hdecode, -⟩ :=
    hreads twoColors "blue" (.inr rfl) hname fun schema => (fieldsOfJson?_twoColors schema).1
  obtain ⟨-, hmembers⟩ := decodeAs_encodeWith_member h hkinds hload hname (Registry.mem_names_of_get? hfound)
    hencode hlength
  have hnull : Json.str "blue" ≠ .null := nofun
  obtain ⟨same, own, hsame, -, hencodeOwn, hfields⟩ := hmembers "main_color" (.str "blue") rfl (by decide) hnull
  obtain rfl := Option.some.inj (hfound.symm.trans hsame)
  obtain ⟨-, hback⟩ := hfields colorField hmem (.inr rfl)
  obtain ⟨alone, hdecodeOwn, heq⟩ := (hback result hdecode).1 fun hover => hover.1 rfl
  exact ⟨compiled, codec, bytes, result, own, alone, h, hload, hencode, hdecode, hencodeOwn, hdecodeOwn, heq⟩

/-- `encodeWith` verifies `twoColors`, which has the color `red` under the record key of the field and another
color under its `protoName`; `decodeAs` of its bytes does not have `red`, though it has it from the bytes of the
first member alone. -/
theorem decodeAs_encodeWith_ne_twoColors : ∃ compiled, ∃ codec : Codec, ∃ type bytes result own alone,
    compile paletteDefinitions = .ok compiled ∧
      (∀ d ∈ paletteDefinitions, ∀ f ∈ d.fields, f.2.kind.isBundled = false) ∧
      SchemaStore.loadText {} compiled.document.text = .ok codec.store ∧
      compiled.registry.get? "PaletteMessage" = some type ∧ colorField ∈ type.fields ∧
      twoColors.typeName? = some "PaletteMessage" ∧ twoColors.get? colorField.name = some (.str "red") ∧
      codec.encodeWith { verify := true, predictive := false } twoColors = .ok bytes ∧
      codec.decodeAs bytes "PaletteMessage" = .ok result ∧
      codec.encodeWith { verify := true, predictive := false }
        (.single "PaletteMessage" colorField.name (.str "red")) = .ok own ∧
      codec.decodeAs own "PaletteMessage" = .ok alone ∧
      alone.get? colorField.name = some (.str "red") ∧ result.get? colorField.name = some (.str "blue") := by
  obtain ⟨compiled, codec, type, h, hload, hfound, hmem, hreads⟩ := exists_paletteCodec
  obtain ⟨bytes, result, hencode, -, hdecode, hresult⟩ :=
    hreads twoColors "blue" (.inr rfl) (by decide) fun schema => (fieldsOfJson?_twoColors schema).1
  obtain ⟨own, alone, hencodeOwn, -, hdecodeOwn, halone⟩ :=
    hreads (.single "PaletteMessage" "mainColor" (.str "red")) "red" (.inl rfl) (by decide)
      fun schema => (fieldsOfJson?_twoColors schema).2
  exact ⟨compiled, codec, type, bytes, result, own, alone, h, by decide, hload, hfound, hmem, by decide, rfl,
    hencode, hdecode, hencodeOwn, hdecodeOwn, halone, hresult⟩

end Codec

end Tagwire
