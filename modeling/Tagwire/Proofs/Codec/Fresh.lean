import Tagwire.Proofs.Codec.Passage
import Tagwire.Proofs.Codec.PlainBytes

/-!
# Fresh records and empty messages

The registry makes a fresh record from the names of the types of the fields, and a decoder fills in what is not in
the bytes from the types themselves.  For a scalar, a list and a message both have the same default, or none.  For
an enumeration the registry has none while the decoder lists the first value, since such a field has no presence;
so the two records of a type are the same exactly when none of its fields is a singular enumeration.
-/

set_option autoImplicit false

namespace Tagwire

open Schema

/-! ## Defaults -/

/-- `linkedType` takes a type name for that of an enumeration exactly when it is the full name of a well-known
one. -/
theorem linkedType_eq_enum_iff {typeName name : String} : linkedType typeName = .enum name ↔
    name = typeName ∧ ∃ kind : WellKnown, kind.isEnum = true ∧ kind.typeName = typeName := by
  constructor
  · intro h
    obtain rfl : typeName = name := by
      rw [← name_linkedType typeName, h]
      rfl
    refine ⟨rfl, ?_⟩
    unfold linkedType at h
    split at h
    · cases h
    · split at h
      · rename_i hany
        obtain ⟨kind, hkind, henum⟩ := (Option.any_eq_true _ _).mp hany
        exact ⟨kind, henum, by simpa using List.find?_some hkind⟩
      · cases h
  · rintro ⟨rfl, kind, henum, rfl⟩
    rw [linkedType_typeName, if_pos henum]

/-- A type name that `linkedType` takes for anything else is not the full name of a well-known enumeration. -/
theorem not_isEnum_of_linkedType {typeName : String} {type : ValueType} (h : linkedType typeName = type)
    (hne : ∀ name, type ≠ .enum name) :
    ¬ ∃ kind : WellKnown, kind.isEnum = true ∧ kind.typeName = typeName :=
  fun hkind => hne typeName (h.symm.trans (linkedType_eq_enum_iff.mpr ⟨rfl, hkind⟩))

namespace RegisteredField

/-- Is it a singular field of a well-known enumeration? -/
def IsEnum (field : RegisteredField) : Prop :=
  field.repeated = false ∧ ∃ kind : WellKnown, kind.isEnum = true ∧ kind.typeName = field.typeName

/-- What a decoded record has for the field while it is not set: nothing for a field with presence, and else its
default. -/
def unsetJson? (schema : Schema) (field : RegisteredField) : Option Json :=
  if field.linked.presence then none else some (schema.defaultToJson field.linked)

/-- A field has in a fresh record what it has in a decoded one while it is not set, unless it is a singular
enumeration, for which `defaultValue?` is `none`. -/
theorem defaultValue?_eq_iff (schema : Schema) (field : RegisteredField) :
    field.defaultValue? = field.unsetJson? schema ↔ ¬ field.IsEnum := by
  unfold unsetJson? defaultValue? IsEnum defaultToJson
  rw [presence_linked, shape_linked, default_linked, type_linked, isMessage]
  cases hr : field.repeated with
  | true => exact iff_of_true rfl fun h => Bool.noConfusion h.1
  | false =>
    rw [Bool.not_false, Bool.true_and, if_neg Bool.false_ne_true, if_neg Bool.false_ne_true,
      if_neg Bool.false_ne_true]
    cases hlinked : linkedType field.typeName with
    | scalar kind =>
      have hkind : Scalar.ofKeyword? field.typeName = some kind := by
        have hname := name_linkedType field.typeName
        rw [hlinked] at hname
        exact hname ▸ ofKeyword?_keyword kind
      refine iff_of_true ?_ fun h => not_isEnum_of_linkedType hlinked (by intro name heq; cases heq) h.2
      rw [hkind]
      cases kind <;> rfl
    | enum name =>
      obtain ⟨rfl, henum⟩ := linkedType_eq_enum_iff.mp hlinked
      have hkeyword : Scalar.ofKeyword? field.typeName = none := by
        obtain ⟨kind, -, hname⟩ := henum
        obtain ⟨short, hshort⟩ := Bundled.exists_fullName_typeName kind
        exact hname ▸ hshort ▸ ofKeyword?_fullName short
      refine iff_of_false ?_ (not_not.mpr ⟨rfl, henum⟩)
      rw [hkeyword]
      intro heq
      cases heq
    | message name =>
      have hkeyword : Scalar.ofKeyword? field.typeName = none := by
        cases hkind : Scalar.ofKeyword? field.typeName with
        | none => rfl
        | some kind =>
          rw [linkedType, hkind] at hlinked
          cases hlinked
      refine iff_of_true ?_ fun h => not_isEnum_of_linkedType hlinked (by intro name heq; cases heq) h.2
      rw [hkeyword]
      rfl

/-- The field of the type is no enumeration. -/
theorem not_isEnum_typeTag : ¬ typeTag.IsEnum := by
  rintro ⟨-, kind, -, hname⟩
  obtain ⟨short, hshort⟩ := Bundled.exists_fullName_typeName kind
  have hkeyword := ofKeyword?_fullName short
  rw [← hshort, hname] at hkeyword
  exact absurd hkeyword (by decide)

end RegisteredField

/-! ## Fresh records -/

namespace RegisteredType

/-- Where no two fields share a record key, `defaults` has under each the default of its field. -/
theorem get?_defaults {fields : List RegisteredField} (hn : (fields.map RegisteredField.name).Nodup)
    {f : RegisteredField} (hf : f ∈ fields) : (defaults fields).get? f.name = f.defaultValue? := by
  -- What earlier fields have set is kept, as none of them has the key of a later one.
  have hfold : ∀ (fields : List RegisteredField) (record : Record),
      (fields.map RegisteredField.name).Nodup → ∀ key,
      (fields.foldl setDefault record).get? key =
        ((fields.find? fun f => f.name == key).bind RegisteredField.defaultValue?).or (record.get? key) := by
    intro fields
    induction fields with
    | nil => exact fun record _ key => rfl
    | cons f rest ih =>
      intro record hn key
      rw [List.map_cons, List.nodup_cons] at hn
      have hset : (setDefault record f).get? key =
          if f.name = key then f.defaultValue?.or (record.get? key) else record.get? key := by
        unfold setDefault
        cases f.defaultValue? with
        | none => exact (ite_self _).symm
        | some value => exact Record.get?_insert record f.name key value
      rw [List.foldl_cons, ih _ hn.2 key, hset]
      by_cases hkey : f.name = key
      · have hrest : rest.find? (fun g => g.name == key) = none := by
          refine List.find?_eq_none.mpr fun g hg heq => hn.1 ?_
          rw [hkey, ← eq_of_beq heq]
          exact List.mem_map_of_mem hg
        rw [hrest, if_pos hkey, List.find?_cons_of_pos (by simpa using hkey), Option.bind_none,
          Option.none_or, Option.bind_some]
      · rw [if_neg hkey, List.find?_cons_of_neg (by simpa using hkey)]
  rw [defaults_eq, hfold fields {} hn,
    find?_eq_some_of_nodup (g := RegisteredField.name) hn hf]
  exact Option.or_none

/-- `instantiate` of a compiled type has under each record key the default of its field, and under `typeField`
the name of the type. -/
theorem IsLaidOut.get?_instantiate {type : RegisteredType} (h : type.IsLaidOut) {f : RegisteredField}
    (hf : f ∈ type.fields) : type.instantiate.get? f.name =
      if f.name = typeField then some (.str type.name) else f.defaultValue? := by
  rw [instantiate, h.constructed, Option.getD_none, Record.get?_withType, get?_defaults h.names_nodup hf]
  exact if_congr eq_comm rfl rfl

end RegisteredType

/-! ## Empty messages -/

namespace RegisteredType.IsLoaded

variable {schema : Schema} {type : RegisteredType}

/-- `fromMessage` of a message with nothing but its type gives a record with `unsetJson?` under the record key
of every other field, and with no further member. -/
theorem exists_fromMessage_typed (ht : type.IsLoaded schema) (text : String) :
    ∃ record : Record, schema.fromMessage type.linked (FieldValues.typed text []) = .ok record ∧
      (∀ key, (∀ f ∈ type.fields, f.name ≠ key) → record.get? key = none) ∧
      ∀ f ∈ type.fields, f.name ≠ typeField → record.get? f.name = f.unsetJson? schema := by
  have htag : type.linked.field? 1 = some RegisteredField.typeTag.linked := ht.field?_linked ht.typeTag_mem
  have hsorted : Assoc.IsSorted (FieldValues.typed text []) := List.pairwise_singleton _ _
  have hfound : ∀ e ∈ FieldValues.typed text [], (type.linked.field? e.1).isSome = true := by
    rintro e he
    rw [List.mem_singleton.mp he, htag]
    rfl
  obtain ⟨json, hjson⟩ : ∃ json, schema.valueToJson? schema.unpackAny? (.message type.linked.name)
      (.message (FieldValues.typed text [])) = some json := by
    rw [ht.isOrdinary.valueToJson?_message, FieldValues.typed, fieldsToJson?, htag]
    exact ⟨_, rfl⟩
  obtain ⟨members, rfl, hmembers, hdeclared, hshown⟩ := ht.isOrdinary.exists_members hsorted hfound hjson
  refine ⟨⟨members, hmembers⟩, ?_, fun key hkey => ?_, fun f hf hname => ?_⟩
  · exact fromMessage_eq_ok_iff.mpr hjson
  · rw [Option.eq_none_iff_forall_ne_some]
    intro json hget
    obtain ⟨g, hg, hname⟩ := hdeclared _ (Entries.mem_of_get?_eq_some hget)
    obtain ⟨f, hf, rfl⟩ := List.mem_map.mp hg
    exact hkey f hf ((ht.jsonName_linked hf).symm.trans hname)
  · have hnumber : f.number ≠ 1 := by
      intro hnumber
      exact hname (congrArg RegisteredField.name (ht.eq_of_number_eq hf ht.typeTag_mem hnumber))
    have hmember := hshown f.linked (List.mem_map_of_mem hf)
    have hget : FieldValues.get? (FieldValues.typed text []) f.linked.number = none := by
      rw [FieldValues.get?_typed (show f.linked.number ≠ 1 from hnumber)]
      rfl
    rw [memberToJson?, hget, ht.jsonName_linked hf, Option.some.injEq] at hmember
    have hown : (if f.linked.presence then [] else [(f.name, schema.defaultToJson f.linked)]) =
        (f.unsetJson? schema).toList.map fun json => (f.name, json) := by
      unfold RegisteredField.unsetJson?
      split <;> rfl
    rw [hown] at hmember
    show Entries.get? members f.name = _
    cases hshow : Entries.get? members f.name <;> cases hunset : f.unsetJson? schema <;>
      rw [hshow, hunset] at hmember
    · cases hmember
    · cases hmember
    · rw [(Prod.mk.inj (List.cons.inj hmember).1).2]

end RegisteredType.IsLoaded

namespace RegisteredType.IsLoaded

/-- The name of a loaded type has at most `maxMessageNameBytes` bytes. -/
theorem utf8ByteSize_name_le {schema : Schema} {type : RegisteredType} (ht : type.IsLoaded schema) :
    type.name.utf8ByteSize ≤ maxMessageNameBytes := by
  have hwellFormed := ht.wellFormed
  simp only [isMessageName, Bool.and_eq_true, decide_eq_true_eq] at hwellFormed
  exact hwellFormed.1.1

/-- The name of a loaded type is not empty. -/
theorem name_ne_empty {schema : Schema} {type : RegisteredType} (ht : type.IsLoaded schema) :
    type.name ≠ "" := by
  intro hempty
  have hid := ht.isIdentifier_name
  rw [hempty] at hid
  exact absurd hid (by decide)

end RegisteredType.IsLoaded

namespace Codec

variable {codec : Codec} {schema : Schema} {type : RegisteredType}

/-- `encodeWith` gives bytes for a record with nothing but its type, and `decodeAs` reads from them a record
with `unsetJson?` under the record key of every other field. -/
theorem exists_decodeAs_ofType (hs : schema.IsPlain) (hstore : codec.store = ⟨some schema⟩)
    (ht : type.IsLoaded schema) (verify : Bool) : ∃ bytes record,
      codec.encodeWith { verify, predictive := false } (.ofType type.name) = .ok bytes ∧
        codec.decodeAs bytes type.name = .ok record ∧
        (∀ key, (∀ f ∈ type.fields, f.name ≠ key) → record.get? key = none) ∧
        ∀ f ∈ type.fields, record.get? f.name =
          if f.name = typeField then some (.str type.name) else f.unsetJson? schema := by
  obtain ⟨record, hrecord, hundeclared, hshown⟩ := ht.exists_fromMessage_typed type.name
  have hname : (Record.ofType type.name).typeName? = some type.name :=
    Record.typeName?_withType {} ht.name_ne_empty
  have hholds : type.linked.Holds schema (FieldValues.typed type.name []) :=
    MessageType.holds_singleton (ht.field?_linked ht.typeTag_mem)
      (RegisteredField.linked_typeTag ▸ .scalar rfl ⟨_, rfl⟩)
  have hlength : (schema.encode type.linked (FieldValues.typed type.name [])).length < 2 ^ 64 := by
    have hsize := ht.utf8ByteSize_name_le
    have hmax : maxMessageNameBytes = 32 := rfl
    rw [ht.encode_typed_short ht.name_ne_empty (by omega), List.length_cons, List.length_cons,
      List.length_append, Bytes.length_ofString]
    have hnil : schema.encode type.linked [] = [] := rfl
    rw [hnil, List.length_nil]
    omega
  have hdecode := hs.fromMessage_eq_decodeRecord ht.linked hholds (Nat.zero_le _) rfl hlength
  refine ⟨schema.encode type.linked (FieldValues.typed type.name []), record.withType type.name, ?_, ?_,
    fun key hkey => ?_, fun f hf => ?_⟩
  · rw [encodeWith_eq hstore ht hname, if_neg Bool.false_ne_true]
    exact encodeRecord_eq_ok_iff.mpr ⟨_, ht.toMessage_ofType verify _, rfl⟩
  · rw [decodeAs_eq hstore ht, ← hdecode, hrecord]
    rfl
  · rw [Record.get?_withType, if_neg (show typeField ≠ key from hkey _ ht.typeTag_mem)]
    exact hundeclared key hkey
  · rw [Record.get?_withType]
    by_cases hkey : f.name = typeField
    · rw [if_pos hkey, if_pos hkey.symm]
    · rw [if_neg hkey, if_neg (Ne.symm hkey), hshown f hf hkey]

/-- For every type of a compiled registry, `encodeWith` gives bytes for the record of the type alone, and
`decodeAs` reads from them a record that agrees with `instantiate` under every key but those of singular
enumeration fields, under which it alone has a member.  So the two records are equal exactly if the type has no
such field. -/
theorem instantiate_eq_decodeAs_iff {definitions : List RecordDefinition} {compiled : CompiledSchema}
    (h : compile definitions = .ok compiled)
    (hload : SchemaStore.loadText {} compiled.document.text = .ok codec.store) {name : String}
    (hfound : compiled.registry.get? name = some type) (verify : Bool) : ∃ bytes record,
      codec.encodeWith { verify, predictive := false } (.ofType name) = .ok bytes ∧
        codec.decodeAs bytes name = .ok record ∧
        (∀ key, type.instantiate.get? key = record.get? key ↔
          ∀ f ∈ type.fields, f.name = key → ¬ f.IsEnum) ∧
        (type.instantiate = record ↔ ∀ f ∈ type.fields, ¬ f.IsEnum) := by
  obtain ⟨schema, hstore, hl⟩ := CompiledSchema.exists_isLoaded_of_loadText h hload
  obtain ⟨rfl, ht⟩ := hl.of_get? hfound
  obtain ⟨bytes, record, hencode, hdecode, hundeclared, hshown⟩ :=
    exists_decodeAs_ofType (CompiledSchema.isPlain_of_loadText h (hstore ▸ hload)) hstore ht verify
  have hkeys : ∀ key, type.instantiate.get? key = record.get? key ↔
      ∀ f ∈ type.fields, f.name = key → ¬ f.IsEnum := by
    intro key
    by_cases hdeclared : ∃ f ∈ type.fields, f.name = key
    · obtain ⟨f, hf, rfl⟩ := hdeclared
      have hsingle : (∀ g ∈ type.fields, g.name = f.name → ¬ g.IsEnum) ↔ ¬ f.IsEnum :=
        ⟨fun hall => hall f hf rfl, fun hone g hg hname => ht.eq_of_name_eq hg hf hname ▸ hone⟩
      rw [hsingle, ht.get?_instantiate hf, hshown f hf]
      by_cases hkey : f.name = typeField
      · rw [ht.eq_of_name_eq hf ht.typeTag_mem hkey]
        exact iff_of_true rfl RegisteredField.not_isEnum_typeTag
      · rw [if_neg hkey, if_neg hkey]
        exact f.defaultValue?_eq_iff schema
    · have hundeclared' : ∀ f ∈ type.fields, f.name ≠ key := fun f hf hname => hdeclared ⟨f, hf, hname⟩
      refine iff_of_true ?_ fun f hf hname => absurd hname (hundeclared' f hf)
      rw [hundeclared key hundeclared', RegisteredType.get?_instantiate_eq_none_iff ht.constructed
        (hundeclared' _ ht.typeTag_mem).symm]
      exact fun f hf hname => absurd hname (hundeclared' f hf)
  refine ⟨bytes, record, hencode, hdecode, hkeys, fun heq f hf => ?_, fun hall => ?_⟩
  · exact (hkeys f.name).mp (by rw [heq]) f hf rfl
  · exact Record.ext_get? fun key => (hkeys key).mpr fun f hf _ => hall f hf

end Codec

/-- The definition of a message `X` with a `Timestamp`, a list of `Syntax` values and an `int64`. -/
def stampDefinitions : List RecordDefinition :=
  [{ id := "X", fields :=
      [("seen", { kind := .wellKnown .timestamp }),
       ("known", { kind := .wellKnown .syntaxVersion, repeated := true }),
       ("size", { kind := .scalar .int64 })] }]

/-- The definition of a message `X` with a singular `Syntax` field. -/
def syntaxDefinitions : List RecordDefinition :=
  [{ id := "X", fields := [("syn", { kind := .wellKnown .syntaxVersion })] }]

/-- The registered field `syn` of that message, with number 2. -/
def syntaxField : RegisteredField := ⟨"syn", "syn", 2, WellKnown.syntaxVersion.typeName, false⟩

namespace Codec

/-- The message of `stampDefinitions`, with a moment and a list of `Syntax` values, is decoded as its fresh
record. -/
theorem instantiate_eq_decodeAs_stampDefinitions : ∃ compiled, ∃ codec : Codec, ∃ type bytes,
    compile stampDefinitions = .ok compiled ∧
      SchemaStore.loadText {} compiled.document.text = .ok codec.store ∧
      compiled.registry.get? "XMessage" = some type ∧
      codec.encodeWith { verify := true, predictive := false } (.ofType "XMessage") = .ok bytes ∧
      codec.decodeAs bytes "XMessage" = .ok type.instantiate := by
  have hcompiles : CompilesLinkable stampDefinitions := by decide +kernel
  obtain ⟨compiled, codec, schema, h, hload, -, -, -⟩ := hcompiles.exists_codec .builtIn
  have htype : ((compile stampDefinitions).toOption.bind fun c => c.registry.get? "XMessage").any
      (fun type => type.fields.all fun f => f.repeated || !WellKnown.all.any fun kind =>
        kind.isEnum && kind.typeName == f.typeName) = true := by
    decide +kernel
  rw [h, Except.toOption, Option.bind_some, Option.any_eq_true] at htype
  obtain ⟨type, hfound, hfields⟩ := htype
  obtain ⟨bytes, record, hencode, hdecode, -, hiff⟩ := instantiate_eq_decodeAs_iff h hload hfound true
  have hnone : ∀ f ∈ type.fields, ¬ f.IsEnum := by
    rintro f hf ⟨hsingular, kind, henum, hname⟩
    have hall := List.all_eq_true.mp hfields f hf
    rw [hsingular, Bool.false_or, Bool.not_eq_true', List.any_eq_false] at hall
    refine hall kind (by cases kind <;> decide) ?_
    rw [henum, hname, Bool.true_and, beq_self_eq_true]
  exact ⟨compiled, codec, type, bytes, h, hload, hfound, hencode, hiff.mpr hnone ▸ hdecode⟩

/-- The message of `syntaxDefinitions` is decoded with `SYNTAX_PROTO2` in its singular `Syntax` field, which
`instantiate` leaves out. -/
theorem instantiate_ne_decodeAs_syntaxDefinitions : ∃ compiled, ∃ codec : Codec, ∃ type bytes record,
    compile syntaxDefinitions = .ok compiled ∧
      SchemaStore.loadText {} compiled.document.text = .ok codec.store ∧
      compiled.registry.get? "XMessage" = some type ∧
      codec.encodeWith { verify := true, predictive := false } (.ofType "XMessage") = .ok bytes ∧
      codec.decodeAs bytes "XMessage" = .ok record ∧
      type.instantiate.get? "syn" = none ∧ (record.get? "syn").isSome = true := by
  have hcompiles : CompilesLinkable syntaxDefinitions := by decide +kernel
  obtain ⟨compiled, codec, schema, h, hload, -, hstore, hl⟩ := hcompiles.exists_codec .builtIn
  have htype : ((compile syntaxDefinitions).toOption.bind fun c =>
      (c.registry.get? "XMessage").map RegisteredType.fields) = some
        [.typeTag, syntaxField] := by
    decide +kernel
  rw [h, Except.toOption, Option.bind_some, Option.map_eq_some_iff] at htype
  obtain ⟨type, hfound, hfields⟩ := htype
  obtain ⟨hname, ht⟩ := hl.of_get? hfound
  obtain ⟨bytes, record, hencode, hdecode, -, hshown⟩ :=
    exists_decodeAs_ofType (CompiledSchema.isPlain_of_loadText h (hstore ▸ hload)) hstore ht true
  rw [hname] at hencode hdecode
  have hmem : syntaxField ∈ type.fields :=
    hfields ▸ List.mem_cons_of_mem _ (List.mem_singleton_self _)
  refine ⟨compiled, codec, type, bytes, record, h, hload, hfound, hencode, hdecode, ?_, ?_⟩
  · exact (ht.get?_instantiate hmem).trans ((if_neg (by decide)).trans (by decide))
  · rw [show record.get? "syn" = _ from hshown _ hmem, if_neg (by decide), RegisteredField.unsetJson?,
      if_neg (by decide)]
    rfl

end Codec

end Tagwire
