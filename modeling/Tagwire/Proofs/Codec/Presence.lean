import Tagwire.Proofs.Codec.Predictive

/-!
# Envelopes read through the registry of the schema

The registry of a schema lists every type with its fields, but not which of these may be absent.  A fresh
record made from it has a member for every field of a scalar type, while what has been decoded has none for
a field that may be absent and is.  So an envelope decodes through this registry just as it does as bytes of
the type in its tag as long as no field that may be absent has a default, and as long as the name in the tag
is not absolute, since only the schema finds a type by such a name.
-/

set_option autoImplicit false

namespace Tagwire

namespace MessageType

/-- No field with presence, but for the one of the type, has a default in a fresh record (`defaultValue?`). -/
def LeavesAbsent (type : MessageType) : Prop :=
  ∀ f ∈ type.fields, f.presence = true → f.jsonName ≠ typeField →
    (registeredField f).defaultValue? = none

/-- Whether absent fields are left out of a fresh record is seen from the fields. -/
instance (type : MessageType) : Decidable type.LeavesAbsent :=
  inferInstanceAs (Decidable (∀ f ∈ type.fields, _ → _ → _))

/-- Field 1 of the type is a single string with the name and the record key `type`. -/
def HasPlainTag (type : MessageType) : Prop :=
  ∃ f ∈ type.field? 1, f.name = typeField ∧ f.jsonName = typeField ∧ f.type = .scalar .string ∧
    f.shape = .single

/-- Whether a type has a plain tag is seen from its first field. -/
instance (type : MessageType) : Decidable type.HasPlainTag :=
  inferInstanceAs (Decidable (∃ f ∈ type.field? 1, _ ∧ _ ∧ _ ∧ _))

/-- Under a key other than `typeField`, `instantiate` of a type as registries list it has no member exactly if
no field with this record key has a default. -/
theorem get?_instantiate_registered_eq_none_iff (type : MessageType) (name : String) {key : String}
    (hkey : key ≠ typeField) : (type.registered name).instantiate.get? key = none ↔
      ∀ f ∈ type.fields, f.jsonName = key → (registeredField f).defaultValue? = none := by
  refine (RegisteredType.get?_instantiate_eq_none_iff rfl hkey).trans ?_
  show (∀ r ∈ type.registeredFields, _) ↔ _
  unfold registeredFields
  simp only [List.mem_mergeSort, List.forall_mem_map]
  rfl

end MessageType

namespace Schema.IsLinked

variable {schema : Schema} {type : MessageType}

/-- A listed type has no JSON form of its own, since it is not well known. -/
theorem isOrdinary (h : schema.IsLinked) (htype : schema.message? type.name = some type)
    (hlisted : type.name ∈ schema.messageNames) : type.IsOrdinary schema := by
  refine ⟨(h.of_message? htype).2.2, htype, ?_⟩
  rw [SpecialForm.ofTypeName?, Option.bind_eq_none_iff]
  intro kind hkind
  have hname : kind.typeName = type.name := by simpa using List.find?_some hkind
  have hhidden := (h.mem_messageNames_iff.mp hlisted).2
  obtain ⟨short, hshort⟩ := Bundled.exists_fullName_typeName kind
  rw [← hname, hshort, SchemaDocument.isWellKnownName_fullName] at hhidden
  cases hhidden

end Schema.IsLinked

namespace Codec

open Schema

variable {codec : Codec} {schema : Schema} {type : MessageType} {name tag : String} {bytes : Bytes}

/-- `peekType` reads names of at most `maxTagNameBytes` bytes only. -/
theorem utf8ByteSize_of_peekType (h : codec.peekType bytes = .ok name) :
    name.utf8ByteSize ≤ maxTagNameBytes := by
  unfold peekType at h
  rw [mapError_eq_ok_iff] at h
  unfold Envelope.peek at h
  obtain ⟨digits, -, h⟩ := bind_eq_ok_iff.mp h
  exact TagCipher.utf8ByteSize_of_decrypt (mapError_eq_ok_iff.mp h)

/-- What `SchemaStore.find` gives over a filled store, `Schema.find?` gives over its schema. -/
theorem find?_of_find {found : Schema} (hstore : codec.store = ⟨some schema⟩)
    (h : codec.store.find name = .ok (found, type)) : found = schema ∧ schema.find? name = some type := by
  rw [hstore] at h
  exact SchemaStore.find_eq_ok_iff.mp h

/-- For a registered type that leaves absent fields absent, `decodePredictive` gives an envelope what `decodeAs`
gives it. -/
theorem decodePredictive_of_leavesAbsent {registry : Registry} (hschema : codec.store.schema = .ok schema)
    (hfind : codec.store.find name = .ok (schema, type)) (ht : type.IsOrdinary schema)
    (hregistered : registry.get? name = some (type.registered name)) (habsent : type.LeavesAbsent)
    (hpeek : codec.peekType bytes = .ok name) :
    codec.decodePredictive bytes registry = codec.decodeAs bytes name := by
  rw [decodePredictive_eq hschema hpeek hregistered, decodeAs, hfind]
  show (schema.decodeRecord type bytes).map _ = (schema.decodeRecord type bytes).bind _
  cases hdecode : schema.decodeRecord type bytes with
  | error e => rfl
  | ok decoded =>
    -- What the fresh record has, the decoded one has too: a field that may be absent is in neither.
    refine congrArg Except.ok (Record.withType_extend_erase ?_ name)
    intro key hkey hnone
    rw [MessageType.get?_instantiate_registered_eq_none_iff type name hkey]
    intro f hf hname
    cases hpresence : f.presence with
    | true => exact habsent f hf hpresence (hname ▸ hkey)
    | false => exact absurd (hname ▸ hnone) (Schema.get?_ne_none_of_decodeRecord ht hdecode hf hpresence)

/-- `decodeAs` reads a bare envelope, as a record without a member for any field with presence. -/
theorem exists_decodeAs_bare (hfind : codec.store.find name = .ok (schema, type))
    (ht : type.IsOrdinary schema) (hplain : type.HasPlainTag) (htag : codec.cipher.encrypt name = .ok tag) :
    ∃ record, codec.decodeAs (Envelope.bare tag) name = .ok record ∧
      ∀ g ∈ type.fields, g.presence = true → g.jsonName ≠ typeField → record.get? g.jsonName = none := by
  obtain ⟨f, hf, -, hkey, hscalar, hshape⟩ := hplain
  have hread := decodeRecord_bare ht hf hshape hscalar htag
  refine ⟨_, decodeAs_eq_ok_iff.mpr ⟨_, _, hfind, hread, rfl⟩, ?_⟩
  intro g hg hpresence hother
  rw [Record.get?_withType, if_neg (Ne.symm hother), Record.get?_ofList (Entries.isSorted_ofList _),
    Entries.get?_eq, Assoc.get?_eq_none_iff,
    Entries.ofList, Entries.insertAll_eq, Assoc.mem_keys_insertAll, List.map_append, List.mem_append]
  rintro ((hunset | htype) | hnothing)
  · -- Only fields without presence are listed without being set, and no other has this record key.
    obtain ⟨e, he, hname⟩ := List.mem_map.mp hunset
    obtain ⟨other, hmem, rfl⟩ := List.mem_map.mp he
    obtain ⟨hmem, habsent⟩ := List.mem_filter.mp hmem
    obtain rfl : other = g := List.inj_on_of_nodup_map ht.keys hmem hg hname
    rw [hpresence] at habsent
    cases habsent
  · exact hother ((List.mem_singleton.mp htype).trans hkey)
  · cases hnothing

/-- If `decodePredictive` and `decodeAs` agree on the bare envelope of a name, then the name is not absolute and
its type leaves absent fields absent. -/
theorem leavesAbsent_of_bare (hfind : codec.store.find name = .ok (schema, type))
    (hlinked : schema.IsLinked) (hlisted : type.name ∈ schema.messageNames)
    (hfound : schema.find? name = some type) (hplain : type.HasPlainTag)
    (htag : codec.cipher.encrypt name = .ok tag)
    (hagree : (codec.decodePredictive (Envelope.bare tag) schema.registry).toOption =
      (codec.decodeAs (Envelope.bare tag) name).toOption) : ¬ IsAbsolute name ∧ type.LeavesAbsent := by
  have ht := hlinked.isOrdinary (hlinked.of_find? hfound).1 hlisted
  obtain ⟨record, hrecord, hnone⟩ := exists_decodeAs_bare hfind ht hplain htag
  rw [hrecord] at hagree
  obtain ⟨peeked, registered, decoded, hpeek, hregistered, hdecode, hmerged⟩ :=
    decodePredictive_eq_ok_iff.mp (toOption_eq_some_iff.mp hagree)
  obtain rfl : name = peeked := Except.ok.inj ((peekType_bare htag).symm.trans hpeek)
  obtain rfl : record = decoded := Except.ok.inj (hrecord.symm.trans hdecode)
  have hname : ¬ IsAbsolute name := by
    intro habsolute
    rw [hlinked.get?_registry_of_isAbsolute habsolute] at hregistered
    cases hregistered
  rw [hlinked.get?_registry hname hfound hlisted] at hregistered
  obtain rfl := Option.some.inj hregistered
  refine ⟨hname, fun g hg hpresence hother => ?_⟩
  -- The member is in neither record, and what is missing of both is missing of the fresh one.
  have hmember := Record.get?_withType_extend_erase (type.registered name).instantiate record
    (type.registered name).name g.jsonName
  rw [hmerged, hnone g hg hpresence hother, if_neg (Ne.symm hother), Option.none_or] at hmember
  exact (MessageType.get?_instantiate_registered_eq_none_iff type name hother).mp hmember.symm g hg rfl

/-- Through the registry that the store builds from its schema, `decodePredictive` gives every envelope of a
listed type with a plain tag the outcome of `decodeAs` if and only if the name in the tag has more than
`maxTagNameBytes` bytes, so that there is no envelope of it, or is not absolute and the type leaves absent
fields absent (`LeavesAbsent`). -/
theorem decodePredictive_registry_iff (hfilled : codec.store.IsFilled) {registry : Registry}
    (hregistry : codec.store.registry = .ok registry) {names : List String}
    (hnames : codec.store.messageNames = .ok names)
    (hfind : codec.store.find name = .ok (schema, type)) (hlisted : type.name ∈ names)
    (hplain : type.HasPlainTag) :
    (∀ bytes, codec.peekType bytes = .ok name →
        (codec.decodePredictive bytes registry).toOption = (codec.decodeAs bytes name).toOption) ↔
      maxTagNameBytes < name.utf8ByteSize ∨ ¬ IsAbsolute name ∧ type.LeavesAbsent := by
  obtain ⟨own, hstore, hlinked⟩ := hfilled.exists_isLinked
  obtain ⟨rfl, hfound⟩ := find?_of_find hstore hfind
  have hschema : codec.store.schema = .ok schema := hstore ▸ rfl
  obtain rfl : schema.registry = registry := by
    rw [hstore] at hregistry
    exact Except.ok.inj hregistry
  obtain rfl : schema.messageNames = names := by
    rw [hstore] at hnames
    exact Except.ok.inj hnames
  constructor
  · intro hagree
    by_cases hlong : maxTagNameBytes < name.utf8ByteSize
    · exact .inl hlong
    · -- A name that fits has an envelope with nothing but its tag, where every other field is absent.
      obtain ⟨tag, htag⟩ := codec.cipher.exists_encrypt name (not_lt.mp hlong)
      exact .inr (leavesAbsent_of_bare hfind hlinked hlisted hfound hplain htag
        (hagree (Envelope.bare tag) (peekType_bare htag)))
  · rintro (hlong | ⟨hname, habsent⟩) bytes hpeek
    · exact absurd (utf8ByteSize_of_peekType hpeek) (not_le.mpr hlong)
    · have ht := hlinked.isOrdinary (hlinked.of_find? hfound).1 hlisted
      have hregistered := hlinked.get?_registry hname hfound hlisted
      rw [decodePredictive_of_leavesAbsent hschema hfind ht hregistered habsent hpeek]

end Codec

/-! ## Types of compiled definitions -/

/-- A compiled type has a plain tag. -/
theorem RegisteredType.IsLoaded.hasPlainTag {type : RegisteredType} {schema : Schema}
    (ht : type.IsLoaded schema) : type.linked.HasPlainTag := by
  refine ⟨_, ht.declares_typeTag.found, ?_⟩
  rw [RegisteredField.linked_typeTag]
  exact ⟨rfl, rfl, rfl, rfl⟩

/-- A compiled type leaves absent fields absent: only records and well-known types have presence, and these have
no default. -/
theorem RegisteredType.IsLoaded.leavesAbsent {type : RegisteredType} {schema : Schema}
    (ht : type.IsLoaded schema) : type.linked.LeavesAbsent := by
  intro g hg hpresence _
  obtain ⟨f, hf, rfl⟩ := List.mem_map.mp hg
  rw [ht.registeredField_linked hf]
  by_contra hdefault
  rw [RegisteredField.presence_linked_eq_false hdefault] at hpresence
  cases hpresence

/-- `decodePredictive` through the registry of the store gives every envelope of `NodeMessage` the outcome of
`decodeAs`. -/
theorem Codec.decodePredictive_registry_nodeDefinitions : ∃ compiled codec schema type registry names,
    compile nodeDefinitions = .ok compiled ∧
      SchemaStore.loadText {} compiled.document.text = .ok (Codec.store codec) ∧
      codec.store.registry = .ok registry ∧ codec.store.messageNames = .ok names ∧
      codec.store.find "NodeMessage" = .ok (schema, type) ∧ MessageType.name type ∈ names ∧
      type.HasPlainTag ∧ ∀ bytes, codec.peekType bytes = .ok "NodeMessage" →
        (codec.decodePredictive bytes registry).toOption =
          (codec.decodeAs bytes "NodeMessage").toOption := by
  obtain ⟨compiled, codec, schema, node, h, hload, hstore, hl, hnode, hname, -, ht⟩ := exists_nodeCodec
  have hregistry : codec.store.registry = .ok schema.registry := hstore ▸ rfl
  have hnames : codec.store.messageNames = .ok schema.messageNames := hstore ▸ rfl
  have hfind : codec.store.find "NodeMessage" = .ok (schema, node.linked) := hname ▸ find_eq_ok hstore ht
  have hlisted : node.linked.name ∈ schema.messageNames := by
    rw [hl.listed]
    show node.name ∈ compiled.registry.names
    exact hname ▸ Registry.mem_names_of_get? hnode
  refine ⟨compiled, codec, schema, node.linked, _, _, h, hload, hregistry, hnames, hfind, hlisted,
    ht.hasPlainTag, ?_⟩
  exact (decodePredictive_registry_iff (.text hload) hregistry hnames hfind hlisted ht.hasPlainTag).mpr
    (.inr ⟨by decide, ht.leavesAbsent⟩)

/-! ## A field that may be absent -/

/-- A document whose one type `T` has an integer `x` declared `optional`. -/
def optionalText : String :=
  "syntax = \"proto3\"; message T \x7b string type = 1; optional int32 x = 2; \x7d"

/-- The document that `optionalText` writes. -/
def optionalFile : Schema.SchemaFile :=
  { path := Schema.inlineDocumentName
    declarations :=
      { messages :=
          [{ name := "T"
             fields :=
               [{ name := "type", number := 1, type := .scalar .string },
                { name := "x", number := 2, type := .scalar .int32, label := some .optional
                  oneof := some "_x" }]
             oneofs := [{ name := "_x" }] }] } }

namespace Schema

/-- `optionalText` is read as `optionalFile`. -/
theorem file_optionalText : SchemaFile.ofText? inlineDocumentName optionalText = some optionalFile :=
  SchemaFile.ofText?_of_message [] "T"
    [[.word "string", .word "type", .mark '=', .natural 1],
     [.word "optional", .word "int32", .word "x", .mark '=', .natural 2]]
    (by decide +kernel) rfl rfl rfl

/-- The schema of `optionalText` is linked from `optionalFile` alone. -/
theorem ofText?_optionalText : Schema.ofText? optionalText = ofFiles? [optionalFile] :=
  ofText?_eq_ofFiles? rfl file_optionalText

end Schema

/-- The type of `optionalText` has a number that may be absent.  For an envelope without it, `decodePredictive`
through the registry of the store gives a zero in its place, from the fresh record, and `decodeAs` gives
none. -/
theorem Codec.decodePredictive_registry_optionalText : ∃ codec schema type registry names bytes,
    SchemaStore.loadText {} optionalText = .ok (Codec.store codec) ∧
      codec.store.registry = .ok registry ∧ codec.store.messageNames = .ok names ∧
      codec.store.find "T" = .ok (schema, type) ∧ MessageType.name type ∈ names ∧ type.HasPlainTag ∧
      codec.peekType bytes = .ok "T" ∧
      (codec.decodePredictive bytes registry).toOption ≠ (codec.decodeAs bytes "T").toOption := by
  have hlinks : ((Schema.ofFiles? [optionalFile]).any fun schema => (schema.find? "T").any fun type =>
      decide (type.name ∈ schema.messageNames ∧ type.HasPlainTag ∧ ¬ type.LeavesAbsent)) = true := by
    decide +kernel
  obtain ⟨schema, hschema, hlinks⟩ := (Option.any_eq_true _ _).mp hlinks
  obtain ⟨type, hfound, hlinks⟩ := (Option.any_eq_true _ _).mp hlinks
  obtain ⟨hlisted, hplain, habsent⟩ := of_decide_eq_true hlinks
  let codec : Codec := ⟨⟨some schema⟩, .builtIn, true⟩
  have hload : SchemaStore.loadText {} optionalText = .ok codec.store :=
    SchemaStore.loadText_eq_ok_iff.mpr ⟨schema, Schema.ofText?_optionalText.trans hschema, rfl⟩
  have hfind : codec.store.find "T" = .ok (schema, type) := by
    unfold SchemaStore.find
    rw [bind_eq_ok_iff]
    exact ⟨schema, rfl, by rw [hfound]⟩
  have hlinked : schema.IsLinked := Schema.isLinked_of_ofText? (Schema.ofText?_optionalText.trans hschema)
  obtain ⟨tag, htag⟩ := codec.cipher.exists_encrypt "T" (by decide)
  refine ⟨codec, schema, type, _, _, Envelope.bare tag, hload, rfl, rfl, hfind, hlisted, hplain,
    peekType_bare htag, fun hagree => habsent ?_⟩
  exact (leavesAbsent_of_bare hfind hlinked hlisted hfound hplain htag hagree).2

end Tagwire
