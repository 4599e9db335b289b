import Tagwire.Proofs.Codec.Envelope
import Tagwire.Proofs.Layout.Inheritance
import Tagwire.Proofs.Wire.Skipping

/-!
# Bytes of a descendant as bytes of its ancestor

The message of an ancestor starts the message of each of its descendants, and the fields that a descendant
adds are none that the ancestor cannot pass over.  So whatever bytes are decoded as a record of the
descendant are decoded as a record of the ancestor too, with the members that the ancestor has fields for.
-/

set_option autoImplicit false

namespace Tagwire

open Schema

/-- The record with its members under some keys only, in their order. -/
def Record.restrict (record : Record) (keys : List String) : Record :=
  ⟨record.members.filter fun e => keys.contains e.1, record.contents.sorted.filter _⟩

/-- The members of a restricted record are those under the keys that it is restricted to. -/
theorem Record.members_restrict (record : Record) (keys : List String) :
    (record.restrict keys).members = record.members.filter fun e => keys.contains e.1 := rfl

/-- `restrict` leaves the members under the given keys as they are, and no other. -/
theorem Record.get?_restrict (record : Record) (keys : List String) (key : String) :
    (record.restrict keys).get? key = if keys.contains key then record.get? key else none := by
  rw [get?, members_restrict, Entries.get?_eq, Assoc.get?_filter fun key => keys.contains key, get?,
    Entries.get?_eq]

/-- Where `keep` tells the record keys of the known fields from those of the others, `fieldsToJson?` shows of
the known fields the members that `keep` keeps of those of all. -/
theorem MessageType.IsPartOf.fieldsToJson?_knownFields {schema : Schema} {type other : MessageType}
    (h : other.IsPartOf type) {keep : String → Bool}
    (hkeep : ∀ n f, type.field? n = some f → keep f.jsonName = (other.field? n).isSome) {unpack : Unpack}
    {values : FieldValues} {members : List (String × Json)}
    (hshown : schema.fieldsToJson? unpack type values = some members) :
    schema.fieldsToJson? unpack other (other.knownFields values) = some (members.filter fun e => keep e.1) := by
  induction values generalizing members with
  | nil =>
    rw [fieldsToJson?] at hshown
    cases hshown
    rfl
  | cons e rest ih =>
    obtain ⟨n, value⟩ := e
    rw [fieldsToJson?] at hshown
    cases hother : other.field? n with
    | none =>
      -- The value is passed over by the other type, and its record key is not one that is kept.
      have hunknown : other.knownFields ((n, value) :: rest) = other.knownFields rest :=
        List.filter_cons_of_neg (by simp [hother])
      rw [hunknown]
      cases hfield : type.field? n with
      | none =>
        rw [hfield] at hshown
        exact ih hshown
      | some f =>
        rw [hfield] at hshown
        simp only [Option.bind_eq_bind, Option.bind_eq_some_iff, Option.pure_def, Option.some.injEq] at hshown
        obtain ⟨json, -, shown, hrest, rfl⟩ := hshown
        have hleft : keep f.jsonName = false := by rw [hkeep n f hfield, hother, Option.isSome_none]
        rw [List.filter_cons_of_neg (by simp [hleft])]
        exact ih hrest
    | some f =>
      have hfield := h.found n f hother
      rw [hfield] at hshown
      simp only [Option.bind_eq_bind, Option.bind_eq_some_iff, Option.pure_def, Option.some.injEq] at hshown
      obtain ⟨json, hjson, shown, hrest, rfl⟩ := hshown
      have hkept : keep f.jsonName = true := by rw [hkeep n f hfield, hother, Option.isSome_some]
      have hknown : other.knownFields ((n, value) :: rest) = (n, value) :: other.knownFields rest :=
        List.filter_cons_of_pos (by simp [hother])
      rw [hknown, List.filter_cons_of_pos (by simp [hkept]), fieldsToJson?, hother]
      simp only [hjson, ih hrest, Option.bind_eq_bind, Option.bind_some, Option.pure_def]

namespace RegisteredType

/-- The record keys of the fields of a type, in their order. -/
def keys (type : RegisteredType) : List String := type.fields.map RegisteredField.name

namespace IsLoaded

variable {schema : Schema} {type other : RegisteredType} {more : List RegisteredField}

/-- Let the fields of `type` begin with those of `other`.  A field of `type` is one of `other` exactly if its
record key is one of `other.keys`. -/
theorem contains_jsonName (ht : type.IsLoaded schema) (ho : other.IsLoaded schema)
    (hfields : type.fields = other.fields ++ more) (n : Nat) (g : MessageField)
    (hg : type.linked.field? n = some g) :
    other.keys.contains g.jsonName = (other.linked.field? n).isSome := by
  obtain ⟨f, hf, rfl, rfl⟩ := exists_of_field? hg
  rw [ht.jsonName_linked hf, Bool.eq_iff_iff, Option.isSome_iff_exists, List.contains_iff_mem]
  constructor
  · intro hkey
    obtain ⟨f', hf', hname⟩ := List.mem_map.mp hkey
    have hmem : f' ∈ type.fields := hfields ▸ List.mem_append_left more hf'
    rw [ht.eq_of_name_eq hf hmem hname.symm]
    exact ⟨f'.linked, ho.field?_linked hf'⟩
  · rintro ⟨g, hg⟩
    obtain ⟨f', hf', -, hnumber⟩ := exists_of_field? hg
    have hmem : f' ∈ type.fields := hfields ▸ List.mem_append_left more hf'
    rw [ht.eq_of_number_eq hf hmem hnumber]
    exact List.mem_map_of_mem hf'

/-- A type whose fields are a prefix of those of another is part of it: it reads the fields that both have
alike. -/
theorem isPartOf (ht : type.IsLoaded schema) (hfields : type.fields = other.fields ++ more) :
    other.linked.IsPartOf type.linked where
  found := by
    intro n g hg
    obtain ⟨f, hf, rfl, rfl⟩ := exists_of_field? hg
    exact ht.field?_linked (hfields ▸ List.mem_append_left more hf)
  oneof := by
    intro n g hg
    obtain ⟨f, -, rfl, -⟩ := exists_of_field? hg
    rfl
  grouped := by
    intro n g hg
    obtain ⟨f, -, rfl, -⟩ := exists_of_field? hg
    rfl
  shape := by
    intro n g hg
    obtain ⟨f, -, rfl, -⟩ := exists_of_field? hg
    rw [RegisteredField.shape_linked]
    split <;> exact fun hmap => (by cases hmap)

/-- The defaults that `unsetMembers` shows for the ancestor are those that it shows for the descendant under the
keys of the ancestor. -/
theorem unsetMembers_knownFields (ht : type.IsLoaded schema) (ho : other.IsLoaded schema)
    (hfields : type.fields = other.fields ++ more) (values : FieldValues) :
    schema.unsetMembers other.linked (other.linked.knownFields values) =
      (schema.unsetMembers type.linked values).filter fun e => other.keys.contains e.1 := by
  have hlisted : ∀ (t : RegisteredType) (kept : FieldValues), schema.unsetMembers t.linked kept =
      (t.fields.filter fun f => !f.linked.presence && !FieldValues.contains kept f.number).map fun f =>
        (f.linked.jsonName, schema.defaultToJson f.linked) := by
    intro t kept
    unfold unsetMembers RegisteredType.linked
    rw [List.filter_map, List.map_map]
    rfl
  have hkeys : ∀ f ∈ type.fields, other.keys.contains f.linked.jsonName =
      (other.linked.field? f.number).isSome :=
    fun f hf => ht.contains_jsonName ho hfields f.number _ (ht.field?_linked hf)
  have hmore : ∀ f ∈ more, other.keys.contains f.linked.jsonName = false := by
    intro f hf
    have hmem : f ∈ type.fields := hfields ▸ List.mem_append_right _ hf
    rw [hkeys f hmem, Option.isSome_eq_false_iff, Option.isNone_iff_eq_none]
    by_contra hsome
    obtain ⟨g, hg⟩ := Option.ne_none_iff_exists'.mp hsome
    obtain ⟨f', hf', -, hnumber⟩ := exists_of_field? hg
    -- The numbers of all fields are distinct, and this one is behind those of the other type.
    have hdistinct : (type.fields.map RegisteredField.number).Nodup := by
      rw [ht.numbers]
      exact List.nodup_range'
    rw [hfields, List.map_append] at hdistinct
    exact List.disjoint_of_nodup_append hdistinct (List.mem_map_of_mem hf')
      (hnumber ▸ List.mem_map_of_mem hf)
  rw [hlisted, hlisted, List.filter_map, List.filter_filter, hfields, List.filter_append]
  have hnone : more.filter (fun f =>
      ((fun e : String × Json => other.keys.contains e.1) ∘ fun f : RegisteredField =>
        (f.linked.jsonName, schema.defaultToJson f.linked)) f &&
      (!f.linked.presence && !FieldValues.contains values f.number)) = [] := by
    rw [List.filter_eq_nil_iff]
    intro f hf
    rw [Bool.not_eq_true, Function.comp_apply, hmore f hf, Bool.false_and]
  rw [hnone, List.append_nil]
  congr 1
  apply List.filter_congr
  intro f hf
  have hmem : f ∈ type.fields := hfields ▸ List.mem_append_left more hf
  have hkept : other.keys.contains f.linked.jsonName = true := by
    rw [hkeys f hmem, ho.field?_linked hf]
    rfl
  have hvalue : FieldValues.contains (other.linked.knownFields values) f.number =
      FieldValues.contains values f.number := by
    unfold FieldValues.contains
    rw [MessageType.IsPartOf.get?_knownFields (ho.field?_linked hf)]
  simp only [Function.comp_apply, hkept, hvalue, Bool.true_and]

/-- Bytes that `decodeRecord` reads as a record of a type it reads as a record of each type whose fields are a
prefix of its own, restricted to the keys of this one. -/
theorem decodeRecord_restrict (ht : type.IsLoaded schema) (ho : other.IsLoaded schema)
    (hfields : type.fields = other.fields ++ more) {bytes : Bytes} {record : Record}
    (h : schema.decodeRecord type.linked bytes = .ok record) :
    schema.decodeRecord other.linked bytes = .ok (record.restrict other.keys) := by
  rw [decodeRecord_eq] at h
  split at h
  · rename_i members hmembers
    cases h
    obtain ⟨values, hread, hform⟩ := Option.bind_eq_some_iff.mp hmembers
    obtain ⟨-, hread'⟩ := (ht.isPartOf hfields).decode?_knownFields hread
    have hshown : (schema.fieldsToJson? schema.unpackAny? type.linked values).map (fun members =>
        Json.ofMembers (schema.unsetMembers type.linked values ++ members)) = some (.obj members) :=
      (ht.valueToJson?_message values).symm.trans hform
    obtain ⟨shown, hfieldsShown, hobject⟩ := Option.map_eq_some_iff.mp hshown
    cases hobject
    have hknown := (ht.isPartOf hfields).fieldsToJson?_knownFields (ht.contains_jsonName ho hfields)
      hfieldsShown
    have hform' : schema.messageToJson? other.linked (other.linked.knownFields values) =
        some (.ofMembers ((schema.unsetMembers type.linked values ++ shown).filter
          fun e => other.keys.contains e.1)) := by
      refine (ho.valueToJson?_message _).trans ?_
      rw [hknown, ht.unsetMembers_knownFields ho hfields, List.filter_append]
      rfl
    -- Members may be left out before they are put in order, or afterwards.
    have hempty : Assoc.IsSorted ([] : Entries Json) := .nil
    have hkept := hempty.filter_insertAll (fun key => other.keys.contains key)
      (schema.unsetMembers type.linked values ++ shown)
    rw [decodeRecord_eq, hread', Option.bind_some, hform']
    refine congrArg Except.ok (Record.ext_members ?_)
    rw [Record.members_restrict, Record.members_ofList (Entries.isSorted_ofList _),
      Record.members_ofList (Entries.isSorted_ofList _)]
    unfold Entries.ofList
    rw [Entries.insertAll_eq, Entries.insertAll_eq]
    exact hkept.symm
  · cases h

end IsLoaded

end RegisteredType

/-- Let `d` descend from `a`.  The fields of the message of `a` are a proper prefix of those of the message of
`d`, in the document and in the registry.  Whatever bytes `decodeAs` reads as a record of `d`, it reads as a
record of `a` too: the one restricted to the keys of `a`, with the name of `a` as its type. -/
theorem Codec.decodeAs_ancestor {definitions : List RecordDefinition} {compiled : CompiledSchema}
    (h : compile definitions = .ok compiled) {d a : RecordDefinition} (hd : d ∈ definitions)
    (hancestor : DescendsFrom definitions d a) :
    ∃ name ancestor : MessageName, d.messageName = .ok name ∧ a.messageName = .ok ancestor ∧
      (∃ block ancestorBlock more, compiled.document.message? name.text = some block ∧
        compiled.document.message? ancestor.text = some ancestorBlock ∧ more ≠ [] ∧
        block.fields = ancestorBlock.fields ++ more) ∧
      ∃ type ancestorType more, compiled.registry.get? name.text = some type ∧
        compiled.registry.get? ancestor.text = some ancestorType ∧ more ≠ [] ∧
        type.fields = ancestorType.fields ++ more ∧
        ∀ codec : Codec, SchemaStore.loadText {} compiled.document.text = .ok codec.store →
          ∀ bytes record, codec.decodeAs bytes name.text = .ok record →
            codec.decodeAs bytes ancestor.text =
              .ok ((record.restrict ancestorType.keys).withType ancestor.text) := by
  obtain ⟨name, ancestor, hname, hancestorName, hblocks, type, ancestorType, more, htype, hancestorType,
    hmore, hfields⟩ := Compilation.exists_fields_append h hd hancestor
  refine ⟨name, ancestor, hname, hancestorName, hblocks, type, ancestorType, more, htype, hancestorType,
    hmore, hfields, fun codec hload bytes record hdecode => ?_⟩
  obtain ⟨schema, hstore, hl⟩ := CompiledSchema.exists_isLoaded_of_loadText h hload
  obtain ⟨htext, ht⟩ := hl.of_get? htype
  obtain ⟨hancestorText, ho⟩ := hl.of_get? hancestorType
  rw [← htext, decodeAs_eq hstore ht, map_eq_ok_iff] at hdecode
  obtain ⟨decoded, hdecoded, rfl⟩ := hdecode
  -- The two records are of different types, and otherwise have the same members.
  rw [← hancestorText, decodeAs_eq hstore ho, ht.decodeRecord_restrict ho hfields hdecoded]
  refine congrArg Except.ok (Record.withType_congr (fun key hkey => ?_) _)
  rw [Record.get?_restrict, Record.get?_restrict, Record.get?_withType, if_neg (Ne.symm hkey)]

/-- The definitions of a circle with a `radius`, and of the shape with a `label` that it descends from. -/
def shapeDefinitions : List RecordDefinition :=
  [{ id := "Circle", parent := some "Shape", fields := [("radius", { kind := .scalar .double })] },
   { id := "Shape", fields := [("label", { kind := .scalar .string })] }]

/-- The registered fields of a circle: `type`, `label` with number 2, and `radius` with number 3. -/
def circleFields : List RegisteredField :=
  [.typeTag, ⟨"label", "label", 2, "string", false⟩, ⟨"radius", "radius", 3, "double", false⟩]

/-- The message type of a circle. -/
def circleType : MessageType :=
  ⟨"CircleMessage", [RegisteredField.typeTag.linked,
    { name := "label", jsonName := "label", number := 2, type := .scalar .string, default := .string "" },
    { name := "radius", jsonName := "radius", number := 3, type := .scalar .double, default := .double .zero }]⟩

/-- The bytes of a circle with the label `a` and the radius 1.5. -/
def circleBytes : Bytes := [0x12, 1, 0x61, 0x19, 0, 0, 0, 0, 0, 0, 0xF8, 0x3F]

/-- The record of the circle: `label`, `radius`, and a text under `type`. -/
def circleRecord (name : String) : Record :=
  ⟨[("label", .str "a"), ("radius", .float ⟨0x3FF8000000000000⟩), ("type", .str name)],
    show ["label", "radius", "type"].Pairwise (· < ·) by decide⟩

/-- The fields of a circle link to `circleType`. -/
theorem linked_circle {type : RegisteredType} (hname : type.name = "CircleMessage")
    (hfields : type.fields = circleFields) : type.linked = circleType := by
  have hlabel := @RegisteredField.linked_eq ⟨"label", "label", 2, "string", false⟩ "label" _ (by decide)
    (linkedType_keyword .string)
  have hradius := @RegisteredField.linked_eq ⟨"radius", "radius", 3, "double", false⟩ "radius" _ (by decide)
    (linkedType_keyword .double)
  rw [RegisteredType.linked, hname, hfields, circleFields, List.map_cons, List.map_cons, List.map_cons,
    List.map_nil, hlabel, hradius]
  rfl

/-- `decodeRecord` reads `circleBytes` as `circleRecord` with an empty text under `type`, since they hold no
field 1. -/
theorem decodeRecord_circleBytes {schema : Schema} {type : RegisteredType} (ht : type.IsLoaded schema)
    (hname : type.name = "CircleMessage") (hfields : type.fields = circleFields) :
    schema.decodeRecord type.linked circleBytes = .ok (circleRecord "") := by
  have hlinked := linked_circle hname hfields
  have hread : schema.decode? circleType circleBytes =
      some [(2, .string "a"), (3, .double ⟨0x3FF8000000000000⟩)] := rfl
  have hunset : schema.unsetMembers circleType [(2, .string "a"), (3, .double ⟨0x3FF8000000000000⟩)] =
      [("type", .str "")] := rfl
  have hshown : schema.fieldsToJson? schema.unpackAny? circleType
      [(2, .string "a"), (3, .double ⟨0x3FF8000000000000⟩)] =
      some [("label", .str "a"), ("radius", .float ⟨0x3FF8000000000000⟩)] := rfl
  have hlabel : "label" < "type" := by decide
  have hradius : ¬ "radius" < "label" ∧ "radius" < "type" := by decide
  refine decodeRecord_eq_ok_iff.mpr ⟨_, hlinked ▸ hread, fromMessage_eq_ok_iff.mpr ?_⟩
  rw [messageToJson?, ht.isOrdinary.valueToJson?_message, hlinked, hunset, hshown]
  simp [Json.ofMembers, Entries.ofList, Entries.insertAll, Entries.insert, Record.toJson, circleRecord, hlabel,
    hradius]

/-- `circleBytes`, which hold the label `a` and the radius 1.5, are decoded by `decodeAs` as a circle with both
members, and as a shape without the radius. -/
theorem Codec.decodeAs_ancestor_shapeDefinitions : ∃ compiled, ∃ codec : Codec,
    compile shapeDefinitions = .ok compiled ∧
      SchemaStore.loadText {} compiled.document.text = .ok codec.store ∧
      codec.decodeAs circleBytes "CircleMessage" = .ok (circleRecord "CircleMessage") ∧
      codec.decodeAs circleBytes "ShapeMessage" =
        .ok ⟨[("label", .str "a"), ("type", .str "ShapeMessage")], by decide⟩ := by
  have hcompiles : CompilesLinkable shapeDefinitions := by decide +kernel
  obtain ⟨compiled, codec, schema, h, hload, -, hstore, hl⟩ := hcompiles.exists_codec .builtIn
  have htypes : ((compile shapeDefinitions).toOption.map fun c =>
      ((c.registry.get? "ShapeMessage").map RegisteredType.keys,
        (c.registry.get? "CircleMessage").map RegisteredType.fields)) =
      some (some ["type", "label"], some circleFields) := by
    decide +kernel
  rw [h, Except.toOption, Option.map_some, Option.some.injEq, Prod.mk.injEq] at htypes
  have hdescends : DescendsFrom shapeDefinitions shapeDefinitions[0] shapeDefinitions[1] :=
    .single ⟨by decide, rfl⟩
  obtain ⟨name, ancestor, hname, hancestor, -, type, ancestorType, more, htype, hancestorType, -, -, hdecode⟩ :=
    Codec.decodeAs_ancestor h (by decide) hdescends
  have hcircle : name.text = "CircleMessage" := (ofId_eq_ok_iff.mp hname).trans (by decide)
  have hshape : ancestor.text = "ShapeMessage" := (ofId_eq_ok_iff.mp hancestor).trans (by decide)
  rw [hcircle] at htype hdecode
  rw [hshape] at hancestorType hdecode
  rw [htype, hancestorType, Option.map_some, Option.map_some, Option.some.injEq, Option.some.injEq] at htypes
  obtain ⟨hcircleName, ht⟩ := hl.of_get? htype
  have hcircleRead : codec.decodeAs circleBytes "CircleMessage" = .ok (circleRecord "CircleMessage") := by
    rw [← hcircleName, decodeAs_eq hstore ht, decodeRecord_circleBytes ht hcircleName htypes.2, hcircleName]
    exact congrArg Except.ok (Record.ext_members rfl)
  have hshapeRead := hdecode codec hload _ _ hcircleRead
  rw [htypes.1] at hshapeRead
  refine ⟨compiled, codec, h, hload, hcircleRead, hshapeRead.trans ?_⟩
  exact congrArg Except.ok (Record.ext_members rfl)

end Tagwire
