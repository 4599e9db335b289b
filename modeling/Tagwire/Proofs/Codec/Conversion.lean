import Tagwire.Codec
import Tagwire.Proofs.Mapping.Fields
import Tagwire.Proofs.Mapping.Lenient
import Tagwire.Proofs.Mapping.Members
import Tagwire.Proofs.Record

/-!
# What a codec does with a record of a loaded type

The type that a record names is found, and from there on only the message type and the record matter: a
record is encoded if it stands for a message, and bytes are decoded if they are those of a message that has
a JSON form.
-/

set_option autoImplicit false

namespace Tagwire

namespace Schema

variable {schema : Schema} {type : MessageType} {record : Record} {bytes : Bytes}

/-- `toMessage` gives a message exactly when `valueOfJson?` reads the JSON form of the record as one. -/
theorem toMessage_eq_ok_iff {strict : Bool} {values : FieldValues} :
    schema.toMessage type strict record = .ok values ↔
      schema.valueOfJson? strict .single (.message type.name) record.toJson = some (.message values) := by
  have hmessage : schema.messageOfJson? strict type record.toJson = some values ↔
      schema.valueOfJson? strict .single (.message type.name) record.toJson =
        some (.message values) := by
    unfold messageOfJson?
    split
    · rename_i found hfound
      rw [hfound, Option.some.injEq, Option.some.injEq, Value.message.injEq]
    · rename_i hnot
      exact ⟨fun hnone => (by cases hnone), fun hsome => absurd hsome (hnot values)⟩
  rw [← hmessage, toMessage]
  cases schema.messageOfJson? strict type record.toJson with
  | none => simp
  | some found => simp

/-- What `toMessage` accepts with `strict` it accepts without, with the same message. -/
theorem toMessage_of_strict {values : FieldValues} (h : schema.toMessage type true record = .ok values)
    (strict : Bool) : schema.toMessage type strict record = .ok values := by
  cases strict with
  | true => exact h
  | false => exact toMessage_eq_ok_iff.mpr (valueOfJson?_of_strict _ (toMessage_eq_ok_iff.mp h))

/-- `encodeRecord` gives the bytes of the message that `toMessage` gives. -/
theorem encodeRecord_eq_ok_iff {strict : Bool} :
    schema.encodeRecord type strict record = .ok bytes ↔
      ∃ values, schema.toMessage type strict record = .ok values ∧ schema.encode type values = bytes := by
  unfold encodeRecord
  rw [bind_eq_ok_iff]
  simp only [pure, Except.pure, Except.ok.injEq]

/-- `fromMessage` makes a record of a message exactly if `messageToJson?` shows the message as its object. -/
theorem fromMessage_eq_ok_iff {values : FieldValues} : schema.fromMessage type values = .ok record ↔
    schema.messageToJson? type values = some record.toJson := by
  unfold fromMessage
  split
  · rename_i shown hshown
    rw [hshown, Except.ok.injEq, Record.toJson, Option.some.injEq, Json.obj.injEq]
    constructor
    · rintro rfl
      exact (Record.members_ofList (isSorted_of_messageToJson? hshown)).symm
    · rintro rfl
      exact record.ofList_members
  · rename_i hnot
    exact ⟨fun hfault => (by cases hfault), fun hshown => absurd hshown (hnot record.members)⟩

/-- `decodeRecord` gives the record that `fromMessage` gives for the message that `decode?` reads. -/
theorem decodeRecord_eq_ok_iff : schema.decodeRecord type bytes = .ok record ↔
    ∃ values, schema.decode? type bytes = some values ∧ schema.fromMessage type values = .ok record := by
  unfold decodeRecord
  cases schema.decode? type bytes with
  | none => simp
  | some values => simp

/-- `decodeRecord` as one case distinction: on whether `decode?` reads a message and `messageToJson?` shows it
as an object. -/
theorem decodeRecord_eq (schema : Schema) (type : MessageType) (bytes : Bytes) :
    schema.decodeRecord type bytes =
      match (schema.decode? type bytes).bind (schema.messageToJson? type) with
      | some (.obj members) => .ok ⟨members⟩
      | _ => .error (.format (.message type.name)) := by
  unfold decodeRecord fromMessage
  cases schema.decode? type bytes <;> rfl

/-- A record that `decodeRecord` gives has a member for every field without presence. -/
theorem get?_ne_none_of_decodeRecord (ht : type.IsOrdinary schema)
    (h : schema.decodeRecord type bytes = .ok record) {f : MessageField} (hf : f ∈ type.fields)
    (hpresence : f.presence = false) : record.get? f.jsonName ≠ none := by
  obtain ⟨values, -, hrecord⟩ := decodeRecord_eq_ok_iff.mp h
  have hshown : (schema.fieldsToJson? schema.unpackAny? type values).map (fun members =>
      Json.ofMembers (schema.unsetMembers type values ++ members)) = some (.obj record.members) :=
    (ht.valueToJson?_message values).symm.trans (fromMessage_eq_ok_iff.mp hrecord)
  obtain ⟨shown, hfields, heq⟩ := Option.map_eq_some_iff.mp hshown
  have hmembers : Entries.ofList (schema.unsetMembers type values ++ shown) = record.members :=
    Json.obj.inj heq
  have hkey := ht.mem_keys_of_fieldsToJson? hfields hf hpresence
  intro hnone
  rw [Record.get?, ← hmembers, Entries.get?_eq, Assoc.get?_eq_none_iff, Entries.ofList, Entries.insertAll_eq,
    Assoc.mem_keys_insertAll] at hnone
  exact hnone (.inl hkey)

end Schema

namespace Codec

variable {codec : Codec} {schema : Schema} {type : RegisteredType} {record : Record}

/-- `find` gives a loaded type under its name. -/
theorem find_eq_ok (hstore : codec.store = ⟨some schema⟩) (ht : type.IsLoaded schema) :
    codec.store.find type.name = .ok (schema, type.linked) :=
  hstore ▸ ht.find_eq_ok

/-- `encodeWith` for a record of a loaded type, with the lookups done: the envelope behind a check where it is
asked for, or `encodeRecord`. -/
theorem encodeWith_eq (hstore : codec.store = ⟨some schema⟩) (ht : type.IsLoaded schema)
    (hname : record.typeName? = some type.name) (options : EncodeOptions) :
    codec.encodeWith options record =
      if options.predictive then
        (if options.verify then (schema.toMessage type.linked true record).map fun _ => ()
          else .ok ()).bind fun _ => codec.encodeEnvelope schema type.linked type.name record
      else schema.encodeRecord type.linked options.verify record := by
  have hfind := find_eq_ok hstore ht
  have hschema : codec.store.schema = .ok schema := hstore ▸ rfl
  unfold encodeWith
  rw [hschema]
  show (typeOf record).bind _ = _
  rw [typeOf, hname]
  show (codec.store.find type.name).bind _ = _
  rw [hfind]
  show (if options.predictive = true then _ else _) = _
  cases hp : options.predictive with
  | false => rfl
  | true =>
    rw [if_pos rfl, if_pos rfl]
    cases hv : options.verify with
    | false => rfl
    | true => cases schema.toMessage type.linked true record <;> rfl

/-- `decodeAs` for a loaded type, with the lookup done. -/
theorem decodeAs_eq (hstore : codec.store = ⟨some schema⟩) (ht : type.IsLoaded schema) (bytes : Bytes) :
    codec.decodeAs bytes type.name =
      (schema.decodeRecord type.linked bytes).map fun record => record.withType type.name := by
  unfold decodeAs
  rw [find_eq_ok hstore ht]
  show (schema.decodeRecord type.linked bytes).bind _ = _
  cases schema.decodeRecord type.linked bytes <;> rfl

/-- `decodePredictive` for a registered name that `peekType` reads, with the steps before the lookup done. -/
theorem decodePredictive_eq {bytes : Bytes} {name : String} {registry : Registry}
    {registered : RegisteredType} (hschema : codec.store.schema = .ok schema)
    (hpeek : codec.peekType bytes = .ok name) (hfound : registry.get? name = some registered) :
    codec.decodePredictive bytes registry =
      (codec.store.find name).bind fun found =>
        (found.1.decodeRecord found.2 bytes).map fun decoded =>
          (registered.instantiate.extend (decoded.erase typeField)).withType registered.name := by
  unfold decodePredictive
  rw [hschema]
  show (codec.peekType bytes).bind _ = _
  rw [hpeek]
  unfold Except.bind
  simp only [hfound]
  cases codec.store.find name with
  | error e => rfl
  | ok found =>
    show (found.1.decodeRecord found.2 bytes).bind _ = (found.1.decodeRecord found.2 bytes).map _
    cases found.1.decodeRecord found.2 bytes <;> rfl

end Codec

end Tagwire
