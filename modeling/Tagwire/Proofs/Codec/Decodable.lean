import Tagwire.Proofs.Codec.Passage
import Tagwire.Proofs.Wire.Depth

/-!
# What is encoded and decoded again

A record that is encoded as plain bytes has become a message before.  Its bytes are decoded again exactly when this
message nests no deeper than bytes may and stands for a record itself; nothing else that the writer does is refused
by the reader.  A message whose types have no JSON forms of their own always stands for a record, so that only its
levels count.
-/

set_option autoImplicit false

namespace Tagwire

open Schema

namespace Schema

variable {schema : Schema} {type : MessageType} {values : FieldValues}

/-- `fromMessage` gives a record for a message exactly when `messageToJson?` shows the message as an object. -/
theorem exists_fromMessage_iff : (∃ record, schema.fromMessage type values = .ok record) ↔
    ∃ members, schema.messageToJson? type values = some (.obj members) := by
  unfold fromMessage
  constructor
  · rintro ⟨record, hrecord⟩
    split at hrecord
    · rename_i members hmembers
      exact ⟨members, hmembers⟩
    · cases hrecord
  · rintro ⟨members, hmembers⟩
    rw [hmembers]
    exact ⟨⟨members⟩, rfl⟩

/-- `fromMessage` gives a record for what is kept of a message (`Schema.kept`) exactly when it gives one for the
message. -/
theorem IsTyped.exists_fromMessage_kept_iff (hs : schema.IsTyped) (hm : schema.message? type.name = some type)
    (h : type.Holds schema values) : (∃ record, schema.fromMessage type (schema.kept type values) = .ok record) ↔
      ∃ record, schema.fromMessage type values = .ok record := by
  rw [exists_fromMessage_iff, exists_fromMessage_iff, messageToJson?, messageToJson?]
  cases hform : SpecialForm.ofTypeName? type.name with
  | some form =>
    -- A form of its own is read from the bytes, which are the same.
    rw [valueToJson?, valueToJson?]
    simp only [ValueType.name, hm, hform, specialToJson?, SpecialForm.load?, encode_kept]
  | none =>
    -- Any other message that is shown at all is shown as an object.
    have ht : type.IsOrdinary schema := ⟨(hs.types _ type hm).toIsLinked, hm, hform⟩
    have hsome : ∀ values, (∃ members, schema.valueToJson? schema.unpackAny? (.message type.name)
        (.message values) = some (.obj members)) ↔
        (schema.valueToJson? schema.unpackAny? (.message type.name) (.message values)).isSome = true := by
      intro values
      rw [ht.valueToJson?_message, Option.isSome_map]
      cases schema.fieldsToJson? schema.unpackAny? type values with
      | none =>
        constructor
        · rintro ⟨_, ⟨⟩⟩
        · intro h
          cases h
      | some members => exact ⟨fun _ => rfl, fun _ => ⟨_, rfl⟩⟩
    have hvalue : schema.Holds .single (.message type.name) (.message values) :=
      holds_message_iff.mpr ⟨type, values, hm, rfl, h⟩
    rw [hsome, hsome, ← keptValue_message hm, hvalue.isSome_valueToJson?_keptValue hs]

/-- `decodeRecord` reads the bytes of a message exactly when the message nests at most `maxNesting` levels and
`fromMessage` gives a record for it. -/
theorem IsTyped.exists_decodeRecord_encode_iff (hs : schema.IsTyped)
    (hm : schema.message? type.name = some type) (h : type.Holds schema values)
    (hlength : (schema.encode type values).length < 2 ^ 64) :
    (∃ record, schema.decodeRecord type (schema.encode type values) = .ok record) ↔
      FieldValues.nesting values ≤ maxNesting ∧ ∃ record, schema.fromMessage type values = .ok record := by
  rw [decodeRecord, hs.types.decode?_encode_eq (hs.types _ type hm) h hlength]
  split
  · rename_i kept hkept
    obtain ⟨hd, hkept⟩ := Option.ite_none_right_eq_some.mp hkept
    rw [← Option.some.inj hkept, hs.exists_fromMessage_kept_iff hm h]
    exact (and_iff_right hd).symm
  · rename_i hnone
    have hdeep : ¬ FieldValues.nesting values ≤ maxNesting := fun hd => by
      rw [if_pos hd] at hnone
      cases hnone
    constructor
    · rintro ⟨_, ⟨⟩⟩
    · exact fun h => absurd h.1 hdeep

end Schema

namespace Codec

variable {codec : Codec} {record : Record} {name : String} {verify : Bool} {bytes : Bytes}

/-- Over a filled store, `decodeAs` reads the plain bytes that `encodeWith` gives a record exactly when the
message of the record nests at most `maxNesting` levels and `fromMessage` gives a record for it.  The second
holds for every message whose types have no JSON form of their own.  The bytes are fewer than `2 ^ 64`, as their
lengths are written. -/
theorem decodeAs_encodeWith_iff (hfilled : codec.store.IsFilled) (hname : record.typeName? = some name)
    (hencode : codec.encodeWith { verify, predictive := false } record = .ok bytes)
    (hlength : bytes.length < 2 ^ 64) :
    ∃ schema type values, codec.toMessage record verify = .ok (schema, type, values) ∧
      ((∃ result, codec.decodeAs bytes name = .ok result) ↔
        FieldValues.nesting values ≤ maxNesting ∧ ∃ result, codec.fromMessage type values = .ok result) ∧
      ∀ names, schema.IsOrdinaryWithin names → names type.name →
        ∃ result, codec.fromMessage type values = .ok result := by
  obtain ⟨schema, hstore, hs⟩ := hfilled.exists_isTyped
  unfold encodeWith at hencode
  simp only [bind_eq_ok_iff, typeOf, hname, Except.ok.injEq, exists_eq_left'] at hencode
  obtain ⟨-, -, ⟨found, type⟩, hfind, hencode⟩ := hencode
  obtain ⟨rfl, hfound⟩ := SchemaStore.find_eq_ok_iff.mp (hstore ▸ hfind)
  dsimp only at hencode
  rw [if_neg Bool.false_ne_true, encodeRecord_eq_ok_iff] at hencode
  obtain ⟨values, hvalues, rfl⟩ := hencode
  have hm := (hs.toIsLinked.of_find? hfound).1
  have hself : codec.store.find type.name = .ok (found, type) :=
    hstore ▸ SchemaStore.find_eq_ok_iff.mpr ⟨rfl, hs.toIsLinked.find?_of_message? hm⟩
  have hholds : type.Holds found values := by
    obtain ⟨own, heq, hown⟩ := exists_message_of_valueOfJson? hs hm (Schema.toMessage_eq_ok_iff.mp hvalues)
    cases heq
    exact hown
  -- The name of the type is added to whatever record there is.
  have hdecode : (∃ result, codec.decodeAs (found.encode type values) name = .ok result) ↔
      ∃ record, found.decodeRecord type (found.encode type values) = .ok record := by
    rw [decodeAs, hfind]
    exact exists_bind_pure_eq_ok_iff
  have hfrom : (∃ result, codec.fromMessage type values = .ok result) ↔
      ∃ record, found.fromMessage type values = .ok record := by
    rw [fromMessage, hself]
    exact exists_bind_pure_eq_ok_iff
  refine ⟨found, type, values, ?_, ?_, fun names hnames hlisted => ?_⟩
  · simp only [toMessage, typeOf, hname, bind_eq_ok_iff]
    exact ⟨name, rfl, _, hfind, values, hvalues, rfl⟩
  · rw [hdecode, hfrom]
    exact hs.exists_decodeRecord_encode_iff hm hholds hlength
  · exact hfrom.mpr (exists_fromMessage hnames hlisted hm hholds)

end Codec

/-! ## A message within its own type -/

/-- A document whose one message `N` has a field of its own type, so that messages may nest to any depth. -/
def chainText : String :=
  "syntax = \"proto3\"; message N \x7b string type = 1; N next = 2; \x7d"

/-- The document that `chainText` writes. -/
def chainFile : Schema.SchemaFile :=
  { path := Schema.inlineDocumentName
    declarations :=
      { messages :=
          [{ name := "N"
             fields :=
               [{ name := "type", number := 1, type := .scalar .string },
                { name := "next", number := 2, type := .named "N" }] }] } }

/-- `n` objects within each other under `next`, around an empty one. -/
def chainJson : Nat → Json
  | 0 => .obj []
  | n + 1 => .obj [("next", chainJson n)]

/-- A record of type `N` with `chainJson n` under `next`, so that its message nests `n + 1` levels. -/
def chainRecord (n : Nat) : Record :=
  ⟨[("next", chainJson n), ("type", .str "N")], List.pairwise_pair.mpr (show "next" < "type" by decide)⟩

namespace Schema

/-- `chainText` is read as `chainFile`. -/
theorem file_chainText : SchemaFile.ofText? inlineDocumentName chainText = some chainFile :=
  SchemaFile.ofText?_of_message [] "N"
    [[.word "string", .word "type", .mark '=', .natural 1], [.word "N", .word "next", .mark '=', .natural 2]]
    (by decide +kernel) rfl rfl rfl

/-- `chainText` loads a schema, and whatever evaluation finds of the codec over it holds. -/
theorem exists_store_chainText {P : Codec → Bool}
    (h : ((ofFiles? [chainFile]).any fun schema => P ⟨⟨some schema⟩, .builtIn, true⟩) = true) :
    ∃ codec : Codec, SchemaStore.loadText {} chainText = .ok codec.store ∧ P codec = true := by
  obtain ⟨schema, hschema, h⟩ := (Option.any_eq_true _ _).mp h
  have hload := (ofText?_eq_ofFiles? rfl file_chainText).trans hschema
  exact ⟨⟨⟨some schema⟩, .builtIn, true⟩, SchemaStore.loadText_eq_ok_iff.mpr ⟨schema, hload, rfl⟩, h⟩

end Schema

namespace Codec

/-- `chainRecord 99` nests exactly 100 levels: `fromMessage` gives a record for its message, and `decodeAs` one
for its bytes. -/
theorem decodeAs_encodeWith_chainRecord : ∃ codec : Codec, ∃ schema type values bytes result,
    SchemaStore.loadText {} chainText = .ok codec.store ∧ (chainRecord 99).typeName? = some "N" ∧
      codec.encodeWith { verify := true, predictive := false } (chainRecord 99) = .ok bytes ∧
      bytes.length < 2 ^ 64 ∧ codec.toMessage (chainRecord 99) true = .ok (schema, type, values) ∧
      FieldValues.nesting values ≤ maxNesting ∧ codec.fromMessage type values = .ok result := by
  obtain ⟨codec, hload, heval⟩ := exists_store_chainText (P := fun codec =>
    (codec.encodeWith { verify := true, predictive := false } (chainRecord 99)).toOption.any fun (bytes : Bytes) =>
      decide (bytes.length < 2 ^ 64) && (codec.decodeAs bytes "N").toOption.isSome) (by decide +kernel)
  obtain ⟨bytes, hbytes, heval⟩ := (Option.any_eq_true _ _).mp heval
  rw [Bool.and_eq_true, decide_eq_true_eq, Option.isSome_iff_exists] at heval
  obtain ⟨hlength, decoded, hdecoded⟩ := heval
  have hencode := toOption_eq_some_iff.mp hbytes
  have hname : (chainRecord 99).typeName? = some "N" := by decide
  obtain ⟨schema, type, values, hmessage, hiff, -⟩ :=
    decodeAs_encodeWith_iff (.text hload) hname hencode hlength
  obtain ⟨hlevels, result, hresult⟩ := hiff.mp ⟨decoded, toOption_eq_some_iff.mp hdecoded⟩
  exact ⟨codec, schema, type, values, bytes, result, hload, hname, hencode, hlength, hmessage, hlevels, hresult⟩

/-- `chainRecord 100` nests 101 levels: `encodeWith` gives bytes for it even with verification, and `decodeAs`
refuses them. -/
theorem decodeAs_encodeWith_ne_chainRecord : ∃ codec : Codec, ∃ bytes,
    SchemaStore.loadText {} chainText = .ok codec.store ∧ (chainRecord 100).typeName? = some "N" ∧
      codec.encodeWith { verify := true, predictive := false } (chainRecord 100) = .ok bytes ∧
      ∀ result, codec.decodeAs bytes "N" ≠ .ok result := by
  obtain ⟨codec, hload, heval⟩ := exists_store_chainText (P := fun codec =>
    (codec.encodeWith { verify := true, predictive := false } (chainRecord 100)).toOption.any fun (bytes : Bytes) =>
      (codec.decodeAs bytes "N").toOption.isNone) (by decide +kernel)
  obtain ⟨bytes, hbytes, heval⟩ := (Option.any_eq_true _ _).mp heval
  refine ⟨codec, bytes, hload, by decide, toOption_eq_some_iff.mp hbytes, fun result hresult => ?_⟩
  rw [hresult] at heval
  cases heval

end Codec

end Tagwire
