import Tagwire.Proofs.Codec.BareEnvelope

/-!
# What a predictive decode takes from where

The record of an envelope is put together from the fresh record that the registry makes of the type and
from what the bytes hold.  What the bytes hold goes first, the fresh record is left with the members that
are not in the bytes, and the type is the name in the tag: neither a later text in the field of the type nor
the constructor of the registered type can change it.
-/

set_option autoImplicit false

namespace Tagwire

namespace Codec

variable {codec : Codec} {bytes : Bytes} {record : Record}

/-- `decodeAs` succeeds exactly if `find` gives a type and `decodeRecord` a record of it, whose type is then
set. -/
theorem decodeAs_eq_ok_iff {name : String} : codec.decodeAs bytes name = .ok record ↔
    ∃ found decoded, codec.store.find name = .ok found ∧ found.1.decodeRecord found.2 bytes = .ok decoded ∧
      decoded.withType name = record := by
  unfold decodeAs
  simp only [bind_eq_ok_iff, pure, Except.pure, Except.ok.injEq]
  constructor
  · rintro ⟨found, hfind, decoded, hdecode, hrecord⟩
    exact ⟨found, decoded, hfind, hdecode, hrecord⟩
  · rintro ⟨found, decoded, hfind, hdecode, hrecord⟩
    exact ⟨found, hfind, decoded, hdecode, hrecord⟩

/-- `decodePredictive` succeeds exactly if `peekType` reads a registered name off the bytes and `decodeAs` reads
a record of it, which is put over the fresh one. -/
theorem decodePredictive_eq_ok_iff {registry : Registry} :
    codec.decodePredictive bytes registry = .ok record ↔
      ∃ name registered decoded, codec.peekType bytes = .ok name ∧ registry.get? name = some registered ∧
        codec.decodeAs bytes name = .ok decoded ∧
        (registered.instantiate.extend (decoded.erase typeField)).withType registered.name = record := by
  constructor
  · intro h
    unfold decodePredictive at h
    obtain ⟨schema, hschema, h⟩ := bind_eq_ok_iff.mp h
    obtain ⟨name, hpeek, h⟩ := bind_eq_ok_iff.mp h
    split at h
    · cases h
    · rename_i registered hfound
      obtain ⟨found, hfind, h⟩ := bind_eq_ok_iff.mp h
      obtain ⟨decoded, hdecode, h⟩ := bind_eq_ok_iff.mp h
      -- The type that a plain decode sets is erased again before the record is put over the fresh one.
      refine ⟨name, registered, decoded.withType name, hpeek, hfound, ?_, ?_⟩
      · exact decodeAs_eq_ok_iff.mpr ⟨found, decoded, hfind, hdecode, rfl⟩
      · rw [Record.erase_withType]
        exact Except.ok.inj h
  · rintro ⟨name, registered, decoded, hpeek, hfound, hdecode, rfl⟩
    obtain ⟨found, decoded, hfind, hplain, rfl⟩ := decodeAs_eq_ok_iff.mp hdecode
    obtain ⟨schema, hschema, -⟩ := bind_eq_ok_iff.mp hfind
    rw [decodePredictive_eq hschema hpeek hfound, hfind, Record.erase_withType]
    show (found.1.decodeRecord found.2 bytes).map _ = _
    rw [hplain]
    rfl

/-- Let `decodePredictive` give a record through a registry of any types, registered one after the other.  The
record has the type that `peekType` reads off the bytes, every member that `decodeAs` reads from them, and
besides these only members of the fresh record of the last type registered under that name. -/
theorem exists_decodeAs_of_decodePredictive (codec : Codec) (types : List RegisteredType)
    (h : codec.decodePredictive bytes (Registry.ofList types) = .ok record) :
    ∃ name registered decoded, codec.peekType bytes = .ok name ∧
      (Registry.ofList types).get? name = some registered ∧
      (types.reverse.find? fun t => t.name == name) = some registered ∧
      record.get? typeField = some (.str name) ∧
      codec.decodeAs bytes name = .ok decoded ∧
      (∀ key value, decoded.get? key = some value → record.get? key = some value) ∧
      ∀ key value, record.get? key = some value → decoded.get? key = none →
        registered.instantiate.get? key = some value := by
  obtain ⟨name, registered, decoded, hpeek, hfound, hdecode, rfl⟩ := decodePredictive_eq_ok_iff.mp h
  have hlast := Registry.get?_ofList types name
  rw [hfound] at hlast
  have hname : registered.name = name := by simpa using List.find?_some hlast.symm
  obtain ⟨found, plain, -, -, hstamped⟩ := decodeAs_eq_ok_iff.mp hdecode
  have htype : decoded.get? typeField = some (.str name) := by
    rw [← hstamped, Record.get?_withType, if_pos rfl]
  have hmember := Record.get?_withType_extend_erase registered.instantiate decoded registered.name
  refine ⟨name, registered, decoded, hpeek, hfound, hlast.symm, ?_, hdecode, fun key value hvalue => ?_,
    fun key value hvalue hnone => ?_⟩
  · rw [hmember, if_pos rfl, hname]
  · rw [hmember]
    by_cases hkey : typeField = key
    · rw [if_pos hkey, hname, ← htype, hkey, hvalue]
    · rw [if_neg hkey, hvalue, Option.some_or]
  · -- The type is decoded, so that the member is none of those that are set last.
    have hkey : typeField ≠ key := by
      rintro rfl
      rw [htype] at hnone
      cases hnone
    rw [hmember, if_neg hkey, hnone, Option.none_or] at hvalue
    exact hvalue

end Codec

/-- A registered `NodeMessage` whose constructor makes a node with a member `extra`, which no message
declares. -/
def constructedNode : RegisteredType :=
  { name := "NodeMessage", constructed := some ⟨[("extra", .int 1)], by decide⟩ }

namespace Codec

/-- Through a registry whose `NodeMessage` constructor adds a member, a bare envelope is decoded to a record
with the type in its tag, and what `decodeAs` does not read comes from that constructor. -/
theorem exists_decodeAs_of_decodePredictive_constructedNode : ∃ compiled codec tag record,
    compile nodeDefinitions = .ok compiled ∧
      SchemaStore.loadText {} compiled.document.text = .ok (Codec.store codec) ∧
      codec.cipher.encrypt "NodeMessage" = .ok tag ∧
      codec.decodePredictive (Envelope.bare tag) (Registry.ofList [constructedNode]) = .ok record ∧
      ∃ name decoded, codec.peekType (Envelope.bare tag) = .ok name ∧
        record.get? typeField = some (.str name) ∧ codec.decodeAs (Envelope.bare tag) name = .ok decoded ∧
        ∀ key value, record.get? key = some value → decoded.get? key = none →
          constructedNode.instantiate.get? key = some value := by
  obtain ⟨compiled, codec, schema, node, h, hload, hstore, -, -, hname, -, ht⟩ := exists_nodeCodec
  obtain ⟨tag, htag⟩ := codec.cipher.exists_encrypt "NodeMessage" (by decide)
  have hdecode := Schema.decodeRecord_bare ht.isOrdinary ht.declares_typeTag.found rfl
    (by rw [RegisteredField.linked_typeTag]) htag
  have hdecodeAs := decodeAs_eq hstore ht (Envelope.bare tag)
  rw [hdecode, hname] at hdecodeAs
  have hfound : (Registry.ofList [constructedNode]).get? "NodeMessage" = some constructedNode := by
    rw [Registry.get?_ofList]
    rfl
  have hrecord := decodePredictive_eq_ok_iff.mpr
    ⟨"NodeMessage", constructedNode, _, peekType_bare htag, hfound, hdecodeAs, rfl⟩
  obtain ⟨name, registered, decoded, hpeek, -, hlast, htype, hdecoded, -, hfresh⟩ :=
    exists_decodeAs_of_decodePredictive codec [constructedNode] hrecord
  refine ⟨compiled, codec, _, _, h, hload, htag, hrecord, name, decoded, hpeek, htype, hdecoded, ?_⟩
  obtain rfl : registered = constructedNode :=
    List.mem_singleton.mp (List.mem_reverse.mp (List.mem_of_find?_eq_some hlast))
  exact hfresh

end Codec

end Tagwire
