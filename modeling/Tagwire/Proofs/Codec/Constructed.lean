import Tagwire.Proofs.Codec.Presence

/-!
# What a constructor leaves in a decoded record

An envelope is decoded over the record that the constructor of its type makes, whatever members this record
has.  What the bytes hold replaces what was there, but a field that may be absent, and is, has no member to
replace anything with: a constructor that sets such a field has its member kept.  So the fields of the
record are those of the bytes as long as the constructor stays away from the fields that the bytes leave
out.
-/

set_option autoImplicit false

namespace Tagwire

namespace Codec

variable {codec : Codec} {bytes : Bytes} {record : Record}

/-- A record that `decodePredictive` gives has, under each key but `typeField`, the member that `decodeAs` reads
from the same bytes, and else the member of the fresh record of the registered type.  So it agrees with
`decodeAs` in every field of the message type exactly if the fresh record has no member for a field that
`decodeAs` leaves out.  Over a filled store `decodeAs` leaves out no field of a listed type without presence. -/
theorem decodePredictive_fields_iff {registry : Registry}
    (h : codec.decodePredictive bytes registry = .ok record) :
    ∃ name registered schema type decoded, codec.peekType bytes = .ok name ∧
      registry.get? name = some registered ∧ codec.store.find name = .ok (schema, type) ∧
      codec.decodeAs bytes name = .ok decoded ∧
      (∀ key, key ≠ typeField →
        record.get? key = (decoded.get? key).or (registered.instantiate.get? key)) ∧
      ((∀ f ∈ MessageType.fields type, f.jsonName ≠ typeField →
          record.get? f.jsonName = decoded.get? f.jsonName) ↔
        ∀ f ∈ type.fields, f.jsonName ≠ typeField → decoded.get? f.jsonName = none →
          registered.instantiate.get? f.jsonName = none) ∧
      (codec.store.IsFilled → type.name ∈ Schema.messageNames schema →
        ∀ f ∈ type.fields, f.presence = false → decoded.get? f.jsonName ≠ none) := by
  obtain ⟨name, registered, decoded, hpeek, hregistered, hdecode, rfl⟩ := decodePredictive_eq_ok_iff.mp h
  obtain ⟨⟨schema, type⟩, plain, hfind, hplain, hstamped⟩ := decodeAs_eq_ok_iff.mp hdecode
  have hmember : ∀ key, key ≠ typeField →
      ((registered.instantiate.extend (decoded.erase typeField)).withType registered.name).get? key =
        (decoded.get? key).or (registered.instantiate.get? key) := by
    intro key hkey
    rw [Record.get?_withType_extend_erase, if_neg (Ne.symm hkey)]
  refine ⟨name, registered, schema, type, decoded, hpeek, hregistered, hfind, hdecode, hmember, ?_, ?_⟩
  · -- Where the bytes have a member, the two agree; where they have none, the fresh record decides.
    refine forall₃_congr fun f hf hkey => ?_
    rw [hmember _ hkey]
    cases decoded.get? f.jsonName with
    | none => simp
    | some value => simp
  · intro hfilled hlisted f hf hpresence
    obtain ⟨own, hstore, hlinked⟩ := hfilled.exists_isLinked
    obtain ⟨rfl, hfound⟩ := find?_of_find hstore hfind
    have ht := hlinked.isOrdinary (hlinked.of_find? hfound).1 hlisted
    rw [← hstamped, Record.get?_withType]
    split
    · exact Option.some_ne_none _
    · exact Schema.get?_ne_none_of_decodeRecord ht hplain hf hpresence

/-- `decodePredictive` accepts a bare envelope of `NodeMessage` whatever constructor is registered, while
`decodeAs` of it has no member `leaf`. -/
theorem exists_decodePredictive_bareNode {registered : RegisteredType}
    (hnamed : registered.name = "NodeMessage") : ∃ compiled codec schema node tag decoded,
      compile nodeDefinitions = .ok compiled ∧
        SchemaStore.loadText {} compiled.document.text = .ok (Codec.store codec) ∧
        codec.store.find "NodeMessage" = .ok (schema, RegisteredType.linked node) ∧
        node.fields = nodeFields ∧ codec.cipher.encrypt "NodeMessage" = .ok tag ∧
        codec.peekType (Envelope.bare tag) = .ok "NodeMessage" ∧
        codec.decodeAs (Envelope.bare tag) "NodeMessage" = .ok decoded ∧ decoded.get? "leaf" = none ∧
        (Registry.ofList [registered]).get? "NodeMessage" = some registered ∧
        codec.decodePredictive (Envelope.bare tag) (Registry.ofList [registered]) =
          .ok ((registered.instantiate.extend (decoded.erase typeField)).withType registered.name) := by
  obtain ⟨compiled, codec, schema, node, h, hload, hstore, -, -, hname, hfields, ht⟩ := exists_nodeCodec
  have hfind : codec.store.find "NodeMessage" = .ok (schema, node.linked) := hname ▸ find_eq_ok hstore ht
  obtain ⟨tag, htag⟩ := codec.cipher.exists_encrypt "NodeMessage" (by decide)
  obtain ⟨decoded, hdecode, habsent⟩ := exists_decodeAs_bare hfind ht.isOrdinary ht.hasPlainTag htag
  have hleaf : (RegisteredField.mk "leaf" "leaf" 2 "LeafMessage" false).linked ∈ node.linked.fields := by
    refine List.mem_map_of_mem ?_
    rw [hfields]
    exact List.mem_cons_of_mem _ List.mem_cons_self
  have hregistered : (Registry.ofList [registered]).get? "NodeMessage" = some registered := by
    rw [Registry.get?_ofList, ← hnamed]
    simp
  refine ⟨compiled, codec, schema, node, tag, decoded, h, hload, hfind, hfields, htag, peekType_bare htag,
    hdecode, ?_, hregistered, ?_⟩
  · exact habsent _ hleaf (by decide) (by decide)
  · exact decodePredictive_eq_ok_iff.mpr
      ⟨_, registered, decoded, peekType_bare htag, hregistered, hdecode, rfl⟩

/-- Through a registry whose `NodeMessage` constructor adds `extra: 1`, a member that no message declares,
`decodePredictive` of a bare envelope agrees with `decodeAs` in every field of `NodeMessage`, and keeps
`extra`. -/
theorem decodePredictive_fields_constructedNode : ∃ compiled codec tag schema type record decoded,
    compile nodeDefinitions = .ok compiled ∧
      SchemaStore.loadText {} compiled.document.text = .ok (Codec.store codec) ∧
      codec.cipher.encrypt "NodeMessage" = .ok tag ∧
      codec.decodePredictive (Envelope.bare tag) (Registry.ofList [constructedNode]) = .ok record ∧
      codec.store.find "NodeMessage" = .ok (schema, type) ∧
      codec.decodeAs (Envelope.bare tag) "NodeMessage" = .ok decoded ∧
      (∀ f ∈ MessageType.fields type, f.jsonName ≠ typeField →
        record.get? f.jsonName = decoded.get? f.jsonName) ∧
      record.get? "extra" = (decoded.get? "extra").or (some (.int 1)) := by
  have hnamed : constructedNode.name = "NodeMessage" := rfl
  obtain ⟨compiled, codec, schema, node, tag, decoded, h, hload, hfind, hfields, htag, hpeek, hdecode, -,
    hregistered, hrecord⟩ := exists_decodePredictive_bareNode hnamed
  obtain ⟨name, registered, found, type, same, hname, hsame, htype, hbytes, hmember, hagree, -⟩ :=
    decodePredictive_fields_iff hrecord
  obtain rfl : "NodeMessage" = name := Except.ok.inj (hpeek.symm.trans hname)
  obtain rfl : constructedNode = registered := Option.some.inj (hregistered.symm.trans hsame)
  obtain rfl : decoded = same := Except.ok.inj (hdecode.symm.trans hbytes)
  obtain ⟨rfl, rfl⟩ := Prod.mk.inj (Except.ok.inj (hfind.symm.trans htype))
  have hkeys : ∀ f ∈ nodeFields, f.linked.jsonName ≠ typeField →
      constructedNode.instantiate.get? f.linked.jsonName = none := by
    decide
  refine ⟨compiled, codec, tag, _, _, _, decoded, h, hload, htag, hrecord, hfind, hdecode,
    hagree.mpr fun g hg hother _ => ?_, ?_⟩
  · obtain ⟨f, hf, rfl⟩ := List.mem_map.mp hg
    exact hkeys f (hfields ▸ hf) hother
  · rw [hmember "extra" (by decide)]
    rfl

end Codec

/-- A registered `NodeMessage` whose constructor makes a node with an empty object for its `leaf`. -/
def leafyNode : RegisteredType :=
  { name := "NodeMessage", constructed := some ⟨[("leaf", .obj [])], by decide⟩ }

/-- Through a registry whose `NodeMessage` constructor sets the record-typed field `leaf` to an empty object,
`decodePredictive` of a bare envelope has this `leaf`, though `NodeMessage` declares the field and `decodeAs`
reads none from the same bytes. -/
theorem Codec.decodePredictive_ne_decodeAs_leafyNode : ∃ compiled codec tag schema type record decoded,
    compile nodeDefinitions = .ok compiled ∧
      SchemaStore.loadText {} compiled.document.text = .ok (Codec.store codec) ∧
      codec.cipher.encrypt "NodeMessage" = .ok tag ∧
      codec.peekType (Envelope.bare tag) = .ok "NodeMessage" ∧
      codec.store.find "NodeMessage" = .ok (schema, type) ∧
      (∃ f ∈ MessageType.fields type, f.jsonName = "leaf") ∧
      codec.decodePredictive (Envelope.bare tag) (Registry.ofList [leafyNode]) = .ok record ∧
      codec.decodeAs (Envelope.bare tag) "NodeMessage" = .ok decoded ∧
      record.get? "leaf" = some (.obj []) ∧ decoded.get? "leaf" = none := by
  have hnamed : leafyNode.name = "NodeMessage" := rfl
  obtain ⟨compiled, codec, schema, node, tag, decoded, h, hload, hfind, hfields, htag, hpeek, hdecode,
    hnone, -, hrecord⟩ := exists_decodePredictive_bareNode hnamed
  refine ⟨compiled, codec, tag, schema, node.linked, _, decoded, h, hload, htag, hpeek, hfind, ?_, hrecord,
    hdecode, ?_, hnone⟩
  · have hleaf : ∃ f ∈ nodeFields, f.linked.jsonName = "leaf" := by decide
    obtain ⟨f, hf, hkey⟩ := hleaf
    exact ⟨f.linked, List.mem_map_of_mem (hfields ▸ hf), hkey⟩
  · rw [Record.get?_withType_extend_erase, hnone]
    rfl

end Tagwire
