import Tagwire.Proofs.Codec.Envelope

/-!
# The name that is read off an envelope

The slot of a tag and the cipher look at the same thirty-two bytes, and each has its own rules for them.  They do not
come apart: what the slot lets pass are digits that write a block, so that the cipher has nothing to say against
their length or against any of them, and refuses them only for the plaintext of the block.  A name is read
exactly where the bytes start with the header and then, in letters of either case, with the tag of the name.
-/

set_option autoImplicit false

namespace Tagwire

namespace TagCipher

variable {cipher : TagCipher} {name tag : String} {digits : Bytes}

/-- `encrypt` gives tags without upper-case letters. -/
theorem map_lowered_of_encrypt (h : cipher.encrypt name = .ok tag) :
    (Bytes.ofString tag).map Hex.lowered = Bytes.ofString tag := by
  have hsame : (Bytes.ofString tag).map Hex.lowered = (Bytes.ofString tag).map id :=
    List.map_congr_left fun c hc => (Hex.lowered_spec c).2.1 (isLowerDigit_of_encrypt h c hc)
  rw [hsame, List.map_id]

/-- A tag is the text whose characters have its bytes for their codes. -/
theorem ofCodes_ofString_of_encrypt (h : cipher.encrypt name = .ok tag) :
    Hex.ofCodes (Bytes.ofString tag) = tag := by
  obtain ⟨codes, htag, hcodes, -⟩ := exists_digits_of_encrypt h
  rw [hcodes, htag]

/-- 32 hexadecimal digits write a block of 16 bytes, and `decrypt` refuses them exactly if the plaintext of this
block is not padded or what is padded is not UTF-8. -/
theorem exists_block_of_digits (hlength : digits.length = tagLength)
    (hdigits : ∀ c ∈ digits, (Hex.value? c).isSome = true) :
    ∃ block : Block, Hex.encodeBytes block.toBytes = digits.map Hex.lowered ∧ ∀ (cipher : TagCipher) error,
      cipher.decrypt (Hex.ofCodes digits) = .error error ↔
        (error = .undecryptable .padding ∧ unpad? (cipher.plaintext block) = none) ∨
          ∃ plain fault, error = .undecryptable (.text fault) ∧ unpad? (cipher.plaintext block) = some plain ∧
            Utf8.decode plain = .error fault := by
  have htag : tagLength = 32 := rfl
  obtain ⟨bytes, hbytes⟩ := Hex.exists_decodePairs hdigits 0
  obtain ⟨hcodes, -⟩ := Hex.encodeBytes_of_decodePairs (by omega) hbytes
  have hblock : bytes.length = 16 := by
    have hcount := congrArg List.length hcodes
    rw [Hex.length_encodeBytes, List.length_map] at hcount
    omega
  obtain ⟨block, hread, rfl⟩ := Block.exists_ofBytes? hblock
  refine ⟨block, hcodes, fun cipher error => ?_⟩
  have hlower : (Hex.ofCodes digits).toLower = Hex.encode block.toBytes := by
    rw [Hex.toLower_ofCodes, ← hcodes]
    rfl
  obtain ⟨hsize, hdecode⟩ := Hex.decode_trimmed_eq_ok_iff.mpr hlower
  rw [hblock] at hsize
  unfold decrypt
  rw [if_neg (by omega), hdecode]
  dsimp only
  rw [hread, Option.bind_some]
  cases hplain : unpad? (cipher.plaintext block) with
  | none =>
    constructor
    · intro h
      cases h
      exact .inl ⟨rfl, rfl⟩
    · rintro (⟨rfl, -⟩ | ⟨plain, fault, -, hsome, -⟩)
      · rfl
      · cases hsome
  | some plain =>
    refine mapError_eq_error_iff.trans ⟨?_, ?_⟩
    · rintro ⟨fault, hfault, rfl⟩
      exact .inr ⟨plain, fault, rfl, rfl, hfault⟩
    · rintro (⟨-, hnone⟩ | ⟨plain', fault, rfl, hsome, hfault⟩)
      · cases hnone
      · cases hsome
        exact ⟨fault, hfault, rfl⟩

end TagCipher

namespace Envelope

variable {cipher : TagCipher} {bytes : Bytes} {name : String}

/-- `peek` reads a name exactly if the digits in the slot, in lower case, are its tag. -/
theorem peek_eq_ok_iff : peek cipher bytes = .ok name ↔
    ∃ digits, slot bytes = .ok digits ∧ cipher.encrypt name = .ok (Hex.ofCodes (digits.map Hex.lowered)) := by
  unfold peek
  simp only [bind_eq_ok_iff, mapError_eq_ok_iff, TagCipher.decrypt_eq_ok_iff, Hex.toLower_ofCodes]

/-- The slot holds the tag of a name, in letters of either case, exactly if there are at least `minLength`
bytes, the first are `header`, and the `tagLength` behind these are the tag. -/
theorem exists_slot_eq_ok_iff :
    (∃ digits, slot bytes = .ok digits ∧ cipher.encrypt name = .ok (Hex.ofCodes (digits.map Hex.lowered))) ↔
      minLength ≤ bytes.length ∧ bytes.take header.length = header ∧ ∃ tag, cipher.encrypt name = .ok tag ∧
        ((bytes.drop header.length).take tagLength).map Hex.lowered = (Bytes.ofString tag).map Hex.lowered := by
  constructor
  · rintro ⟨digits, hslot, htag⟩
    obtain ⟨rest, rfl, hlength, hdigits⟩ := slot_eq_ok_iff.mp hslot
    have htake : (digits ++ rest).take tagLength = digits := hlength ▸ List.take_left
    have hlowered : ∀ c ∈ digits.map Hex.lowered, (Hex.value? c).isSome = true := by
      intro code hcode
      obtain ⟨c, hc, rfl⟩ := List.mem_map.mp hcode
      rw [(Hex.lowered_spec c).1]
      exact hdigits c hc
    refine ⟨?_, List.take_left, _, htag, ?_⟩
    · rw [List.length_append, List.length_append, minLength, hlength]
      omega
    · rw [TagCipher.map_lowered_of_encrypt htag, List.drop_left, htake, Hex.ofString_ofCodes hlowered]
  · rintro ⟨hlong, hheader, tag, htag, hcodes⟩
    rw [TagCipher.map_lowered_of_encrypt htag] at hcodes
    refine ⟨(bytes.drop header.length).take tagLength,
      slot_eq_ok_iff.mpr ⟨(bytes.drop header.length).drop tagLength, ?_, ?_, fun c hc => ?_⟩, ?_⟩
    · rw [List.take_append_drop]
      nth_rewrite 1 [← hheader]
      exact (List.take_append_drop _ _).symm
    · rw [List.length_take, List.length_drop]
      rw [minLength] at hlong
      omega
    · obtain ⟨codes, -, hofString, -, hdigits⟩ := TagCipher.exists_digits_of_encrypt htag
      rw [← (Hex.lowered_spec c).1]
      exact hdigits _ (hofString ▸ hcodes ▸ List.mem_map_of_mem hc)
    · rw [hcodes, TagCipher.ofCodes_ofString_of_encrypt htag]
      exact htag

end Envelope

/-- With any store, `peekType` reads `name` off bytes exactly when there are at least 34 of them, the first two
are `0A 20` and the 32 behind these are the tag of `name` with letters of either case.  It refuses all other
bytes with a fault of the `predictive envelope`.  Where the slot holds 32 digits, these write a block, and
`decrypt` refuses it exactly if its plaintext is not padded or is not UTF-8. -/
theorem Codec.peekType_iff_encrypt (codec : Codec) (bytes : Bytes) :
    (∀ name, codec.peekType bytes = .ok name ↔
      34 ≤ bytes.length ∧ bytes.take 2 = [0x0A, 0x20] ∧ ∃ tag, codec.cipher.encrypt name = .ok tag ∧
        ((bytes.drop 2).take 32).map Hex.lowered = (Bytes.ofString tag).map Hex.lowered) ∧
    ((∃ name, codec.peekType bytes = .ok name) ∨ ∃ fault, codec.peekType bytes = .error (.format fault) ∧
      fault.target = "predictive envelope") ∧
    ∀ digits, Envelope.slot bytes = .ok digits → ∃ block : Block,
      Hex.encodeBytes block.toBytes = digits.map Hex.lowered ∧
      ∀ error, codec.cipher.decrypt (Hex.ofCodes digits) = .error error ↔
        (error = .undecryptable .padding ∧ TagCipher.unpad? (codec.cipher.plaintext block) = none) ∨
          ∃ plain fault, error = .undecryptable (.text fault) ∧
            TagCipher.unpad? (codec.cipher.plaintext block) = some plain ∧ Utf8.decode plain = .error fault := by
  refine ⟨fun name => ?_, ?_, fun digits hslot => ?_⟩
  · rw [peekType, mapError_eq_ok_iff, Envelope.peek_eq_ok_iff]
    exact Envelope.exists_slot_eq_ok_iff
  · unfold peekType
    cases Envelope.peek codec.cipher bytes with
    | ok name => exact .inl ⟨name, rfl⟩
    | error fault => exact .inr ⟨.envelope fault, rfl, rfl⟩
  · obtain ⟨rest, -, hlength, hdigits⟩ := Envelope.slot_eq_ok_iff.mp hslot
    obtain ⟨block, hcodes, hrefuses⟩ := TagCipher.exists_block_of_digits hlength hdigits
    exact ⟨block, hcodes, hrefuses codec.cipher⟩

/-- Over a store without a schema, `peekType` reads the name from a tag whose letters are in upper case. -/
theorem Codec.peekType_iff_encrypt_upperCase :
    Codec.peekType { store := {}, cipher := .builtIn }
      (0x0A :: 0x20 :: Bytes.ofString "90196677C4676C7871D052D3C30922B3") = .ok "NodeMessage" := by
  have htag : TagCipher.builtIn.encrypt "NodeMessage" = .ok "90196677c4676c7871d052d3c30922b3" :=
    toOption_eq_some_iff.mp (by decide +kernel)
  exact ((peekType_iff_encrypt _ _).1 _).mpr
    ⟨by decide +kernel, by decide +kernel, _, htag, by decide +kernel⟩

end Tagwire
