import Tagwire.Cipher.Tag
import Tagwire.Proofs.Hex

/-!
# The name of a tag

A tag is read as the name that it was made of.  The digits of the tag write its bytes, which are one block;
deciphering the block gives the name with its padding, and the padding says how many bytes it has.  Every
one of these steps can be gone back, and digits are all that is read in more than one way, so that nothing
is read as a name but the tag of this name, in letters of either case.
-/

set_option autoImplicit false

namespace Tagwire

/-! ## Padding -/

namespace TagCipher

/-- `pad` fills up a name of at most `maxTagNameBytes` bytes to 16. -/
theorem length_pad {name : Bytes} (h : name.length ≤ maxTagNameBytes) : (pad name).length = 16 := by
  have hmax : maxTagNameBytes = 15 := rfl
  have hblock : blockLength = 16 := rfl
  rw [pad, List.length_append, List.length_replicate]
  omega

/-- `unpad?` takes off what `pad` has added. -/
theorem unpad?_pad {name : Bytes} (h : name.length ≤ maxTagNameBytes) : unpad? (pad name) = some name := by
  have hmax : maxTagNameBytes = 15 := rfl
  have hblock : blockLength = 16 := rfl
  have hpad : pad name = name ++ List.replicate (blockLength - name.length)
    (UInt8.ofNat (blockLength - name.length)) := rfl
  generalize hmissing : blockLength - name.length = missing at hpad
  have hcode : (UInt8.ofNat missing).toNat = missing := by
    rw [UInt8.toNat_ofNat']
    omega
  have hlast : ((name ++ List.replicate missing (UInt8.ofNat missing)).getLastD 0).toNat = missing := by
    obtain ⟨count, rfl⟩ : ∃ n, missing = n + 1 := ⟨missing - 1, by omega⟩
    rw [List.replicate_succ', ← List.append_assoc, List.getLastD_concat, hcode]
  have hkept : blockLength - missing = name.length := by omega
  unfold unpad?
  dsimp only
  rw [hpad, hlast, hkept, List.drop_left, List.take_left, if_pos]
  refine ⟨by omega, by omega, List.all_eq_true.mpr fun b hb => ?_⟩
  rw [List.eq_of_mem_replicate hb, hcode, beq_self_eq_true]

/-- A block that `unpad?` takes the padding off is the padded name, which has at most `maxTagNameBytes`
bytes. -/
theorem pad_of_unpad? {block name : Bytes} (hlength : block.length = 16) (h : unpad? block = some name) :
    name.length ≤ maxTagNameBytes ∧ pad name = block := by
  have hmax : maxTagNameBytes = 15 := rfl
  have hblock : blockLength = 16 := rfl
  unfold unpad? at h
  dsimp only at h
  generalize (block.getLastD 0).toNat = missing at h
  obtain ⟨⟨hpositive, hle, hall⟩, hname⟩ := Option.ite_none_right_eq_some.mp h
  obtain rfl := Option.some.inj hname
  have hkept : (block.take (blockLength - missing)).length = blockLength - missing := by
    rw [List.length_take]
    omega
  have hpadding : block.drop (blockLength - missing) = List.replicate missing (UInt8.ofNat missing) := by
    rw [List.eq_replicate_iff]
    refine ⟨by rw [List.length_drop]; omega, fun b hb => ?_⟩
    rw [← beq_iff_eq.mp (List.all_eq_true.mp hall b hb), UInt8.ofNat_toNat]
  have hmissing : blockLength - (blockLength - missing) = missing := by omega
  refine ⟨by omega, ?_⟩
  unfold pad
  dsimp only
  rw [hkept, hmissing, ← hpadding, List.take_append_drop]

/-! ## Tags -/

/-- `encrypt` gives a name of at most `maxTagNameBytes` bytes its enciphered block in hexadecimal digits, and
refuses all others. -/
theorem encrypt_eq_ok_iff {cipher : TagCipher} {name tag : String} : cipher.encrypt name = .ok tag ↔
    name.utf8ByteSize ≤ maxTagNameBytes ∧
      Hex.ofCodes (cipher.encryptBytes (Bytes.ofString name)) = tag := by
  unfold encrypt
  dsimp only
  rw [Bytes.length_ofString]
  by_cases hlong : maxTagNameBytes < name.utf8ByteSize
  · rw [if_pos hlong]
    exact ⟨fun herror => (by cases herror), fun h => absurd h.1 (not_le.mpr hlong)⟩
  · rw [if_neg hlong, Except.ok.injEq]
    exact ⟨fun htag => ⟨not_lt.mp hlong, htag⟩, fun h => h.2⟩

/-- `encrypt` gives a tag to every name of at most `maxTagNameBytes` bytes. -/
theorem exists_encrypt (cipher : TagCipher) (name : String) (h : name.utf8ByteSize ≤ maxTagNameBytes) :
    ∃ tag, cipher.encrypt name = .ok tag :=
  ⟨_, encrypt_eq_ok_iff.mpr ⟨h, rfl⟩⟩

/-- A tag is `tagLength` hexadecimal digits, one byte each. -/
theorem exists_digits_of_encrypt {cipher : TagCipher} {name tag : String}
    (h : cipher.encrypt name = .ok tag) : ∃ digits : Bytes, tag = Hex.ofCodes digits ∧
      Bytes.ofString tag = digits ∧ digits.length = tagLength ∧
      ∀ c ∈ digits, (Hex.value? c).isSome = true := by
  obtain ⟨-, rfl⟩ := encrypt_eq_ok_iff.mp h
  obtain ⟨block, hblock⟩ : ∃ block : Block,
      cipher.encryptBytes (Bytes.ofString name) = Hex.encodeBytes block.toBytes := ⟨_, rfl⟩
  have hdigits := Hex.isSome_value?_encodeBytes block.toBytes
  rw [← hblock] at hdigits
  refine ⟨_, rfl, Hex.ofString_ofCodes hdigits, ?_, hdigits⟩
  rw [hblock, Hex.length_encodeBytes, Block.length_toBytes]
  rfl

/-- The name has at most `maxTagNameBytes` bytes, and the plaintext of `block` is the padded name. -/
def Enciphers (cipher : TagCipher) (name : String) (block : Block) : Prop :=
  name.utf8ByteSize ≤ maxTagNameBytes ∧ cipher.plaintext block = pad (Bytes.ofString name)

/-- `encrypt` gives the hexadecimal digits of the block that the name is enciphered to. -/
theorem encrypt_eq_ok_iff_enciphers {cipher : TagCipher} {name tag : String} :
    cipher.encrypt name = .ok tag ↔
      ∃ block, cipher.Enciphers name block ∧ tag = Hex.encode block.toBytes := by
  rw [encrypt_eq_ok_iff]
  constructor
  · rintro ⟨hshort, rfl⟩
    obtain ⟨block, hblock, hpadded⟩ := Block.exists_ofBytes? (length_pad (Bytes.length_ofString name ▸ hshort))
    refine ⟨(block.add cipher.initialization).encipher cipher.roundKeys, ⟨hshort, ?_⟩, ?_⟩
    · rw [plaintext, Block.decipher_encipher, Block.add_add_cancel, hpadded]
    · rw [encryptBytes, hblock, Option.getD_some]
      rfl
  · rintro ⟨block, ⟨hshort, hplain⟩, rfl⟩
    refine ⟨hshort, ?_⟩
    rw [encryptBytes, ← hplain, plaintext, Block.ofBytes?_toBytes, Option.getD_some, Block.add_add_cancel,
      Block.encipher_decipher]
    rfl

/-- `decrypt` reads a text as a name exactly if it writes, in letters of either case, the block that the name is
enciphered to. -/
theorem decrypt_eq_ok_iff_enciphers {cipher : TagCipher} {name tag : String} :
    cipher.decrypt tag = .ok name ↔
      ∃ block, cipher.Enciphers name block ∧ tag.toLower = Hex.encode block.toBytes := by
  have hlength : tagLength = 32 := rfl
  unfold decrypt
  constructor
  · intro h
    split at h
    · cases h
    · rename_i hsize
      split at h
      · cases h
      · rename_i ciphertext hdecode
        split at h
        · cases h
        · rename_i bytes hbytes
          obtain ⟨block, hblock, hunpad⟩ := Option.bind_eq_some_iff.mp hbytes
          obtain ⟨hshort, hpad⟩ := pad_of_unpad? (Block.length_toBytes _) hunpad
          obtain rfl := Block.toBytes_of_ofBytes? hblock
          have hname : Utf8.decode? bytes = some name := by
            rw [mapError_eq_ok_iff] at h
            unfold Utf8.decode at h
            split at h
            · cases h
              assumption
            · cases h
          obtain rfl := Utf8.eq_ofString_of_decode? hname
          refine ⟨block, ⟨Bytes.length_ofString name ▸ hshort, hpad.symm⟩, ?_⟩
          exact Hex.decode_trimmed_eq_ok_iff.mp ⟨by rw [Block.length_toBytes]; omega, hdecode⟩
  · rintro ⟨block, ⟨hshort, hplain⟩, htag⟩
    obtain ⟨hsize, hdecode⟩ := Hex.decode_trimmed_eq_ok_iff.mpr htag
    rw [Block.length_toBytes] at hsize
    rw [if_neg (by omega), hdecode]
    dsimp only
    rw [Block.ofBytes?_toBytes, Option.bind_some, hplain, unpad?_pad (Bytes.length_ofString name ▸ hshort)]
    dsimp only
    rw [Utf8.decode, Utf8.decode?_ofString]
    rfl

/-- `decrypt` reads a text as a name exactly if the text in lower case is the tag of the name. -/
theorem decrypt_eq_ok_iff {cipher : TagCipher} {name tag : String} :
    cipher.decrypt tag = .ok name ↔ cipher.encrypt name = .ok tag.toLower := by
  rw [decrypt_eq_ok_iff_enciphers, encrypt_eq_ok_iff_enciphers]

/-- `decrypt` reads a tag as the name that it was encrypted from. -/
theorem decrypt_encrypt {cipher : TagCipher} {name tag : String} (h : cipher.encrypt name = .ok tag) :
    cipher.decrypt tag = .ok name := by
  obtain ⟨block, hblock, rfl⟩ := encrypt_eq_ok_iff_enciphers.mp h
  exact decrypt_eq_ok_iff_enciphers.mpr ⟨block, hblock, Hex.toLower_encode _⟩

/-- `decrypt` reads names of at most `maxTagNameBytes` bytes only. -/
theorem utf8ByteSize_of_decrypt {cipher : TagCipher} {name tag : String} (h : cipher.decrypt tag = .ok name) :
    name.utf8ByteSize ≤ maxTagNameBytes :=
  (encrypt_eq_ok_iff.mp (decrypt_eq_ok_iff.mp h)).1

/-- `encrypt` gives digits in lower case. -/
theorem isLowerDigit_of_encrypt {cipher : TagCipher} {name tag : String} (h : cipher.encrypt name = .ok tag) :
    ∀ c ∈ Bytes.ofString tag, Hex.isLowerDigit c = true := by
  obtain ⟨block, -, rfl⟩ := encrypt_eq_ok_iff_enciphers.mp h
  rw [Hex.encode, Hex.ofString_ofCodes (Hex.isSome_value?_encodeBytes _)]
  exact Hex.isLowerDigit_encodeBytes _

/-- For every `TagCipher`, `encrypt` gives a tag to exactly the names of at most 15 bytes.  A tag is 32
hexadecimal digits in lower case, `decrypt` reads it as its name, and `encrypt` gives it to no other name.
`decrypt` reads any text as `name` exactly when the text in lower case is the tag of `name`. -/
theorem decrypt_iff_encrypt_toLower (cipher : TagCipher) (name : String) :
    ((∃ tag, cipher.encrypt name = .ok tag) ↔ name.utf8ByteSize ≤ 15) ∧
      (∀ tag, cipher.encrypt name = .ok tag →
        (Bytes.ofString tag).length = 32 ∧ (∀ c ∈ Bytes.ofString tag, Hex.isLowerDigit c = true) ∧
          cipher.decrypt tag = .ok name ∧ ∀ other, cipher.encrypt other = .ok tag → other = name) ∧
      ∀ tag, cipher.decrypt tag = .ok name ↔ cipher.encrypt name = .ok tag.toLower := by
  refine ⟨⟨?_, cipher.exists_encrypt name⟩, fun tag h => ⟨?_, ?_, decrypt_encrypt h, ?_⟩, fun tag => ?_⟩
  · rintro ⟨tag, h⟩
    exact (encrypt_eq_ok_iff.mp h).1
  · obtain ⟨digits, -, hdigits, hlength, -⟩ := exists_digits_of_encrypt h
    exact hdigits ▸ hlength
  · exact isLowerDigit_of_encrypt h
  · intro other hother
    have hread := decrypt_encrypt hother
    rw [decrypt_encrypt h] at hread
    exact (Except.ok.inj hread).symm
  · exact decrypt_eq_ok_iff

/-- `builtIn` gives `NodeMessage`, which has 11 bytes, a tag that `decrypt` reads as `NodeMessage`. -/
theorem decrypt_iff_encrypt_toLower_nodeMessage : ∃ tag, builtIn.encrypt "NodeMessage" = .ok tag ∧
    (Bytes.ofString tag).length = 32 ∧ builtIn.decrypt tag = .ok "NodeMessage" ∧
    ∀ other, builtIn.encrypt other = .ok tag → other = "NodeMessage" := by
  obtain ⟨hsome, htag, -⟩ := decrypt_iff_encrypt_toLower builtIn "NodeMessage"
  obtain ⟨tag, h⟩ := hsome.mpr (by decide)
  obtain ⟨hlength, -, hread, honly⟩ := htag tag h
  exact ⟨tag, h, hlength, hread, honly⟩

end TagCipher

end Tagwire
