import Tagwire.Cipher.Block

/-!
# Deciphering and enciphering undo each other

Each step of a round is undone by its inverse: the substitution byte by byte, the moving of the rows by
moving them back, the mixing of a column by mixing it three times more, and the adding of a key by adding
it again.  So a round is undone, and the rounds are undone in the opposite order.  The inverse of a step is
undone by the step in turn, so that every block is what some block is enciphered to.
-/

set_option autoImplicit false

namespace Tagwire

/-! ## Bytes -/

/-- What holds of `UInt8.ofNat n` for all `n` below 256 holds of every byte. -/
theorem forall_byte {p : UInt8 → Prop} (h : ∀ n : Fin 256, p (UInt8.ofNat n.val)) (b : UInt8) : p b := by
  have hb := h ⟨b.toNat, b.toNat_lt⟩
  rwa [UInt8.ofNat_toNat] at hb

/-- The entry of a byte in a table, looked up in the row of its upper digit. -/
def tableEntry (table : Array UInt8) (b : UInt8) : UInt8 :=
  (table.toList.drop (16 * (b.toNat / 16)))[b.toNat % 16]?.getD 0

/-- An entry of a table is in its row. -/
theorem getD_eq_tableEntry (table : Array UInt8) (b : UInt8) : table.getD b.toNat 0 = tableEntry table b := by
  rw [tableEntry, List.getElem?_drop, Nat.div_add_mod, Array.getElem?_toList, Array.getD_eq_getD_getElem?]

/-- `unsubstitute` undoes `substitute` on every byte, by the tables. -/
theorem unsubstitute_substitute (b : UInt8) : unsubstitute (substitute b) = b := by
  rw [unsubstitute, substitute, getD_eq_tableEntry, getD_eq_tableEntry]
  exact forall_byte (p := fun b => tableEntry inverseSubstitutionTable (tableEntry substitutionTable b) = b)
    (by decide +kernel) b

/-- `substitute` undoes `unsubstitute` on every byte, by the tables. -/
theorem substitute_unsubstitute (b : UInt8) : substitute (unsubstitute b) = b := by
  rw [unsubstitute, substitute, getD_eq_tableEntry, getD_eq_tableEntry]
  exact forall_byte (p := fun b => tableEntry substitutionTable (tableEntry inverseSubstitutionTable b) = b)
    (by decide +kernel) b

/-- Adding a byte twice changes nothing. -/
theorem xor_xor_cancel (a b : UInt8) : a ^^^ b ^^^ b = a := by
  rw [UInt8.xor_assoc, UInt8.xor_self, UInt8.xor_zero]

/-- A byte that is added twice in front cancels. -/
theorem xor_cancel_left (a b : UInt8) : a ^^^ (a ^^^ b) = b := by
  rw [← UInt8.xor_assoc, UInt8.xor_self, UInt8.zero_xor]

/-- Bytes can be added in any order. -/
theorem xor_left_comm (a b c : UInt8) : a ^^^ (b ^^^ c) = b ^^^ (a ^^^ c) := by
  rw [← UInt8.xor_assoc, UInt8.xor_comm a b, UInt8.xor_assoc]

/-- `double` is additive. -/
theorem double_xor (a b : UInt8) : double (a ^^^ b) = double a ^^^ double b := by
  have hlow : ∀ c : UInt8, c < 0x80 ↔ c &&& 0x80 = 0 := forall_byte (by decide +kernel)
  have hhigh : ∀ c : UInt8, c &&& 0x80 = 0 ∨ c &&& 0x80 = 0x80 := forall_byte (by decide +kernel)
  have hcarry : (if a ^^^ b < 0x80 then 0 else 0x1b) =
      (if a < 0x80 then 0 else 0x1b) ^^^ (if b < 0x80 then (0 : UInt8) else 0x1b) := by
    have hsum : (a ^^^ b) &&& 0x80 = (a &&& 0x80) ^^^ (b &&& 0x80) := by
      rw [← UInt8.toBitVec_inj]
      ext i
      simp [Bool.and_xor_distrib_right]
    simp only [hlow, hsum]
    rcases hhigh a with ha | ha <;> rcases hhigh b with hb | hb <;> rw [ha, hb] <;> decide
  unfold double
  rw [UInt8.shiftLeft_xor, hcarry]
  ac_rfl

namespace Column

/-- Adding a column twice changes nothing. -/
theorem add_add_cancel (x y : Column) : (x.add y).add y = x := by
  simp only [add, xor_xor_cancel]

/-- `mix` twice, in closed form: the square of the mixing polynomial has two terms only. -/
theorem mix_mix (x : Column) : x.mix.mix =
    ⟨x.b0 ^^^ double (double (x.b0 ^^^ x.b2)), x.b1 ^^^ double (double (x.b1 ^^^ x.b3)),
     x.b2 ^^^ double (double (x.b2 ^^^ x.b0)), x.b3 ^^^ double (double (x.b3 ^^^ x.b1))⟩ := by
  simp only [mix, double_xor, mk.injEq]
  refine ⟨?_, ?_, ?_, ?_⟩ <;>
    simp only [UInt8.xor_comm, xor_left_comm, UInt8.xor_assoc, xor_cancel_left, UInt8.xor_self,
      UInt8.xor_zero, UInt8.zero_xor]

/-- `unmix`, which is `mix` three times more, undoes `mix`. -/
theorem unmix_mix (x : Column) : x.mix.unmix = x := by
  show x.mix.mix.mix.mix = x
  rw [mix_mix, mix_mix]
  simp only [double_xor]
  simp only [UInt8.xor_comm, xor_left_comm, UInt8.xor_self, UInt8.xor_zero, UInt8.zero_xor]

/-- `mix` undoes `unmix`. -/
theorem mix_unmix (x : Column) : x.unmix.mix = x := unmix_mix x

/-- The inverse substitution of a column undoes its substitution. -/
theorem map_unsubstitute_map_substitute (x : Column) : (x.map substitute).map unsubstitute = x := by
  simp only [map, unsubstitute_substitute]

/-- The substitution of a column undoes its inverse substitution. -/
theorem map_substitute_map_unsubstitute (x : Column) : (x.map unsubstitute).map substitute = x := by
  simp only [map, substitute_unsubstitute]

end Column

/-! ## Blocks -/

namespace Block

/-- Adding a block twice changes nothing. -/
theorem add_add_cancel (x y : Block) : (x.add y).add y = x := by
  simp only [add, Column.add_add_cancel]

/-- The inverse substitution of a block undoes its substitution. -/
theorem unsubstitute_substitute (x : Block) : x.substitute.unsubstitute = x := by
  simp only [substitute, unsubstitute, map, Column.map_unsubstitute_map_substitute]

/-- The substitution of a block undoes its inverse substitution. -/
theorem substitute_unsubstitute (x : Block) : x.unsubstitute.substitute = x := by
  simp only [substitute, unsubstitute, map, Column.map_substitute_map_unsubstitute]

/-- Moving the rows back undoes moving them. -/
theorem unshiftRows_shiftRows (x : Block) : x.shiftRows.unshiftRows = x := rfl

/-- Moving the rows undoes moving them back. -/
theorem shiftRows_unshiftRows (x : Block) : x.unshiftRows.shiftRows = x := rfl

/-- The inverse mixing of a block undoes its mixing. -/
theorem unmix_mix (x : Block) : x.mix.unmix = x := by
  simp only [mix, unmix, map, Column.unmix_mix]

/-- The mixing of a block undoes its inverse mixing. -/
theorem mix_unmix (x : Block) : x.unmix.mix = x := by
  simp only [mix, unmix, map, Column.mix_unmix]

/-- `unround` undoes `round` under the same key. -/
theorem unround_round (x key : Block) : (x.round key).unround key = x := by
  rw [round, unround, add_add_cancel, unmix_mix, unshiftRows_shiftRows, unsubstitute_substitute]

/-- `round` undoes `unround` under the same key. -/
theorem round_unround (x key : Block) : (x.unround key).round key = x := by
  rw [round, unround, substitute_unsubstitute, shiftRows_unshiftRows, mix_unmix, add_add_cancel]

/-- `unround` from the last key to the first undoes `round` from the first to the last. -/
theorem foldr_unround_foldl_round (keys : List Block) (x : Block) :
    keys.foldr (fun key y => unround y key) (keys.foldl round x) = x := by
  induction keys generalizing x with
  | nil => rfl
  | cons key keys ih => rw [List.foldl_cons, List.foldr_cons, ih, unround_round]

/-- `round` from the first key to the last undoes `unround` from the last to the first. -/
theorem foldl_round_foldr_unround (keys : List Block) (x : Block) :
    keys.foldl round (keys.foldr (fun key y => unround y key) x) = x := by
  induction keys with
  | nil => rfl
  | cons key keys ih => rw [List.foldr_cons, List.foldl_cons, round_unround, ih]

/-- `decipher` undoes `encipher`, whatever the round keys are. -/
theorem decipher_encipher (keys : RoundKeys) (x : Block) : (x.encipher keys).decipher keys = x := by
  rw [encipher, decipher, add_add_cancel, unshiftRows_shiftRows, unsubstitute_substitute,
    foldr_unround_foldl_round, add_add_cancel]

/-- `encipher` undoes `decipher`, whatever the round keys are. -/
theorem encipher_decipher (keys : RoundKeys) (x : Block) : (x.decipher keys).encipher keys = x := by
  rw [encipher, decipher, add_add_cancel, foldl_round_foldr_unround, substitute_unsubstitute,
    shiftRows_unshiftRows, add_add_cancel]

/-- `ofBytes?` makes a block of any 16 bytes. -/
theorem exists_ofBytes? {bytes : Bytes} (h : bytes.length = 16) :
    ∃ x, ofBytes? bytes = some x ∧ x.toBytes = bytes := by
  match bytes, h with
  | [a0, a1, a2, a3, b0, b1, b2, b3, c0, c1, c2, c3, d0, d1, d2, d3], _ =>
    exact ⟨_, rfl, rfl⟩

/-- `toBytes` gives the bytes back that `ofBytes?` has made a block of. -/
theorem toBytes_of_ofBytes? {bytes : Bytes} {x : Block} (h : ofBytes? bytes = some x) : x.toBytes = bytes := by
  unfold ofBytes? at h
  split at h <;> cases h
  rfl

/-- `ofBytes?` makes a block of its own bytes. -/
theorem ofBytes?_toBytes (x : Block) : ofBytes? x.toBytes = some x := rfl

/-- `toBytes` gives 16 bytes. -/
theorem length_toBytes (x : Block) : x.toBytes.length = 16 := rfl

end Block

end Tagwire
