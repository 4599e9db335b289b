import Tagwire.Proofs.Wire.Writing

/-!
# What a message begins with

A message lists its fields in the order of their numbers, so its bytes begin with the first field if this is
set.  If it is not, the bytes are empty or begin with the key of a later field, and such a key never begins
with the byte that is the whole key of a first field with a length.
-/

set_option autoImplicit false

namespace Tagwire

/-- The field is of the scalar kind `string` and single. -/
structure MessageField.IsText (field : MessageField) : Prop where
  type : field.type = .scalar .string
  shape : field.shape = .single

/-- The first byte of a varint below 128 is the natural itself and the only byte. -/
theorem Varint.exists_encode_eq_cons (n : Nat) :
    ∃ b rest, encode n = b :: rest ∧ (b.toNat < 128 → b.toNat = n ∧ rest = []) := by
  rw [encode]
  split
  · rename_i hn
    refine ⟨_, _, rfl, fun _ => ⟨?_, rfl⟩⟩
    rw [UInt8.toNat_ofNat']
    omega
  · refine ⟨_, _, rfl, fun hlt => ?_⟩
    rw [UInt8.toNat_ofNat'] at hlt
    omega

/-- The first byte, if any, is not 0x0A, the key of field number 1 with a length. -/
def SkipsFirst (bytes : Bytes) : Prop := bytes.head? ≠ some 0x0A

namespace SkipsFirst

/-- No bytes skip the first field. -/
theorem nil : SkipsFirst [] := by
  intro h
  cases h

/-- Bytes that skip the first field do so with others behind them that skip it too. -/
theorem append {a b : Bytes} (ha : SkipsFirst a) (hb : SkipsFirst b) : SkipsFirst (a ++ b) := by
  cases a with
  | nil => exact hb
  | cons first rest => exact ha

/-- Bytes that begin with the key of a number other than 1 skip the first field. -/
theorem key {f : MessageField} (hf : f.number ≠ 1) (wire : WireType) (rest : Bytes) :
    SkipsFirst (f.key wire ++ rest) := by
  obtain ⟨b, more, hkey, hsmall⟩ := Varint.exists_encode_eq_cons (8 * f.number + wire.code)
  rw [MessageField.key, WireKey.encode, hkey]
  intro hhead
  obtain rfl : b = 0x0A := Option.some.inj hhead
  have hnumber := (hsmall (by decide)).1
  have hcode := wire.code_lt
  change 10 = 8 * f.number + wire.code at hnumber
  omega

end SkipsFirst

namespace Schema

variable {schema : Schema} {f : MessageField}

/-- The entries of a map under a number other than 1 skip the first field. -/
theorem skipsFirst_encodeEntries (hf : f.number ≠ 1) (keyField valueField : Option MessageField)
    (entries : List (MapKey × Value)) : SkipsFirst (schema.encodeEntries f keyField valueField entries) := by
  cases entries with
  | nil =>
    rw [encodeEntries]
    exact .nil
  | cons e rest =>
    rw [encodeEntries.eq_def]
    dsimp only
    rw [List.append_assoc]
    exact .key hf _ _

mutual

/-- A field with a number other than 1 skips the first field. -/
theorem skipsFirst_encodeField (hf : f.number ≠ 1) :
    (value : Value) → SkipsFirst (schema.encodeField f value)
  | .message fields => by
    rw [encodeField]
    split
    · exact .nil
    · split
      · rw [MessageField.encodeBody]
        split
        · rw [List.append_assoc]
          exact .key hf _ _
        · exact .key hf _ _
      · exact .nil
  | .list items => by
    rw [encodeField]
    split
    · exact .nil
    · split
      · rw [MessageField.encodePacked]
        split
        · exact .key hf _ _
        · exact .nil
      · exact skipsFirst_encodeItems hf items
  | .map entries => by
    rw [encodeField]
    split
    · exact .nil
    · split
      · exact skipsFirst_encodeEntries hf _ _ entries
      · exact .nil
  | .bool _ | .int _ | .float _ | .double _ | .string _ | .bytes _ => by
    rw [encodeField]
    · split
      · exact .nil
      · rw [MessageField.encodeScalar]
        split
        · exact .key hf _ _
        · exact .nil
    all_goals simp

/-- The items of a list under a number other than 1 skip the first field. -/
theorem skipsFirst_encodeItems (hf : f.number ≠ 1) :
    (items : List Value) → SkipsFirst (schema.encodeItems f items)
  | [] => by
    rw [encodeItems]
    exact .nil
  | item :: rest => by
    rw [encodeItems]
    exact (skipsFirst_encodeField hf item).append (skipsFirst_encodeItems hf rest)

end

/-- The bytes of a message without number 1 skip the first field. -/
theorem skipsFirst_encode {type : MessageType} {values : FieldValues} (h : ∀ e ∈ values, e.1 ≠ 1) :
    SkipsFirst (schema.encode type values) := by
  induction values with
  | nil =>
    rw [encode]
    exact .nil
  | cons e rest ih =>
    obtain ⟨hhead, hrest⟩ := List.forall_mem_cons.mp h
    rw [encode]
    refine SkipsFirst.append ?_ (ih hrest)
    split
    · rename_i g hg
      have hnumber : g.number = e.1 := MessageType.number_of_field? hg
      exact skipsFirst_encodeField (hnumber ▸ hhead) e.2
    · exact .nil

/-- The bytes of a message are those of its field number 1, if set, and then bytes that skip the first field. -/
theorem exists_encode_eq (schema : Schema) {type : MessageType} (hpos : ∀ g ∈ type.fields, 0 < g.number)
    (hf : type.field? 1 = some f) {values : FieldValues} (hs : Assoc.IsSorted values) :
    ∃ rest, SkipsFirst rest ∧ schema.encode type values =
      (match FieldValues.get? values 1 with
        | some value => schema.encodeField f value
        | none => []) ++ rest := by
  induction values with
  | nil =>
    refine ⟨[], .nil, ?_⟩
    rw [encode]
    rfl
  | cons e rest ih =>
    obtain ⟨number, value⟩ := e
    obtain ⟨hlater, hrest⟩ := List.pairwise_cons.mp hs
    have hgreater : ∀ e ∈ rest, number < e.1 := fun e he => hlater _ (List.mem_map_of_mem he)
    rw [FieldValues.get?_eq, Assoc.get?_cons]
    dsimp only
    rcases Nat.lt_trichotomy number 1 with hlt | rfl | hgt
    · -- No field has the number zero, so that nothing is written for it.
      obtain rfl : number = 0 := by omega
      have hnone : type.field? 0 = none := by
        rw [MessageType.field?, List.find?_eq_none]
        intro g hg hzero
        have := hpos g hg
        have := beq_iff_eq.mp hzero
        omega
      rw [if_neg Nat.zero_ne_one, ← FieldValues.get?_eq, encode, hnone, List.nil_append]
      exact ih hrest
    · rw [if_pos rfl, encode, hf]
      exact ⟨_, skipsFirst_encode fun e he => (hgreater e he).ne', rfl⟩
    · have habsent : Assoc.get? rest 1 = none := by
        rw [Assoc.get?_eq_none_iff]
        intro hmem
        obtain ⟨e, he, hone⟩ := List.mem_map.mp hmem
        have := hgreater e he
        omega
      rw [if_neg hgt.ne', habsent]
      refine ⟨_, skipsFirst_encode fun e he => ?_, (List.nil_append _).symm⟩
      rcases List.mem_cons.mp he with rfl | he
      · exact hgt.ne'
      · have := hgreater e he
        omega

end Schema

end Tagwire
