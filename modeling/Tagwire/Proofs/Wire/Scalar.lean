import Tagwire.Mapping.Scalar
import Tagwire.Proofs.Text
import Tagwire.Wire.Scalar

/-!
# Scalars come back from the wire

What is written is read again, whatever stands behind it: naturals of sixty-four bits, bytes behind their
length, keys, and the values of every scalar kind.  The proofs follow the writers; a reader is only looked
at where it meets what a writer left.
-/

set_option autoImplicit false

namespace Tagwire

/-! ## Variable-length integers -/

namespace Varint

/-- A natural below `128 ^ (count + 1)` is read from its varint with `count + 1` bytes. -/
theorem read?_encode (count n : Nat) (h : n < 128 ^ (count + 1)) (rest : Bytes) :
    read? (count + 1) (encode n ++ rest) = some (n, rest) := by
  induction count generalizing n with
  | zero =>
    have hn : n < 128 := by simpa using h
    rw [encode, if_pos hn, List.singleton_append, read?]
    simp [Nat.mod_eq_of_lt (Nat.lt_trans hn (by decide : 128 < 256)), hn]
  | succ count ih =>
    rw [encode]
    by_cases hn : n < 128
    · rw [if_pos hn, List.singleton_append, read?]
      simp [Nat.mod_eq_of_lt (Nat.lt_trans hn (by decide : 128 < 256)), hn]
    · have hhigh : n / 128 < 128 ^ (count + 1) := by
        rw [Nat.div_lt_iff_lt_mul (by decide)]
        rwa [pow_succ] at h
      have hbyte : (UInt8.ofNat (n % 128 + 128)).toNat = n % 128 + 128 := by
        rw [UInt8.toNat_ofNat']
        omega
      rw [if_neg hn, List.cons_append, read?, hbyte, if_neg (by omega), ih _ hhigh]
      simp only [Option.map_some, Option.some.injEq, Prod.mk.injEq, and_true]
      omega

/-- A natural below `2 ^ 64` is decoded from its varint. -/
theorem decode?_encode {n : Nat} (h : n < 2 ^ 64) (rest : Bytes) :
    decode? (encode n ++ rest) = some (n, rest) := by
  have hten : n < 128 ^ 10 := h.trans (by decide)
  rw [decode?, read?_encode 9 n hten, Option.bind_some]
  exact if_pos h

/-- A varint has at least one byte. -/
theorem encode_ne_nil (n : Nat) : encode n ≠ [] := by
  rw [encode]
  split <;> simp

/-- Reading a varint with `read?` leaves fewer bytes than there were. -/
theorem length_lt_of_read? {count n : Nat} {bytes rest : Bytes} (h : read? count bytes = some (n, rest)) :
    rest.length < bytes.length := by
  induction count generalizing n bytes with
  | zero => cases h
  | succ count ih =>
    cases bytes with
    | nil => cases h
    | cons b bytes =>
      rw [read?] at h
      split at h
      · cases h
        simp
      · obtain ⟨⟨high, rest'⟩, hread, hresult⟩ := Option.map_eq_some_iff.mp h
        cases hresult
        exact (ih hread).trans (by simp)

/-- Decoding a varint leaves fewer bytes than there were. -/
theorem length_lt_of_decode? {n : Nat} {bytes rest : Bytes} (h : decode? bytes = some (n, rest)) :
    rest.length < bytes.length := by
  unfold decode? at h
  obtain ⟨⟨m, rest'⟩, hread, hresult⟩ := Option.bind_eq_some_iff.mp h
  dsimp only at hresult
  split at hresult
  · cases hresult
    exact length_lt_of_read? hread
  · cases hresult

/-- A varint that is decoded is below `2 ^ 64`. -/
theorem lt_of_decode? {n : Nat} {bytes rest : Bytes} (h : decode? bytes = some (n, rest)) :
    n < 2 ^ 64 := by
  unfold decode? at h
  obtain ⟨⟨m, rest'⟩, -, hresult⟩ := Option.bind_eq_some_iff.mp h
  dsimp only at hresult
  split at hresult
  · rename_i hlt
    cases hresult
    exact hlt
  · cases hresult

end Varint

/-! ## Lengths -/

/-- Splitting off as many bytes as `body` has gives `body`. -/
theorem splitBytes?_append (body rest : Bytes) :
    splitBytes? body.length (body ++ rest) = some (body, rest) := by
  simp [splitBytes?]

/-- Splitting off bytes leaves no more than there were. -/
theorem length_le_of_splitBytes? {count : Nat} {bytes body rest : Bytes}
    (h : splitBytes? count bytes = some (body, rest)) : rest.length ≤ bytes.length := by
  unfold splitBytes? at h
  split at h
  · cases h
    simp
  · cases h

/-- The bytes that are split off are `count` many. -/
theorem length_eq_of_splitBytes? {count : Nat} {bytes body rest : Bytes}
    (h : splitBytes? count bytes = some (body, rest)) : body.length = count := by
  unfold splitBytes? at h
  split at h
  · rename_i hcount
    cases h
    rw [List.length_take]
    omega
  · cases h

/-- A body below `2 ^ 64` bytes is read from behind its length. -/
theorem readLengthPrefixed?_append {body : Bytes} (h : body.length < 2 ^ 64) (rest : Bytes) :
    readLengthPrefixed? (lengthPrefixed body ++ rest) = some (body, rest) := by
  rw [readLengthPrefixed?, lengthPrefixed, List.append_assoc, Varint.decode?_encode h, Option.bind_some]
  exact splitBytes?_append body rest

/-- Reading a body behind its length leaves no more bytes than there were. -/
theorem length_le_of_readLengthPrefixed? {bytes body rest : Bytes}
    (h : readLengthPrefixed? bytes = some (body, rest)) : rest.length ≤ bytes.length := by
  unfold readLengthPrefixed? at h
  obtain ⟨⟨length, rest'⟩, hlength, hbody⟩ := Option.bind_eq_some_iff.mp h
  exact (length_le_of_splitBytes? hbody).trans (Varint.length_lt_of_decode? hlength).le

/-- A body is shorter alone than behind its length. -/
theorem length_lt_lengthPrefixed (body : Bytes) : body.length < (lengthPrefixed body).length := by
  have := List.length_pos_iff.mpr (Varint.encode_ne_nil body.length)
  rw [lengthPrefixed, List.length_append]
  omega

/-! ## Keys -/

namespace WireType

/-- The code of a wire type stands for this wire type. -/
theorem ofCode?_code (type : WireType) : ofCode? type.code = some type := by
  cases type <;> rfl

/-- The code of a wire type is below 8. -/
theorem code_lt (type : WireType) : type.code < 8 := by
  cases type <;> decide

end WireType

namespace WireKey

/-- A key with a positive number below `2 ^ 29` is decoded from its bytes. -/
theorem decode?_encode (key : WireKey) (hpos : 0 < key.number) (hlt : key.number < 2 ^ 29)
    (rest : Bytes) : decode? (key.encode ++ rest) = some (key, rest) := by
  have hcode := key.type.code_lt
  have hbound : 8 * key.number + key.type.code < 2 ^ 32 := by omega
  have hmod : (8 * key.number + key.type.code) % 8 = key.type.code := by omega
  have hdiv : (8 * key.number + key.type.code) / 8 = key.number := by omega
  rw [decode?, encode, Varint.decode?_encode (hbound.trans (by decide))]
  simp only [Option.bind_eq_bind, Option.bind_some]
  rw [if_pos ⟨hbound, by omega⟩, hmod, hdiv, WireType.ofCode?_code]
  rfl

/-- The key of number 1 with a length is the byte 0x0A. -/
theorem encode_first : encode ⟨1, .lengthDelimited⟩ = [0x0A] := by
  show Varint.encode 10 = _
  rw [Varint.encode, if_pos (by decide)]
  rfl

/-- Decoding a key leaves fewer bytes than there were. -/
theorem length_lt_of_decode? {key : WireKey} {bytes rest : Bytes}
    (h : decode? bytes = some (key, rest)) : rest.length < bytes.length := by
  unfold decode? at h
  simp only [Option.bind_eq_bind, Option.bind_eq_some_iff] at h
  obtain ⟨⟨n, rest'⟩, hn, hresult⟩ := h
  split at hresult
  · simp only [Option.bind_eq_some_iff, Option.pure_def, Option.some.injEq, Prod.mk.injEq] at hresult
    obtain ⟨type, -, -, rfl⟩ := hresult
    exact Varint.length_lt_of_decode? hn
  · cases hresult

end WireKey

/-! ## Fixed widths -/

namespace Bytes

/-- The little-endian bytes of a natural are `count` many. -/
theorem length_littleEndian (n count : Nat) : (littleEndian n count).length = count := by
  induction count generalizing n with
  | zero => rfl
  | succ count ih => rw [littleEndian, List.length_cons, ih]

/-- The value of `count` little-endian bytes of `n` is `n % 256 ^ count`. -/
theorem littleEndianValue_littleEndian (n count : Nat) :
    littleEndianValue (littleEndian n count) = n % 256 ^ count := by
  induction count generalizing n with
  | zero => simp [littleEndian, littleEndianValue, Nat.mod_one]
  | succ count ih =>
    have hlow : (UInt8.ofNat n).toNat = n % 256 := UInt8.toNat_ofNat'
    rw [littleEndian, littleEndianValue, ih, hlow, pow_succ, Nat.mul_comm (256 ^ count), Nat.mod_mul]

/-- The value of little-endian bytes is below 256 to the power of their number. -/
theorem littleEndianValue_lt (bytes : Bytes) : littleEndianValue bytes < 256 ^ bytes.length := by
  induction bytes with
  | nil => exact Nat.one_pos
  | cons b rest ih =>
    have hb := b.toNat_lt
    rw [littleEndianValue, List.length_cons, pow_succ]
    omega

end Bytes

/-- Splitting off `count` bytes gives the little-endian bytes of a natural before the others. -/
theorem splitBytes?_littleEndian (n count : Nat) (rest : Bytes) :
    splitBytes? count (Bytes.littleEndian n count ++ rest) = some (Bytes.littleEndian n count, rest) := by
  have hsplit := splitBytes?_append (Bytes.littleEndian n count) rest
  rwa [Bytes.length_littleEndian] at hsplit

/-! ## Integers -/

/-- The two's complement of an integer is below `2 ^ 64`. -/
theorem twosComplement_lt (n : Int) : twosComplement n < 2 ^ 64 := by
  unfold twosComplement
  omega

/-- An integer between `-2 ^ (width - 1)` and `2 ^ (width - 1) - 1` is `signedOfBits` of every natural with the
same `width` low bits. -/
theorem signedOfBits_eq {width m : Nat} {n : Int} (hm : (m : Int) % (2 ^ width : Nat) = n % (2 ^ width : Nat))
    (h : -((2 ^ width : Nat) : Int) ≤ 2 * n ∧ 2 * n < (2 ^ width : Nat)) : signedOfBits width m = n := by
  unfold signedOfBits Int.bmod
  dsimp only
  rw [hm]
  generalize (2 ^ width : Nat) = w at h
  by_cases hn : 0 ≤ n
  · rw [Int.emod_eq_of_lt hn (by omega), if_pos (by omega)]
  · have hmod : n % (w : Int) = n + w := by
      rw [← Int.add_emod_right, Int.emod_eq_of_lt (by omega) (by omega)]
    rw [hmod, if_neg (by omega)]
    omega

/-- The integer `signedOfBits width n` is between `-2 ^ (width - 1)` and `2 ^ (width - 1) - 1`. -/
theorem signedOfBits_bounds (width n : Nat) (h : 0 < width) :
    -(2 ^ (width - 1) : Nat) ≤ signedOfBits width n ∧
      signedOfBits width n < (2 ^ (width - 1) : Nat) := by
  obtain ⟨width, rfl⟩ : ∃ w, width = w + 1 := ⟨width - 1, by omega⟩
  have hpos : 0 < 2 ^ (width + 1) := Nat.two_pow_pos _
  have hlow := Int.le_bmod (x := n) hpos
  have hhigh := Int.bmod_lt (x := n) hpos
  unfold signedOfBits
  rw [Nat.add_sub_cancel]
  rw [pow_succ] at hlow hhigh hpos ⊢
  omega

/-- The integer `unzigzag n` is between `-bound` and `bound - 1`, if `n` is below `2 * bound`. -/
theorem unzigzag_bounds {n : Nat} (bound : Nat) (h : n < 2 * bound) :
    -(bound : Int) ≤ unzigzag n ∧ unzigzag n < bound := by
  unfold unzigzag
  split <;> omega

/-- The integer of `zigzag n` is `n`. -/
theorem unzigzag_zigzag (n : Int) : unzigzag (zigzag n) = n := by
  unfold unzigzag zigzag
  split <;> split <;> omega

/-- The natural `zigzag n` is below `2 * bound`, if `n` is between `-bound` and `bound - 1`. -/
theorem zigzag_lt {n : Int} (bound : Nat) (h : -(bound : Int) ≤ n ∧ n ≤ bound - 1) :
    zigzag n < 2 * bound := by
  unfold zigzag
  split <;> omega

/-! ## Scalars -/

namespace Scalar

/-- The value is one of the kind: an integer in its range, or a float, a flag, a text or bytes, as the kind has
it. -/
def Holds (kind : Scalar) (value : Value) : Prop :=
  match kind.integerRange? with
  | some (low, high) => ∃ n, value = .int n ∧ low ≤ n ∧ n ≤ high
  | none =>
    match kind with
    | double => ∃ x, value = .double x
    | float => ∃ x, value = .float x
    | boolean => ∃ b, value = .bool b
    | string => ∃ s, value = .string s
    | _ => ∃ b, value = .bytes b

/-- The cases of `Holds`: an integer in the range of an integer kind, or a value of one of the other kinds. -/
@[elab_as_elim]
theorem Holds.elim {motive : (kind : Scalar) → (value : Value) → kind.Holds value → Prop}
    (integer : ∀ {kind : Scalar} {range : Int × Int} {n : Int} (_ : kind.integerRange? = some range)
      (_ : range.1 ≤ n ∧ n ≤ range.2) (h : kind.Holds (.int n)), motive kind (.int n) h)
    (double : ∀ x h, motive .double (.double x) h) (float : ∀ x h, motive .float (.float x) h)
    (boolean : ∀ b h, motive .boolean (.bool b) h) (string : ∀ s h, motive .string (.string s) h)
    (bytes : ∀ b h, motive .bytes (.bytes b) h) {kind : Scalar} {value : Value} (h : kind.Holds value) :
    motive kind value h := by
  have hcases := h
  unfold Holds at hcases
  cases hrange : kind.integerRange? with
  | some range =>
    rw [hrange] at hcases
    obtain ⟨n, rfl, hn⟩ := hcases
    exact integer hrange hn h
  | none =>
    rw [hrange] at hcases
    cases kind with
    | double =>
      obtain ⟨x, rfl⟩ := hcases
      exact double x h
    | float =>
      obtain ⟨x, rfl⟩ := hcases
      exact float x h
    | boolean =>
      obtain ⟨b, rfl⟩ := hcases
      exact boolean b h
    | string =>
      obtain ⟨s, rfl⟩ := hcases
      exact string s h
    | bytes =>
      obtain ⟨b, rfl⟩ := hcases
      exact bytes b h
    | int32 | int64 | uint32 | uint64 | sint32 | sint64 | fixed32 | fixed64 | sfixed32 | sfixed64 =>
      cases hrange

/-- A value of a kind with wire type `varint` is decoded from the varint of its natural. -/
theorem decode?_varint {kind : Scalar} (hk : kind.wireType = .varint) {n : Nat} (hn : n < 2 ^ 64)
    (rest : Bytes) : kind.decode? (Varint.encode n ++ rest) = some (kind.ofVarint n, rest) := by
  unfold decode?
  rw [hk]
  dsimp only
  rw [Varint.decode?_encode hn, Option.map_some]

/-- A value of a kind with wire type `fixed32` is decoded from 4 little-endian bytes. -/
theorem decode?_fixed32 {kind : Scalar} (hk : kind.wireType = .fixed32) (n : Nat) (rest : Bytes) :
    kind.decode? (Bytes.littleEndian n 4 ++ rest) = some (kind.ofFixed (n % 2 ^ 32), rest) := by
  unfold decode?
  rw [hk]
  dsimp only
  rw [splitBytes?_littleEndian, Option.map_some]
  dsimp only
  rw [Bytes.littleEndianValue_littleEndian]

/-- A value of a kind with wire type `fixed64` is decoded from 8 little-endian bytes. -/
theorem decode?_fixed64 {kind : Scalar} (hk : kind.wireType = .fixed64) (n : Nat) (rest : Bytes) :
    kind.decode? (Bytes.littleEndian n 8 ++ rest) = some (kind.ofFixed (n % 2 ^ 64), rest) := by
  unfold decode?
  rw [hk]
  dsimp only
  rw [splitBytes?_littleEndian, Option.map_some]
  dsimp only
  rw [Bytes.littleEndianValue_littleEndian]

/-- An integer in the range of its kind is decoded from its bytes. -/
theorem decode?_encode_int {kind : Scalar} {low high n : Int} (hk : kind.integerRange? = some (low, high))
    (hn : low ≤ n ∧ n ≤ high) (rest : Bytes) :
    kind.decode? (kind.encode (.int n) ++ rest) = some (.int n, rest) := by
  have hbound := twosComplement_lt n
  have hcomplement : twosComplement n = (n % 2 ^ 64).toNat := rfl
  cases kind <;> cases hk
  case int32 =>
    refine (decode?_varint rfl hbound rest).trans ?_
    rw [ofVarint, signedOfBits_eq (n := n) (by omega) (by omega)]
  case int64 =>
    refine (decode?_varint rfl hbound rest).trans ?_
    rw [ofVarint, signedOfBits_eq (n := n) (by omega) (by omega)]
  case uint32 =>
    refine (decode?_varint rfl hbound rest).trans ?_
    have hvalue : ((twosComplement n % 2 ^ 32 : Nat) : Int) = n := by omega
    rw [ofVarint, hvalue]
  case uint64 =>
    refine (decode?_varint rfl hbound rest).trans ?_
    have hvalue : (twosComplement n : Int) = n := by omega
    exact congrArg (fun m => some (Value.int m, rest)) hvalue
  case sint32 =>
    have hzigzag : zigzag n < 2 ^ 32 := zigzag_lt (2 ^ 31) (by omega)
    refine (decode?_varint rfl (hzigzag.trans (by decide)) rest).trans ?_
    rw [ofVarint, Nat.mod_eq_of_lt hzigzag, unzigzag_zigzag]
  case sint64 =>
    have hzigzag : zigzag n < 2 ^ 64 := zigzag_lt (2 ^ 63) (by omega)
    refine (decode?_varint rfl hzigzag rest).trans ?_
    rw [ofVarint, unzigzag_zigzag]
  case fixed32 =>
    refine (decode?_fixed32 rfl _ rest).trans ?_
    have hvalue : ((twosComplement n % 2 ^ 32 : Nat) : Int) = n := by omega
    exact congrArg (fun m => some (Value.int m, rest)) hvalue
  case fixed64 =>
    refine (decode?_fixed64 rfl _ rest).trans ?_
    have hvalue : ((twosComplement n % 2 ^ 64 : Nat) : Int) = n := by omega
    exact congrArg (fun m => some (Value.int m, rest)) hvalue
  case sfixed32 =>
    refine (decode?_fixed32 rfl _ rest).trans ?_
    rw [ofFixed, signedOfBits_eq (n := n) (by omega) (by omega)]
  case sfixed64 =>
    refine (decode?_fixed64 rfl _ rest).trans ?_
    rw [ofFixed, signedOfBits_eq (n := n) (by omega) (by omega)]

/-- A value of a kind whose bytes are fewer than `2 ^ 64` is decoded from them. -/
theorem decode?_encode {kind : Scalar} {value : Value} (h : kind.Holds value)
    (hlength : (kind.encode value).length < 2 ^ 64) (rest : Bytes) :
    kind.decode? (kind.encode value ++ rest) = some (value, rest) := by
  cases h using Holds.elim with
  | integer hrange hn => exact decode?_encode_int hrange hn rest
  | double x =>
    refine (decode?_fixed64 rfl _ rest).trans ?_
    have hbits := x.bits.toNat_lt
    rw [ofFixed, Nat.mod_eq_of_lt hbits, Binary64.ofNatBits, UInt64.ofNat_toNat]
  | float x =>
    refine (decode?_fixed32 rfl _ rest).trans ?_
    have hbits := x.bits.toNat_lt
    rw [ofFixed, Nat.mod_eq_of_lt hbits, Binary32.ofNatBits, UInt32.ofNat_toNat]
  | boolean b =>
    refine (decode?_varint rfl (by split <;> decide) rest).trans ?_
    cases b <;> rfl
  | string s =>
    have hbody := (length_lt_lengthPrefixed (Bytes.ofString s)).trans hlength
    show (readLengthPrefixed? (lengthPrefixed (Bytes.ofString s) ++ rest)).bind _ = _
    rw [readLengthPrefixed?_append hbody, Option.bind_some]
    simp
  | bytes b =>
    have hbody := (length_lt_lengthPrefixed b).trans hlength
    show (readLengthPrefixed? (lengthPrefixed b ++ rest)).bind _ = _
    rw [readLengthPrefixed?_append hbody, Option.bind_some]
    rfl

/-- Decoding a value leaves no more bytes than there were. -/
theorem length_le_of_decode? {kind : Scalar} {value : Value} {bytes rest : Bytes}
    (h : kind.decode? bytes = some (value, rest)) : rest.length ≤ bytes.length := by
  have hsplit : ∀ count, (splitBytes? count bytes).map
      (fun x => (kind.ofFixed (Bytes.littleEndianValue x.1), x.2)) = some (value, rest) →
      rest.length ≤ bytes.length := by
    intro count hmap
    obtain ⟨⟨body, rest'⟩, hbody, hresult⟩ := Option.map_eq_some_iff.mp hmap
    cases hresult
    exact length_le_of_splitBytes? hbody
  unfold decode? at h
  split at h
  · exact hsplit 8 h
  · exact hsplit 4 h
  · simp only [Option.bind_eq_bind, Option.bind_eq_some_iff] at h
    obtain ⟨⟨body, rest'⟩, hbody, hresult⟩ := h
    have hrest : rest = rest' := by
      dsimp only at hresult
      split at hresult
      · obtain ⟨text, -, htext⟩ := Option.bind_eq_some_iff.mp hresult
        cases htext
        rfl
      · cases hresult
        rfl
    exact hrest ▸ length_le_of_readLengthPrefixed? hbody
  · obtain ⟨⟨n, rest'⟩, hn, hresult⟩ := Option.map_eq_some_iff.mp h
    cases hresult
    exact (Varint.length_lt_of_decode? hn).le

/-- The value that `ofFixed` makes of a natural of the width of the kind is one of the kind. -/
theorem holds_ofFixed {kind : Scalar} {count n : Nat} (hn : n < 256 ^ count)
    (hk : kind.wireType = .fixed64 ∧ count = 8 ∨ kind.wireType = .fixed32 ∧ count = 4) :
    kind.Holds (kind.ofFixed n) := by
  have h32 := signedOfBits_bounds 32 n (by decide)
  have h64 := signedOfBits_bounds 64 n (by decide)
  rcases hk with ⟨hk, rfl⟩ | ⟨hk, rfl⟩ <;> cases kind <;> cases hk <;>
    first | exact ⟨_, rfl⟩ | exact ⟨_, rfl, by omega, by omega⟩

/-- The value that `ofVarint` makes of a natural below `2 ^ 64` is one of the kind. -/
theorem holds_ofVarint {kind : Scalar} (hk : kind.wireType = .varint) {n : Nat} (hn : n < 2 ^ 64) :
    kind.Holds (kind.ofVarint n) := by
  have h32 := signedOfBits_bounds 32 n (by decide)
  have h64 := signedOfBits_bounds 64 n (by decide)
  have hz32 := @unzigzag_bounds (n % 2 ^ 32) (2 ^ 31) (by omega)
  have hz64 := @unzigzag_bounds n (2 ^ 63) (by omega)
  cases kind <;> cases hk <;> first | exact ⟨_, rfl⟩ | exact ⟨_, rfl, by omega, by omega⟩

/-- A value that is decoded is one of the kind. -/
theorem holds_of_decode? {kind : Scalar} {value : Value} {bytes rest : Bytes}
    (h : kind.decode? bytes = some (value, rest)) : kind.Holds value := by
  unfold decode? at h
  split at h
  · rename_i hk
    obtain ⟨⟨body, rest'⟩, hbody, hresult⟩ := Option.map_eq_some_iff.mp h
    cases hresult
    have hlt := Bytes.littleEndianValue_lt body
    rw [length_eq_of_splitBytes? hbody] at hlt
    exact holds_ofFixed hlt (.inl ⟨hk, rfl⟩)
  · rename_i hk
    obtain ⟨⟨body, rest'⟩, hbody, hresult⟩ := Option.map_eq_some_iff.mp h
    cases hresult
    have hlt := Bytes.littleEndianValue_lt body
    rw [length_eq_of_splitBytes? hbody] at hlt
    exact holds_ofFixed hlt (.inr ⟨hk, rfl⟩)
  · rename_i hk
    simp only [Option.bind_eq_bind, Option.bind_eq_some_iff] at h
    obtain ⟨⟨body, rest'⟩, -, hresult⟩ := h
    dsimp only at hresult
    split at hresult
    · rename_i hstring
      obtain ⟨text, -, htext⟩ := Option.bind_eq_some_iff.mp hresult
      cases htext
      exact hstring ▸ ⟨text, rfl⟩
    · rename_i hstring
      cases hresult
      cases kind <;> cases hk
      · exact absurd rfl hstring
      · exact ⟨body, rfl⟩
  · rename_i hfixed64 hfixed32 hlength
    have hk : kind.wireType = .varint := by
      cases kind <;> first | rfl | contradiction
    obtain ⟨⟨n, rest'⟩, hn, hresult⟩ := Option.map_eq_some_iff.mp h
    cases hresult
    exact holds_ofVarint hk (Varint.lt_of_decode? hn)

end Scalar

/-- Is the value something else than a message, a list or a map? -/
def Value.isScalar : Value → Bool
  | .message _ => false
  | .list _ => false
  | .map _ => false
  | _ => true

/-- A value of a scalar kind is a scalar. -/
theorem Scalar.isScalar_of_holds {kind : Scalar} {value : Value} (h : kind.Holds value) :
    value.isScalar = true := by
  cases h using Holds.elim <;> rfl

end Tagwire
