import Tagwire.Number.Binary

/-!
# Zeros

Of the floats of a format two count as zero, one of either sign.
-/

set_option autoImplicit false

namespace Tagwire

/-- A bit pattern without a mantissa is one of a zero. -/
theorem FloatFormat.mod_signWeight_of_decode {f : FloatFormat} {bits : Nat} {negative : Bool}
    {exponent : Int} (h : f.decode bits = .finite negative 0 exponent) : bits % f.signWeight = 0 := by
  have hpos : 0 < 2 ^ f.fractionBits := Nat.two_pow_pos _
  unfold decode at h
  dsimp only at h
  split at h
  · cases h
  · split at h
    · cases h
    · split at h
      · rename_i hexponent
        rw [FloatParts.finite.injEq] at h
        rw [← Nat.div_add_mod (bits % f.signWeight) (2 ^ f.fractionBits), hexponent, h.2.1, Nat.mul_zero]
      · rw [FloatParts.finite.injEq] at h
        omega

namespace Binary64

/-- Of the floats only two count as zero. -/
theorem eq_zero_of_isZero {x : Binary64} (h : x.isZero = true) : x = zero ∨ x = zero.neg := by
  have hbits := x.bits.toNat_lt
  have hmagnitude : x.bits.toNat % 2 ^ 63 = 0 := by
    unfold isZero at h
    split at h
    · rename_i negative mantissa exponent hparts
      obtain rfl := beq_iff_eq.mp h
      exact FloatFormat.mod_signWeight_of_decode hparts
    · cases h
  have hcases : x.bits.toNat = 0 ∨ x.bits.toNat = 2 ^ 63 := by omega
  rcases hcases with h0 | h1
  · exact .inl (congrArg Binary64.mk (UInt64.toNat_inj.mp h0))
  · exact .inr (congrArg Binary64.mk (UInt64.toNat_inj.mp h1))

end Binary64

namespace Binary32

/-- Negative zero. -/
def negativeZero : Binary32 := ⟨0x80000000⟩

/-- Of the floats only two count as zero. -/
theorem eq_zero_of_isZero {x : Binary32} (h : x.isZero = true) : x = zero ∨ x = negativeZero := by
  have hbits := x.bits.toNat_lt
  have hmagnitude : x.bits.toNat % 2 ^ 31 = 0 := by
    unfold isZero at h
    split at h
    · rename_i negative mantissa exponent hparts
      obtain rfl := beq_iff_eq.mp h
      exact FloatFormat.mod_signWeight_of_decode hparts
    · cases h
  have hcases : x.bits.toNat = 0 ∨ x.bits.toNat = 2 ^ 31 := by omega
  rcases hcases with h0 | h1
  · exact .inl (congrArg Binary32.mk (UInt32.toNat_inj.mp h0))
  · exact .inr (congrArg Binary32.mk (UInt32.toNat_inj.mp h1))

/-- A zero keeps its sign as a 64-bit float. -/
theorem widen_zero : zero.widen = Binary64.zero ∧ negativeZero.widen = Binary64.zero.neg := by
  decide

end Binary32

end Tagwire
