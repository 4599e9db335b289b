import Mathlib.Tactic.Ring
import Tagwire.Mapping.Scalar
import Tagwire.Proofs.Number.Binary

/-!
# Floats that are kept by rounding

A magnitude that a format has is the one nearest to itself, however the ratio for it is written.  So a finite
float of 32 bits stays the same number as one of 64 bits, and comes back when it is narrowed.
-/

set_option autoImplicit false

namespace Tagwire

/-! ## Scales -/

/-- A power of two on one side of an equation can be split between the sides. -/
theorem two_pow_toNat_mul {a b : Int} {k : Nat} (h : a = b + k) :
    2 ^ a.toNat * 2 ^ (-b).toNat = 2 ^ k * (2 ^ b.toNat * 2 ^ (-a).toNat) := by
  rw [← pow_add, ← pow_add, ← pow_add]
  congr 1
  omega

/-- The exponent of the greatest power of two below a ratio is found. -/
theorem floorLog2_eq {num den : Nat} {e : Int} (hnum : 0 < num) (hden : 0 < den)
    (hle : den * 2 ^ e.toNat ≤ num * 2 ^ (-e).toNat)
    (hlt : num * 2 ^ (-(e + 1)).toNat < den * 2 ^ (e + 1).toNat) : floorLog2 num den = e := by
  have hnumLow := Nat.log2_self_le hnum.ne'
  have hnumHigh : num < 2 ^ (num.log2 + 1) := Nat.lt_log2_self
  have hdenLow := Nat.log2_self_le hden.ne'
  have hdenHigh : den < 2 ^ (den.log2 + 1) := Nat.lt_log2_self
  have hguessLow : (e : Int) ≤ num.log2 - den.log2 := by
    have h : 2 ^ (den.log2 + e.toNat) < 2 ^ (num.log2 + 1 + (-e).toNat) := by
      rw [pow_add, pow_add]
      calc 2 ^ den.log2 * 2 ^ e.toNat ≤ den * 2 ^ e.toNat := Nat.mul_le_mul_right _ hdenLow
        _ ≤ num * 2 ^ (-e).toNat := hle
        _ < 2 ^ (num.log2 + 1) * 2 ^ (-e).toNat := Nat.mul_lt_mul_of_pos_right hnumHigh (Nat.two_pow_pos _)
    have := (Nat.pow_lt_pow_iff_right (by decide)).mp h
    omega
  have hguessHigh : (num.log2 : Int) - den.log2 ≤ e + 1 := by
    have h : 2 ^ (num.log2 + (-(e + 1)).toNat) < 2 ^ (den.log2 + 1 + (e + 1).toNat) := by
      rw [pow_add, pow_add]
      calc 2 ^ num.log2 * 2 ^ (-(e + 1)).toNat ≤ num * 2 ^ (-(e + 1)).toNat :=
            Nat.mul_le_mul_right _ hnumLow
        _ < den * 2 ^ (e + 1).toNat := hlt
        _ ≤ 2 ^ (den.log2 + 1) * 2 ^ (e + 1).toNat := Nat.mul_le_mul_right _ hdenHigh.le
    have := (Nat.pow_lt_pow_iff_right (by decide)).mp h
    omega
  unfold floorLog2
  dsimp only
  rcases hguessLow.eq_or_lt with heq | hne
  · rw [← heq, if_neg (by omega)]
  · obtain heq : (num.log2 : Int) - den.log2 = e + 1 := by omega
    rw [heq, if_pos hlt]
    omega

/-- A natural times a divisor is rounded to the natural. -/
theorem roundHalfEven_mul {m den : Nat} (hden : 0 < den) : roundHalfEven (m * den) den = m := by
  unfold roundHalfEven
  dsimp only
  rw [Nat.mul_mod_left, if_pos (by omega), Nat.mul_div_cancel _ hden]

/-- The leading bit of a ratio is that of the mantissa which it has, moved by the exponent. -/
theorem floorLog2_eq_add_log2 {num den mantissa : Nat} {exponent : Int} (hnum : 0 < num) (hden : 0 < den)
    (hmantissa : 0 < mantissa)
    (hvalue : num * 2 ^ (-exponent).toNat = mantissa * (den * 2 ^ exponent.toNat)) :
    floorLog2 num den = exponent + mantissa.log2 := by
  have hscale : 0 < den * 2 ^ exponent.toNat := Nat.mul_pos hden (Nat.two_pow_pos _)
  have hlow := Nat.log2_self_le hmantissa.ne'
  have hhigh : mantissa < 2 ^ (mantissa.log2 + 1) := Nat.lt_log2_self
  refine floorLog2_eq hnum hden ?_ ?_
  · have hsplit := two_pow_toNat_mul (a := exponent + mantissa.log2) (b := exponent) rfl
    refine Nat.le_of_mul_le_mul_right (c := 2 ^ (-exponent).toNat) ?_ (Nat.two_pow_pos _)
    calc den * 2 ^ (exponent + mantissa.log2).toNat * 2 ^ (-exponent).toNat
        = 2 ^ mantissa.log2 * (den * 2 ^ exponent.toNat) *
            2 ^ (-(exponent + mantissa.log2)).toNat := by
          rw [Nat.mul_assoc, hsplit]
          ring
      _ ≤ mantissa * (den * 2 ^ exponent.toNat) * 2 ^ (-(exponent + mantissa.log2)).toNat :=
          Nat.mul_le_mul_right _ (Nat.mul_le_mul_right _ hlow)
      _ = num * 2 ^ (-(exponent + mantissa.log2)).toNat * 2 ^ (-exponent).toNat := by
          rw [← hvalue]
          ring
  · have hsplit := two_pow_toNat_mul (a := exponent + mantissa.log2 + 1) (b := exponent)
      (k := mantissa.log2 + 1) (by push_cast; ring)
    refine Nat.lt_of_mul_lt_mul_right (a := 2 ^ (-exponent).toNat) ?_
    calc num * 2 ^ (-(exponent + mantissa.log2 + 1)).toNat * 2 ^ (-exponent).toNat
        = mantissa * (den * 2 ^ exponent.toNat) * 2 ^ (-(exponent + mantissa.log2 + 1)).toNat := by
          rw [← hvalue]
          ring
      _ < 2 ^ (mantissa.log2 + 1) * (den * 2 ^ exponent.toNat) *
            2 ^ (-(exponent + mantissa.log2 + 1)).toNat :=
          Nat.mul_lt_mul_of_pos_right (Nat.mul_lt_mul_of_pos_right hhigh hscale) (Nat.two_pow_pos _)
      _ = den * 2 ^ (exponent + mantissa.log2 + 1).toNat * 2 ^ (-exponent).toNat := by
          rw [Nat.mul_assoc den, hsplit]
          ring

namespace FloatFormat

variable {f : FloatFormat}

/-- A mantissa and an exponent in the form that the format gives them. -/
structure IsCanonical (f : FloatFormat) (mantissa : Nat) (exponent : Int) : Prop where
  exponent_le : f.minExponent ≤ exponent
  mantissa_lt : mantissa < 2 ^ (f.fractionBits + 1)
  normal : 2 ^ f.fractionBits ≤ mantissa ∨ exponent = f.minExponent

/-- The bits of a magnitude in this form. -/
def magnitudeOf (f : FloatFormat) (mantissa : Nat) (exponent : Int) : Nat :=
  (exponent - f.minExponent).toNat * 2 ^ f.fractionBits + mantissa

/-- The leading bit of a mantissa in this form gives its exponent back. -/
theorem IsCanonical.max_eq {mantissa : Nat} {exponent : Int} (h : f.IsCanonical mantissa exponent)
    (hpos : 0 < mantissa) : max (exponent + mantissa.log2 - f.fractionBits) f.minExponent = exponent := by
  have hlt : mantissa.log2 < f.fractionBits + 1 := (Nat.log2_lt hpos.ne').mpr h.mantissa_lt
  have hle := h.exponent_le
  rcases h.normal with hnormal | hexponent
  · have hge : f.fractionBits ≤ mantissa.log2 := (Nat.le_log2 hpos.ne').mpr hnormal
    omega
  · omega

/-- A ratio that the format has is the nearest to itself. -/
theorem IsCanonical.nearest_eq {num den mantissa : Nat} {exponent : Int}
    (h : f.IsCanonical mantissa exponent) (hden : 0 < den)
    (hvalue : num * 2 ^ (-exponent).toNat = mantissa * (den * 2 ^ exponent.toNat))
    (hfinite : f.magnitudeOf mantissa exponent ≤ f.infinity) :
    f.nearest num den = f.magnitudeOf mantissa exponent := by
  have hscale : 0 < den * 2 ^ exponent.toNat := Nat.mul_pos hden (Nat.two_pow_pos _)
  unfold nearest
  rcases Nat.eq_zero_or_pos num with rfl | hnum
  · have hzero : mantissa = 0 := by
      rw [Nat.zero_mul] at hvalue
      exact (Nat.mul_eq_zero.mp hvalue.symm).resolve_right hscale.ne'
    obtain rfl : exponent = f.minExponent := by
      rcases h.normal with hnormal | hexponent
      · have := Nat.two_pow_pos f.fractionBits
        omega
      · exact hexponent
    rw [if_pos rfl, magnitudeOf, hzero, Int.sub_self, Int.toNat_zero, Nat.zero_mul]
  · rw [if_neg hnum.ne']
    have hpos : 0 < mantissa := by
      refine Nat.pos_of_ne_zero fun hzero => ?_
      rw [hzero, Nat.zero_mul] at hvalue
      exact absurd hvalue (Nat.mul_pos hnum (Nat.two_pow_pos _)).ne'
    have hunit : max (floorLog2 num den - f.fractionBits) f.minExponent = exponent := by
      rw [floorLog2_eq_add_log2 hnum hden hpos hvalue]
      exact h.max_eq hpos
    dsimp only
    rw [hunit, hvalue, roundHalfEven_mul hscale]
    exact Nat.min_eq_right hfinite

/-- A finite bit pattern is that of a mantissa and an exponent in this form. -/
theorem isCanonical_of_decode {bits mantissa : Nat} {negative : Bool} {exponent : Int}
    (h : f.decode bits = .finite negative mantissa exponent) : f.IsCanonical mantissa exponent ∧
      f.magnitudeOf mantissa exponent = bits % f.signWeight ∧ bits % f.signWeight < f.infinity ∧
      negative = (bits / f.signWeight % 2 == 1) := by
  have hpos : 0 < 2 ^ f.fractionBits := Nat.two_pow_pos _
  have hfraction := Nat.mod_lt (bits % f.signWeight) hpos
  have hsplit := Nat.div_add_mod (bits % f.signWeight) (2 ^ f.fractionBits)
  have hdouble : 2 ^ (f.fractionBits + 1) = 2 * 2 ^ f.fractionBits := by rw [Nat.pow_succ]; omega
  unfold decode at h
  dsimp only at h
  split at h
  · cases h
  · split at h
    · cases h
    · split at h
      · rename_i hexponent
        rw [FloatParts.finite.injEq] at h
        obtain ⟨rfl, rfl, rfl⟩ := h
        rw [hexponent] at hsplit
        refine ⟨⟨Int.le_refl _, by omega, .inr rfl⟩, ?_, by omega, rfl⟩
        rw [magnitudeOf, Int.sub_self]
        simp only [Int.toNat_zero]
        omega
      · rename_i hexponent
        obtain ⟨e, he⟩ : ∃ e, bits % f.signWeight / 2 ^ f.fractionBits = e + 1 :=
          ⟨_, (Nat.succ_pred_eq_of_pos (Nat.pos_of_ne_zero hexponent)).symm⟩
        rw [FloatParts.finite.injEq, he] at h
        obtain ⟨rfl, rfl, rfl⟩ := h
        have hoffset : (f.minExponent + (e + 1 : Nat) - 1 - f.minExponent).toNat = e := by omega
        refine ⟨⟨by omega, by omega, .inl (Nat.le_add_right _ _)⟩, ?_, by omega, rfl⟩
        rw [he, Nat.mul_succ, Nat.mul_comm] at hsplit
        rw [magnitudeOf, hoffset]
        omega

/-- The bits of a mantissa and an exponent in this form stand for them. -/
theorem IsCanonical.decode_withSign {mantissa : Nat} {exponent : Int} (h : f.IsCanonical mantissa exponent)
    (hfinite : f.magnitudeOf mantissa exponent < f.infinity) (negative : Bool) :
    f.decode (f.withSign negative (f.magnitudeOf mantissa exponent)) =
      .finite negative mantissa exponent := by
  have hpos : 0 < 2 ^ f.fractionBits := Nat.two_pow_pos _
  have hweight : f.infinity < f.signWeight := by
    rw [infinity, signWeight, pow_add, Nat.mul_comm]
    exact Nat.mul_lt_mul_of_pos_left (Nat.sub_lt (Nat.two_pow_pos _) Nat.one_pos) hpos
  have hmagnitude : f.withSign negative (f.magnitudeOf mantissa exponent) % f.signWeight =
      f.magnitudeOf mantissa exponent := by
    have hlt : f.magnitudeOf mantissa exponent < f.signWeight := by omega
    cases negative with
    | true => rw [withSign, if_pos rfl, Nat.add_mod_left, Nat.mod_eq_of_lt hlt]
    | false => rw [withSign, if_neg Bool.false_ne_true, Nat.mod_eq_of_lt hlt]
  have hsign : (f.withSign negative (f.magnitudeOf mantissa exponent) / f.signWeight % 2 == 1) =
      negative := by
    have hlt : f.magnitudeOf mantissa exponent < f.signWeight := by omega
    cases negative with
    | true =>
      rw [withSign, if_pos rfl, Nat.add_div_left _ (by omega), Nat.div_eq_of_lt hlt]
      rfl
    | false =>
      rw [withSign, if_neg Bool.false_ne_true, Nat.div_eq_of_lt hlt]
      rfl
  have hdouble : 2 ^ (f.fractionBits + 1) = 2 * 2 ^ f.fractionBits := by rw [Nat.pow_succ]; omega
  unfold decode
  dsimp only
  rw [hmagnitude, hsign, if_neg (by omega), if_neg (by omega)]
  have hlt := h.mantissa_lt
  have hle := h.exponent_le
  obtain ⟨e, he⟩ : ∃ e : Nat, exponent = f.minExponent + e := ⟨(exponent - f.minExponent).toNat, by omega⟩
  have hoffset : (exponent - f.minExponent).toNat = e := by omega
  rw [magnitudeOf, hoffset]
  by_cases hnormal : 2 ^ f.fractionBits ≤ mantissa
  · obtain ⟨m, rfl⟩ : ∃ m, mantissa = 2 ^ f.fractionBits + m := ⟨_, (Nat.add_sub_of_le hnormal).symm⟩
    have hm : m < 2 ^ f.fractionBits := by omega
    have hbits : e * 2 ^ f.fractionBits + (2 ^ f.fractionBits + m) = m + (e + 1) * 2 ^ f.fractionBits := by
      ring
    rw [hbits, Nat.add_mul_div_right _ _ hpos, Nat.add_mul_mod_self_right, Nat.div_eq_of_lt hm,
      Nat.mod_eq_of_lt hm, if_neg (by omega), FloatParts.finite.injEq]
    exact ⟨rfl, rfl, by omega⟩
  · have hexponent := h.normal.resolve_left hnormal
    obtain rfl : e = 0 := by omega
    have hm : mantissa < 2 ^ f.fractionBits := by omega
    rw [Nat.zero_mul, Nat.zero_add, Nat.div_eq_of_lt hm, if_pos rfl, Nat.mod_eq_of_lt hm, hexponent]

end FloatFormat

/-! ## Widening and narrowing -/

namespace Binary64

/-- The float of a magnitude with its sign is made of them. -/
theorem parts_ofNatBits {mantissa : Nat} {exponent : Int}
    (h : FloatFormat.double.IsCanonical mantissa exponent)
    (hfinite : FloatFormat.double.magnitudeOf mantissa exponent < FloatFormat.double.infinity)
    (negative : Bool) : (ofNatBits (FloatFormat.double.withSign negative
      (FloatFormat.double.magnitudeOf mantissa exponent))).parts = .finite negative mantissa exponent := by
  have hinfinity : FloatFormat.double.infinity = 2047 * 2 ^ 52 := rfl
  have hbits : FloatFormat.double.withSign negative (FloatFormat.double.magnitudeOf mantissa exponent) <
      2 ^ 64 := by
    have hweight : FloatFormat.double.signWeight = 2 ^ 63 := rfl
    unfold FloatFormat.withSign
    split <;> omega
  rw [parts, ofNatBits, UInt64.toNat_ofNat_of_lt' hbits, h.decode_withSign hfinite]

end Binary64

namespace Binary32

variable {x : Binary32} {negative : Bool} {mantissa : Nat} {exponent : Int}

/-- What a finite float is made of has the bits of the float, and an exponent that is not too large. -/
theorem isCanonical_of_parts (h : x.parts = .finite negative mantissa exponent) :
    FloatFormat.single.IsCanonical mantissa exponent ∧ exponent ≤ 104 ∧
      FloatFormat.single.magnitudeOf mantissa exponent ≤ FloatFormat.single.infinity ∧
      FloatFormat.single.withSign negative (FloatFormat.single.magnitudeOf mantissa exponent) =
        x.bits.toNat := by
  obtain ⟨hcanonical, hmagnitude, hfinite, rfl⟩ := FloatFormat.isCanonical_of_decode h
  have hinfinity : FloatFormat.single.infinity = 255 * 2 ^ 23 := rfl
  have hweight : FloatFormat.single.signWeight = 2 ^ 31 := rfl
  have hmin : FloatFormat.single.minExponent = -149 := rfl
  have hbits := x.bits.toNat_lt
  rw [hweight] at hmagnitude hfinite ⊢
  refine ⟨hcanonical, ?_, by omega, ?_⟩
  · rcases hcanonical.normal with hnormal | hexponent
    · have hsum : (exponent - -149).toNat * 2 ^ 23 + mantissa = x.bits.toNat % 2 ^ 31 := hmagnitude
      have hlow : 2 ^ 23 ≤ mantissa := hnormal
      omega
    · omega
  · rw [hmagnitude, FloatFormat.withSign, hweight]
    by_cases hsign : x.bits.toNat / 2 ^ 31 % 2 = 1
    · rw [if_pos (beq_iff_eq.mpr hsign)]
      omega
    · rw [if_neg (by simpa using hsign)]
      omega

/-- A finite float stays the same number as a 64-bit one. -/
theorem exists_parts_widen (h : x.parts = .finite negative mantissa exponent) :
    ∃ wideMantissa wideExponent, x.widen.parts = .finite negative wideMantissa wideExponent ∧
      wideMantissa * 2 ^ wideExponent.toNat * 2 ^ (-exponent).toNat =
        mantissa * (2 ^ (-wideExponent).toNat * 2 ^ exponent.toNat) := by
  obtain ⟨hcanonical, hle, -, -⟩ := isCanonical_of_parts h
  have hlow : -149 ≤ exponent := hcanonical.exponent_le
  have hlt : mantissa < 2 ^ 24 := hcanonical.mantissa_lt
  have hmin : FloatFormat.double.minExponent = -1074 := rfl
  have hwiden : ∀ {wideMantissa : Nat} {wideExponent : Int},
      FloatFormat.double.IsCanonical wideMantissa wideExponent → wideExponent ≤ 104 →
      mantissa * 2 ^ exponent.toNat * 2 ^ (-wideExponent).toNat =
        wideMantissa * (2 ^ (-exponent).toNat * 2 ^ wideExponent.toNat) →
      x.widen.parts = .finite negative wideMantissa wideExponent := by
    intro wideMantissa wideExponent hwide hexponent hvalue
    have hfinite : FloatFormat.double.magnitudeOf wideMantissa wideExponent <
        FloatFormat.double.infinity := by
      have hwideLow : -1074 ≤ wideExponent := hwide.exponent_le
      have hwideLt : wideMantissa < 2 ^ 53 := hwide.mantissa_lt
      show (wideExponent - -1074).toNat * 2 ^ 52 + wideMantissa < 2047 * 2 ^ 52
      omega
    rw [widen, h, FloatFormat.encode, FloatFormat.nearestScaled,
      hwide.nearest_eq (Nat.two_pow_pos _) hvalue hfinite.le, Binary64.parts_ofNatBits hwide hfinite]
  rcases Nat.eq_zero_or_pos mantissa with rfl | hpos
  · refine ⟨0, -1074, hwiden ⟨Int.le_refl _, Nat.two_pow_pos _, .inr rfl⟩ (by decide) ?_, ?_⟩ <;>
      simp only [Nat.zero_mul]
  · -- The leading bit moves to its place in the wider format.
    obtain ⟨shift, hshift⟩ : ∃ shift, mantissa.log2 + shift = 52 := by
      have := (Nat.log2_lt hpos.ne').mpr hlt
      exact ⟨52 - mantissa.log2, by omega⟩
    have hnormal : 2 ^ 52 ≤ mantissa * 2 ^ shift := by
      rw [← hshift, pow_add]
      exact Nat.mul_le_mul_right _ (Nat.log2_self_le hpos.ne')
    have hnarrow : mantissa * 2 ^ shift < 2 ^ 53 := by
      have hsum : 53 = mantissa.log2 + 1 + shift := by omega
      rw [hsum, pow_add]
      exact Nat.mul_lt_mul_of_pos_right Nat.lt_log2_self (Nat.two_pow_pos _)
    have hscale := two_pow_toNat_mul (a := exponent) (b := exponent - shift) (k := shift) (by omega)
    refine ⟨mantissa * 2 ^ shift, exponent - shift, hwiden ⟨?_, hnarrow, .inl hnormal⟩ (by omega) ?_, ?_⟩
    · omega
    · rw [Nat.mul_assoc, hscale]
      ring
    · rw [Nat.mul_comm (2 ^ (-(exponent - shift)).toNat), hscale]
      ring

/-- A finite float comes back from its 64-bit form, which is none too large. -/
theorem narrow_widen (h : x.isFinite = true) :
    x.widen.isFinite = true ∧ Json.fitsSingle x.widen = true ∧ x.widen.narrow = x := by
  obtain ⟨negative, mantissa, exponent, hparts⟩ : ∃ negative mantissa exponent,
      x.parts = .finite negative mantissa exponent := by
    unfold isFinite at h
    split at h
    · exact ⟨_, _, _, by assumption⟩
    · cases h
  obtain ⟨hcanonical, hle, hfinite, hbits⟩ := isCanonical_of_parts hparts
  obtain ⟨wideMantissa, wideExponent, hwide, hvalue⟩ := exists_parts_widen hparts
  refine ⟨?_, ?_, ?_⟩
  · rw [Binary64.isFinite, hwide]
  · have hmantissa : mantissa ≤ 2 ^ 24 - 1 := Nat.le_sub_one_of_lt hcanonical.mantissa_lt
    have hscale : 2 ^ exponent.toNat ≤ 2 ^ 104 := Nat.pow_le_pow_right (by decide) (by omega)
    rw [Json.fitsSingle, hwide]
    refine decide_eq_true (Nat.le_of_mul_le_mul_right (c := 2 ^ (-exponent).toNat) ?_ (Nat.two_pow_pos _))
    calc wideMantissa * 2 ^ wideExponent.toNat * 2 ^ (-exponent).toNat
        = mantissa * 2 ^ exponent.toNat * 2 ^ (-wideExponent).toNat := by
          rw [hvalue]
          ring
      _ ≤ Json.maxSingle * 2 ^ (-wideExponent).toNat :=
          Nat.mul_le_mul_right _ (Nat.mul_le_mul hmantissa hscale)
      _ ≤ Json.maxSingle * 2 ^ (-wideExponent).toNat * 2 ^ (-exponent).toNat :=
          Nat.le_mul_of_pos_right _ (Nat.two_pow_pos _)
  · rw [Binary64.narrow, hwide, FloatFormat.encode, FloatFormat.nearestScaled,
      hcanonical.nearest_eq (Nat.two_pow_pos _) hvalue hfinite, hbits]
    exact congrArg Binary32.mk (UInt32.ofNat_toNat)

end Binary32

end Tagwire
