import Tagwire.Mapping.Scalar
import Tagwire.Proofs.Base64
import Tagwire.Proofs.Number.Binary
import Tagwire.Proofs.Wire.Scalar
import Tagwire.Schema.Type

/-!
# Scalars come back from JSON

A JSON value is in normal form for a scalar kind if it is the one that values of the kind are given: an
integer of the range, a text, bytes in base 64, a finite float or the name of another one.  The negative
zero is left out, since a field that holds it counts as not set.  What is in normal form is the form of
the value that it stands for, and of the zero of the kind if that value counts as not set.
-/

set_option autoImplicit false

namespace Tagwire

namespace Binary64

/-- The names `NaN`, `Infinity` and `-Infinity` are read as the floats that they name. -/
theorem read?_names : read? "NaN" = some nan ∧ read? "Infinity" = some infinity ∧
    read? "-Infinity" = some infinity.neg := by
  decide

/-- The floats NaN and the two infinities have their names for their form. -/
theorem ofFloat_names : Json.ofFloat nan = .str "NaN" ∧ Json.ofFloat infinity = .str "Infinity" ∧
    Json.ofFloat infinity.neg = .str "-Infinity" := by
  have hnan : nan.parts = .nan := by decide
  have hinfinity : infinity.parts = .infinite false := by decide
  have hneg : infinity.neg.parts = .infinite true := by decide
  simp [Json.ofFloat, hnan, hinfinity, hneg]

end Binary64

/-- A finite float has itself for its form. -/
theorem Json.ofFloat_of_isFinite {x : Binary64} (h : x.isFinite = true) : ofFloat x = .float x := by
  unfold Binary64.isFinite at h
  unfold ofFloat
  split at h
  · rename_i hparts
    rw [hparts]
  · cases h

namespace Scalar

/-- The JSON value is in normal form for a kind: an integer in its range, a float that is finite and not `-0.0`
or one of the three names, a flag, a text, or bytes as `Base64.encode` writes them.  No value is in normal form
for 32-bit floats. -/
def IsNormal (kind : Scalar) (json : Json) : Prop :=
  match kind.integerRange? with
  | some (low, high) => ∃ n, json = .int n ∧ low ≤ n ∧ n ≤ high
  | none =>
    match kind with
    | double => (∃ x : Binary64, json = .float x ∧ x.isFinite = true ∧ x ≠ Binary64.zero.neg) ∨
        json = .str "NaN" ∨ json = .str "Infinity" ∨ json = .str "-Infinity"
    | float => False
    | boolean => ∃ b, json = .bool b
    | string => ∃ s, json = .str s
    | _ => ∃ b, json = .str (Base64.encode b)

/-- The kind reads `json` as `value`, which has `json` for its form, and if `value` counts as the default, so
has the zero of the kind. -/
structure Represents (kind : Scalar) (json : Json) (value : Value) : Prop where
  reads : kind.ofJson? json = some value
  holds : kind.Holds value
  form : value.scalarJson = json
  default : ((ValueType.scalar kind).zero 0).isDefault value = true →
    ((ValueType.scalar kind).zero 0).scalarJson = json

/-- A float other than `-0.0` that is read from its form represents it. -/
theorem represents_double {json : Json} {x : Binary64} (hreads : json.double? = some x)
    (hform : Json.ofFloat x = json) (hzero : x ≠ Binary64.zero.neg) :
    double.Represents json (.double x) := by
  refine ⟨?_, ⟨x, rfl⟩, hform, fun hdefault => ?_⟩
  · show json.double?.map Value.double = _
    rw [hreads, Option.map_some]
  · have hx := (Binary64.eq_zero_of_isZero hdefault).resolve_right hzero
    rw [hx] at hform
    exact hform

/-- Each JSON value in normal form for a kind represents a value. -/
theorem exists_represents {kind : Scalar} {json : Json} (h : kind.IsNormal json) :
    ∃ value, kind.Represents json value := by
  unfold IsNormal at h
  cases hk : kind.integerRange? with
  | some range =>
    rw [hk] at h
    obtain ⟨n, rfl, hn⟩ := h
    refine ⟨.int n, ⟨?_, ?_, rfl, ?_⟩⟩
    · unfold ofJson?
      rw [hk]
      dsimp only
      rw [Json.integer?, if_pos hn, Option.map_some]
    · unfold Holds
      rw [hk]
      exact ⟨n, rfl, hn⟩
    · intro hdefault
      have hzero : (ValueType.scalar kind).zero 0 = .int 0 := by cases kind <;> first | rfl | cases hk
      rw [hzero] at hdefault ⊢
      simp only [Value.isDefault, beq_iff_eq] at hdefault
      rw [← hdefault]
      rfl
  | none =>
    rw [hk] at h
    cases kind with
    | double =>
      obtain ⟨hnan, hinfinity, hneg⟩ := Binary64.read?_names
      obtain ⟨hnan', hinfinity', hneg'⟩ := Binary64.ofFloat_names
      rcases h with ⟨x, rfl, hfinite, hx⟩ | rfl | rfl | rfl
      · exact ⟨_, represents_double rfl (Json.ofFloat_of_isFinite hfinite) hx⟩
      · exact ⟨_, represents_double hnan hnan' (by decide)⟩
      · exact ⟨_, represents_double hinfinity hinfinity' (by decide)⟩
      · exact ⟨_, represents_double hneg hneg' (by decide)⟩
    | float => cases h
    | boolean =>
      obtain ⟨b, rfl⟩ := h
      refine ⟨.bool b, rfl, ⟨b, rfl⟩, rfl, fun hdefault => ?_⟩
      have hb : false = b := by simpa [ValueType.zero, Value.isDefault] using hdefault
      rw [← hb]
      rfl
    | string =>
      obtain ⟨s, rfl⟩ := h
      refine ⟨.string s, rfl, ⟨s, rfl⟩, rfl, fun hdefault => ?_⟩
      have hs : "" = s := by simpa [ValueType.zero, Value.isDefault] using hdefault
      rw [← hs]
      rfl
    | bytes =>
      obtain ⟨b, rfl⟩ := h
      refine ⟨.bytes b, ?_, ⟨b, rfl⟩, rfl, fun hdefault => ?_⟩
      · show (Base64.decode? (Base64.encode b)).map Value.bytes = _
        rw [Base64.decode?_encode, Option.map_some]
      · have hb : [] = b := by simpa [ValueType.zero, Value.isDefault] using hdefault
        rw [← hb]
        rfl
    | int32 | int64 | uint32 | uint64 | sint32 | sint64 | fixed32 | fixed64 | sfixed32 | sfixed64 =>
      cases hk

end Scalar

end Tagwire
