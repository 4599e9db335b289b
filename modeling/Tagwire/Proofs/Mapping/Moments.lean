import Tagwire.Proofs.Mapping.Flat
import Tagwire.Proofs.Time.Duration
import Tagwire.Proofs.Time.Timestamp

/-!
# Timestamps and durations come back

Both are laid out as seconds and billionths.  A duration always comes back, and a timestamp does if it is of the
years that texts are of once its billionths make less than a second.
-/

set_option autoImplicit false

namespace Tagwire

namespace SpecialForm

open Schema

variable {g : Binary64 → Binary64} {seconds nanos : Int}

/-! ## Seconds and billionths -/

/-- The layout that timestamps and durations share: `seconds` with number 1 and `nanos` with number 2. -/
def momentLayout : MessageType := ⟨"", [scalarField "seconds" 1 .int64, scalarField "nanos" 2 .int32]⟩

/-- A field that holds `n`, or is absent where `n` is zero, counts as `n` for `integerAt`. -/
theorem integerAt_eq {values : FieldValues} {number : Nat} {n : Int}
    (h : FieldValues.get? values number = if (0 : Int) == n then none else some (.int n)) :
    integerAt values number = n := by
  rw [integerAt, h]
  by_cases hzero : 0 = n
  · subst hzero
    rfl
  · rw [beq_false_of_ne hzero]
    rfl

/-- What is kept of seconds and nanoseconds counts as both for `integerAt`. -/
theorem integerAt_kept (seconds nanos : Int) :
    integerAt (layouts.kept momentLayout [(1, .int seconds), (2, .int nanos)]) 1 = seconds ∧
      integerAt (layouts.kept momentLayout [(1, .int seconds), (2, .int nanos)]) 2 = nanos := by
  have hnodup : (([(1, .int seconds), (2, .int nanos)] : FieldValues).map Prod.fst).Nodup := by
    simp
  constructor
  · exact integerAt_eq (get?_kept hnodup 1)
  · exact integerAt_eq (get?_kept hnodup 2)

/-- Seconds of 64 bits and nanoseconds of 32 bits are a message of `momentLayout`. -/
theorem holds_moment (hseconds : Scalar.int64.Holds (.int seconds)) (hnanos : Scalar.int32.Holds (.int nanos)) :
    momentLayout.Holds layouts [(1, .int seconds), (2, .int nanos)] :=
  holds_pair hseconds hnanos

/-- Seconds and nanoseconds take at most 40 bytes. -/
theorem length_encode_moment_le (seconds nanos : Int) :
    (layouts.encode momentLayout [(1, .int seconds), (2, .int nanos)]).length ≤ 40 := by
  have hpair : (layouts.encode momentLayout [(1, .int seconds), (2, .int nanos)]).length ≤
      (Scalar.int64.encode (.int seconds)).length + (Scalar.int32.encode (.int nanos)).length + 20 :=
    length_encode_pair_le rfl rfl
  have hseconds : (Scalar.int64.encode (.int seconds)).length ≤ 10 :=
    Varint.length_encode_le_ten (twosComplement_lt seconds)
  have hnanos : (Scalar.int32.encode (.int nanos)).length ≤ 10 :=
    Varint.length_encode_le_ten (twosComplement_lt nanos)
  omega

/-- A text that a form reads as seconds and nanoseconds returns, if these show the text again. -/
theorem returns_moment {form : SpecialForm} (hlayout : form.layout = momentLayout) {text : String}
    (hread : form.ofJson? (.str text) = some [(1, .int seconds), (2, .int nanos)])
    (hseconds : Scalar.int64.Holds (.int seconds)) (hnanos : Scalar.int32.Holds (.int nanos))
    (hshown : ∀ values, integerAt values 1 = seconds → integerAt values 2 = nanos →
      form.toJson? values = some (.str text)) :
    form.Returns g (.str text) [(1, .int seconds), (2, .int nanos)] := by
  obtain ⟨hfirst, hsecond⟩ := integerAt_kept seconds nanos
  refine ⟨hread, ?_, ?_, ?_⟩
  · rw [hlayout]
    exact holds_moment hseconds hnanos
  · have hlength := length_encode_moment_le seconds nanos
    have hpos := (Json.str text).size_pos
    rw [hlayout]
    omega
  · rw [hlayout, hshown _ hfirst hsecond]
    rfl

/-! ## The forms -/

/-- The text that a `Duration` shows is read as fields that show it again. -/
theorem exists_returns_duration {values : FieldValues} {json : Json}
    (hjson : duration.toJson? values = some json) : ∃ laidOut, duration.Returns g json laidOut := by
  rw [toJson?] at hjson
  obtain ⟨hrange, htext⟩ := Option.ite_none_right_eq_some.mp hjson
  rw [Option.some.injEq] at htext
  obtain ⟨again, hread, hagain, hback⟩ := Duration.exists_ofText?_text hrange
  obtain ⟨hseconds, hnanos⟩ := Duration.isInRange_iff.mp hagain
  rw [Duration.maxSeconds] at hseconds
  subst htext
  refine ⟨_, returns_moment rfl ?_ ⟨again.seconds, rfl, by omega, by omega⟩
    ⟨again.nanos, rfl, by omega, by omega⟩ fun values hfirst hsecond => ?_⟩
  · show (Duration.ofText? _).map _ = _
    rw [hread, Option.map_some]
  · rw [toJson?, hfirst, hsecond, if_pos hagain, hback]

/-- The text that a `Timestamp` shows is read as fields that show it again, if the year of the normalized moment
is one of 1 to 9999. -/
theorem exists_returns_timestamp {values : FieldValues}
    (hrange : (⟨integerAt values 1, integerAt values 2⟩ : Timestamp).normalized.isInRange = true) {json : Json}
    (hjson : timestamp.toJson? values = some json) : ∃ laidOut, timestamp.Returns g json laidOut := by
  rw [toJson?] at hjson
  obtain ⟨-, htext⟩ := Option.ite_none_right_eq_some.mp hjson
  rw [Option.some.injEq] at htext
  subst htext
  generalize (⟨integerAt values 1, integerAt values 2⟩ : Timestamp) = t at *
  have hread := Timestamp.ofText?_text hrange
  have hseconds := Timestamp.isInRange_iff.mp hrange
  have hnanos := Timestamp.nanos_normalized t
  rw [Timestamp.minSeconds, Timestamp.maxSeconds] at hseconds
  rw [nanosPerSecond] at hnanos
  refine ⟨[(1, .int t.normalized.seconds), (2, .int t.normalized.nanos)],
    returns_moment rfl ?_ ⟨_, rfl, by omega, by omega⟩ ⟨_, rfl, by omega, by omega⟩
      fun again hfirst hsecond => ?_⟩
  · rw [ofJson?, hread]
    rfl
  · rw [toJson?, hfirst, hsecond, if_pos hrange, Timestamp.text_normalized]

end SpecialForm

end Tagwire
