import Tagwire.Proofs.Mapping.Layouts

/-!
# Forms of flat messages

A timestamp, a duration, a field mask and a wrapper hold scalars only.  A message of a schema whose fields are
those of the layout is its own fields in the layout then, and what the JSON form is read as is stored as it is.
-/

set_option autoImplicit false

namespace Tagwire

open Schema

/-- A message of a flat type, whose fields are scalars or lists of them, has the nesting 0. -/
theorem MessageType.Holds.nesting_eq_zero {schema : Schema} {type : MessageType} {values : FieldValues}
    (hflat : type.IsFlat) (h : type.Holds schema values) : FieldValues.nesting values = 0 := by
  refine Nat.le_zero.mp (FieldValues.nesting_le_iff.mpr fun e he => ?_)
  obtain ⟨f, hf⟩ := Option.isSome_iff_exists.mp (h.found e he)
  obtain ⟨⟨kind, hkind⟩, -⟩ := hflat f (List.mem_of_find?_eq_some hf)
  have hvalue := h.fields e he f hf
  rw [hkind] at hvalue
  generalize f.shape = shape at hvalue
  have hscalar : ∀ {value}, schema.Holds .single (.scalar kind) value → value.nesting ≤ 0 := fun h =>
    (Value.nesting_of_isScalar (Scalar.isScalar_of_holds (h.of_scalar? rfl))).le
  generalize e.2 = value at hvalue
  cases hvalue with
  | scalar hk hvalue => exact hscalar (.scalar hk hvalue)
  | list hitems =>
    rw [Value.nesting]
    exact Value.nestingOfItems_le_iff.mpr fun item hitem => hscalar (hitems item hitem)

namespace SpecialForm

variable {form : SpecialForm} {schema : Schema} {type : MessageType} {g : Binary64 → Binary64} {levels : Nat}

/-- Fields of a flat layout are a message of each type that is alike, have the nesting 0, and are written to the
same bytes in both. -/
theorem same_of_isFlat {laidOut : FieldValues} (hp : type.IsPlain schema) (hl : type.IsAlike form.layout)
    (hflat : type.IsFlat) (h : form.layout.Holds layouts laidOut) :
    type.Holds schema laidOut ∧ FieldValues.nesting laidOut = 0 ∧
      schema.encode type laidOut = layouts.encode form.layout laidOut := by
  have hstores : type.Holds schema laidOut := hl.holds hflat h
  exact ⟨hstores, hstores.nesting_eq_zero hflat, encode_eq_of_isAlike hp form.isPlain_layout hflat hl hstores⟩

/-- Fields of a flat layout that show what they were read from are read back when they are stored as they
are. -/
theorem Returns.readsBack {json : Json} {laidOut : FieldValues} (h : form.Returns g json laidOut)
    (hp : type.IsPlain schema) (hl : type.IsAlike form.layout) (hflat : type.IsFlat) (hlevels : 0 < levels) :
    form.ReadsBack schema type g levels json laidOut laidOut := by
  obtain ⟨hstores, hnesting, hsame⟩ := same_of_isFlat hp hl hflat h.holds
  exact ⟨h, hnesting ▸ Nat.zero_le _, hstores, hnesting ▸ hlevels, hsame⟩

/-- The empty object that `Empty` shows is read as no fields, which show it again. -/
theorem returns_empty {values : FieldValues} {json : Json} (hjson : empty.toJson? values = some json) :
    empty.Returns g json [] := by
  cases hjson
  exact ⟨rfl, MessageType.holds_nil _ _, by decide, rfl⟩

/-! ## Two scalars -/

section

variable {first second : String} {kind other : Scalar} {a b : Value}

/-- Values of two scalar kinds under the numbers 1 and 2 are a message of a layout with these two fields. -/
theorem holds_pair (ha : kind.Holds a) (hb : other.Holds b) :
    (⟨"", [scalarField first 1 kind, scalarField second 2 other]⟩ : MessageType).Holds layouts
      [(1, a), (2, b)] := by
  refine ⟨by simp [Assoc.IsSorted], ?_, ?_, ?_⟩
  all_goals rw [List.forall_mem_cons, List.forall_mem_singleton]
  · exact ⟨rfl, rfl⟩
  · constructor <;> rintro f ⟨⟩ number ⟨⟩
  · constructor <;> rintro f ⟨⟩
    · exact .scalar rfl ha
    · exact .scalar rfl hb

/-- A message of two scalars takes at most 20 bytes more than the scalars alone. -/
theorem length_encode_pair_le (ha : a.isScalar = true) (hb : b.isScalar = true) :
    (layouts.encode ⟨"", [scalarField first 1 kind, scalarField second 2 other]⟩ [(1, a), (2, b)]).length ≤
      (kind.encode a).length + (other.encode b).length + 20 := by
  have hfirst := length_encodeField_scalar_le_add layouts
    (isPlain_scalarField (show 0 < 1 by decide) (show 1 < 2 ^ 29 by decide) first kind).isWired rfl ha
  have hsecond := length_encodeField_scalar_le_add layouts
    (isPlain_scalarField (show 0 < 2 by decide) (show 2 < 2 ^ 29 by decide) second other).isWired rfl hb
  rw [encode, encode_singleton (f := scalarField second 2 other) rfl, List.length_append]
  show (layouts.encodeField (scalarField first 1 kind) a).length + _ ≤ _
  omega

end

end SpecialForm

/-! ## Wrappers -/

/-- Is the value something else than an infinite or NaN float? -/
def Value.isFinite : Value → Bool
  | .double x => x.isFinite
  | .float x => x.isFinite
  | _ => true

/-- A finite 32-bit float is finite as a 64-bit float. -/
theorem Binary32.isFinite_widen {x : Binary32} (h : x.isFinite = true) : x.widen.isFinite = true :=
  (narrow_widen h).1

namespace SpecialForm

variable {g : Binary64 → Binary64} {kind : Scalar}

/-- A wrapper shows a value as `scalarJson` does, unless it is an infinite or NaN float. -/
theorem wrappedJson_eq {value : Value} (hf : value.isFinite = true) : wrappedJson value = value.scalarJson := by
  cases value with
  | double x => exact (if_pos hf).trans (Json.ofFloat_of_isFinite hf).symm
  | float x => exact (if_pos hf).trans (Json.ofFloat_of_isFinite (Binary32.isFinite_widen hf)).symm
  | _ => rfl

/-- What a wrapper shows of a value that `isFinite` is read as a finite value that shows the same. -/
theorem exists_ofJson?_wrappedJson {value : Value} (h : kind.Holds value) (hf : value.isFinite = true) :
    ∃ again, kind.ofJson? (wrappedJson value) = some again ∧ again.isFinite = true ∧
      again.scalarJson = wrappedJson value := by
  rw [wrappedJson_eq hf]
  have hother : (∀ again, kind.Holds again → again.isFinite = true) →
      ∃ again, kind.ofJson? value.scalarJson = some again ∧ again.isFinite = true ∧
        again.scalarJson = value.scalarJson := by
    intro hfinite
    obtain ⟨again, hread, hform⟩ := Scalar.exists_ofJson?_scalarJson h
    exact ⟨again, hread, hfinite again (Scalar.holds_of_ofJson? hread), hform⟩
  cases kind with
  | double =>
    obtain ⟨x, rfl⟩ := h
    have hform : (Value.double x).scalarJson = .float x := Json.ofFloat_of_isFinite hf
    exact ⟨.double x, by rw [hform]; rfl, hf, rfl⟩
  | float =>
    obtain ⟨x, rfl⟩ := h
    obtain ⟨hfinite, hfits, hnarrow⟩ := Binary32.narrow_widen hf
    have hform : (Value.float x).scalarJson = .float x.widen := Json.ofFloat_of_isFinite hfinite
    refine ⟨.float x, ?_, hf, rfl⟩
    show (Json.single? _).map Value.float = _
    rw [hform, Json.single?, if_pos hfits, hnarrow, Option.map_some]
  | boolean | string | bytes =>
    refine hother fun again hagain => ?_
    obtain ⟨_, rfl⟩ := hagain
    rfl
  | _ =>
    refine hother fun again hagain => ?_
    obtain ⟨_, rfl, _⟩ := hagain
    rfl

/-- What a wrapper holds under number 1, or the zero of its kind without it, is of its kind. -/
theorem holds_get?_getD {values : FieldValues} (h : (wrapper kind).layout.Holds layouts values) :
    kind.Holds ((FieldValues.get? values 1).getD ((ValueType.scalar kind).zero 0)) := by
  cases hget : FieldValues.get? values 1 with
  | none =>
    exact ValueType.holds_zero rfl (by decide)
  | some value =>
    have hvalue := h.fields _ (FieldValues.mem_of_get?_eq_some hget) (scalarField "value" 1 kind) rfl
    exact hvalue.of_scalar? rfl

/-- What a wrapper shows is read as fields that show it again, if what it holds is finite and the size is below
`2 ^ 56`. -/
theorem exists_returns_wrapper (hzero : g Binary64.zero.neg = g Binary64.zero) {values : FieldValues}
    (h : (wrapper kind).layout.Holds layouts values)
    (hf : ((FieldValues.get? values 1).getD ((ValueType.scalar kind).zero 0)).isFinite = true) {json : Json}
    (hjson : (wrapper kind).toJson? values = some json) (hsize : json.size < 2 ^ 56) :
    ∃ laidOut, (wrapper kind).Returns g json laidOut := by
  have hholds := holds_get?_getD h
  generalize hvalue : (FieldValues.get? values 1).getD ((ValueType.scalar kind).zero 0) = value at hf hholds
  obtain rfl : wrappedJson value = json := by
    rw [toJson?, hvalue, Option.some.injEq] at hjson
    exact hjson
  obtain ⟨again, hread, hfinite, hform⟩ := exists_ofJson?_wrappedJson hholds hf
  have hagain := Scalar.holds_of_ofJson? hread
  have hwired := (isPlain_scalarField (show 0 < 1 by decide) (show 1 < 2 ^ 29 by decide) "value" kind).isWired
  have hget : FieldValues.get? (layouts.kept (wrapper kind).layout [(1, again)]) 1 =
      if (scalarField "value" 1 kind).omits again then none else some again := by
    rw [get?_kept (show ([(1, again)].map Prod.fst).Nodup from List.nodup_singleton 1)]
    show (if (scalarField "value" 1 kind).omits again then none else
      some (layouts.keptValue (.scalar kind) again)) = _
    rw [keptValue_scalar _ (Scalar.isScalar_of_holds hagain)]
  refine ⟨[(1, again)], ?_, ?_, ?_, ?_⟩
  · show (kind.ofJson? (wrappedJson value)).map (fun v => [(1, v)]) = _
    rw [hread, Option.map_some]
  · exact MessageType.holds_singleton (f := scalarField "value" 1 kind) rfl (.scalar rfl hagain)
  · have hlength := Scalar.length_encode_le hagain (hform ▸ hsize)
    have hfield := length_encodeField_scalar_le_add layouts hwired rfl (Scalar.isScalar_of_holds hagain)
    have hpos := (wrappedJson value).size_pos
    rw [hform] at hlength
    rw [encode_singleton (f := scalarField "value" 1 kind) rfl]
    omega
  · rw [toJson?, hget, ← hform, ← wrappedJson_eq hfinite]
    split
    · rename_i homits
      have hdefault : ((ValueType.scalar kind).zero 0).isDefault again = true := homits
      have hwrapped : wrappedJson ((ValueType.scalar kind).zero 0) =
          ((ValueType.scalar kind).zero 0).scalarJson := by
        refine wrappedJson_eq ?_
        cases kind <;> rfl
      rw [Option.getD_none, hwrapped, Option.map_some, wrappedJson_eq hfinite,
        scalarJson_of_isDefault hagain hdefault (.inl hzero)]
    · rfl

end SpecialForm

end Tagwire
