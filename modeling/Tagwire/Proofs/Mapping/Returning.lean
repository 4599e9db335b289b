import Tagwire.Proofs.Json.Size
import Tagwire.Proofs.Mapping.Kept
import Tagwire.Proofs.Mapping.Typing
import Tagwire.Proofs.Number.Nearest
import Tagwire.Proofs.Wire.Length

/-!
# What is shown can be read back

A JSON value that a message shows for one of its fields is read strictly as a value that shows the same, which
need not be the value that it was shown for: a float that is not a number has one form whatever its bits are.
Scalars and enumerations are read back one by one, lists item by item, and the object of a message member by
member, where the defaults that are shown set their fields as well.
-/

set_option autoImplicit false

namespace Tagwire

/-! ## Scalars -/

namespace Scalar

/-- The form of a 64-bit float is read as a float with the same form, which is the same but for the bits of
NaN. -/
theorem exists_ofJson?_ofFloat (x : Binary64) :
    ∃ y, (Json.ofFloat x).double? = some y ∧ Json.ofFloat y = Json.ofFloat x := by
  obtain ⟨hnan, hinfinity, hneg⟩ := Binary64.read?_names
  obtain ⟨hnan', hinfinity', hneg'⟩ := Binary64.ofFloat_names
  cases hparts : x.parts with
  | nan =>
    have hform : Json.ofFloat x = .str "NaN" := by rw [Json.ofFloat, hparts]
    exact ⟨_, by rw [hform]; exact hnan, by rw [hform, hnan']⟩
  | infinite negative =>
    have hform : Json.ofFloat x = .str (if negative then "-Infinity" else "Infinity") := by
      rw [Json.ofFloat, hparts]
    rw [hform]
    cases negative with
    | true => exact ⟨_, hneg, hneg'⟩
    | false => exact ⟨_, hinfinity, hinfinity'⟩
  | finite negative mantissa exponent =>
    have hform : Json.ofFloat x = .float x := by rw [Json.ofFloat, hparts]
    exact ⟨x, by rw [hform]; rfl, rfl⟩

/-- The form of a 32-bit float is read as a 32-bit float with the same form. -/
theorem exists_ofJson?_ofFloat_widen (x : Binary32) :
    ∃ y, (Json.ofFloat x.widen).single? = some y ∧ Json.ofFloat y.widen = Json.ofFloat x.widen := by
  have hread : ∃ nan infinity negative, Binary32.read? "NaN" = some nan ∧ nan.widen = Binary64.nan ∧
      Binary32.read? "Infinity" = some infinity ∧ infinity.widen = Binary64.infinity ∧
      Binary32.read? "-Infinity" = some negative ∧ negative.widen = Binary64.infinity.neg :=
    ⟨.ofNatBits FloatFormat.single.quietNaN, .ofNatBits FloatFormat.single.infinity,
      .ofNatBits (FloatFormat.single.withSign true FloatFormat.single.infinity), by decide⟩
  obtain ⟨nan, infinity, negative, hnan, hnanWide, hinfinity, hinfinityWide, hneg, hnegWide⟩ := hread
  obtain ⟨hnan', hinfinity', hneg'⟩ := Binary64.ofFloat_names
  cases hparts : x.parts with
  | nan =>
    have hwiden : x.widen = Binary64.nan := by rw [Binary32.widen, hparts]; rfl
    rw [hwiden, hnan']
    exact ⟨nan, hnan, by rw [hnanWide, hnan']⟩
  | infinite sign =>
    cases sign with
    | true =>
      have hwiden : x.widen = Binary64.infinity.neg := by
        rw [Binary32.widen, hparts]
        decide
      rw [hwiden, hneg']
      exact ⟨negative, hneg, by rw [hnegWide, hneg']⟩
    | false =>
      have hwiden : x.widen = Binary64.infinity := by rw [Binary32.widen, hparts]; rfl
      rw [hwiden, hinfinity']
      exact ⟨infinity, hinfinity, by rw [hinfinityWide, hinfinity']⟩
  | finite sign mantissa exponent =>
    obtain ⟨hfinite, hfits, hnarrow⟩ := Binary32.narrow_widen (x := x) (by rw [Binary32.isFinite, hparts])
    rw [Json.ofFloat_of_isFinite hfinite]
    exact ⟨x, by rw [Json.single?, if_pos hfits, hnarrow], Json.ofFloat_of_isFinite hfinite⟩

/-- The form of a scalar is read as a scalar with the same form. -/
theorem exists_ofJson?_scalarJson {kind : Scalar} {value : Value} (h : kind.Holds value) :
    ∃ again, kind.ofJson? value.scalarJson = some again ∧ again.scalarJson = value.scalarJson := by
  cases h using Holds.elim with
  | @integer kind range n hrange hn =>
    refine ⟨.int n, ?_, rfl⟩
    unfold ofJson?
    rw [hrange]
    dsimp only
    rw [Value.scalarJson, Json.integer?, if_pos hn, Option.map_some]
  | double x =>
    obtain ⟨y, hy, hform⟩ := exists_ofJson?_ofFloat x
    exact ⟨.double y, congrArg (Option.map Value.double) hy, hform⟩
  | float x =>
    obtain ⟨y, hy, hform⟩ := exists_ofJson?_ofFloat_widen x
    exact ⟨.float y, congrArg (Option.map Value.float) hy, hform⟩
  | boolean b => exact ⟨.bool b, rfl, rfl⟩
  | string s => exact ⟨.string s, rfl, rfl⟩
  | bytes b => exact ⟨.bytes b, congrArg (Option.map Value.bytes) (Base64.decode?_encode b), rfl⟩

/-- A scalar takes at most `4 * size + 10` bytes, where `size` is that of its form and below `2 ^ 56`. -/
theorem length_encode_le {kind : Scalar} {value : Value} (h : kind.Holds value)
    (hsize : value.scalarJson.size < 2 ^ 56) :
    (kind.encode value).length ≤ 4 * value.scalarJson.size + 10 := by
  have hvarint : ∀ {n : Nat}, n < 2 ^ 64 → (Varint.encode n).length ≤ 4 * value.scalarJson.size + 10 :=
    fun hn => (Varint.length_encode_le_ten hn).trans (Nat.le_add_left _ _)
  have hfixed : ∀ {n count : Nat}, count ≤ 10 →
      (Bytes.littleEndian n count).length ≤ 4 * value.scalarJson.size + 10 := by
    intro n count hcount
    rw [Bytes.length_littleEndian]
    omega
  cases h using Holds.elim with
  | @integer kind range n hrange hn =>
    cases kind <;> cases hrange
    case sint32.refl => exact hvarint ((zigzag_lt (2 ^ 31) (by omega)).trans (by decide))
    case sint64.refl => exact hvarint (zigzag_lt (2 ^ 63) (by omega))
    all_goals first | exact hvarint (twosComplement_lt n) | exact hfixed (by decide)
  | double x => exact hfixed (by decide)
  | float x => exact hfixed (by decide)
  | boolean b => exact hvarint (by split <;> decide)
  | string s =>
    have hchars : (Value.string s).scalarJson.size = s.length + 1 := rfl
    have hbytes := Bytes.length_ofString_le s
    have hprefixed : (lengthPrefixed (Bytes.ofString s)).length ≤ _ := length_lengthPrefixed_le (by omega)
    show (lengthPrefixed (Bytes.ofString s)).length ≤ _
    omega
  | bytes b =>
    have hchars : (Value.bytes b).scalarJson.size = (Base64.encode b).length + 1 := rfl
    have hbytes := Base64.length_le_length_encode b
    have hprefixed : (lengthPrefixed b).length ≤ _ := length_lengthPrefixed_le (by omega)
    show (lengthPrefixed b).length ≤ _
    omega

end Scalar

namespace Schema

variable {schema : Schema} {g : Binary64 → Binary64} {levels : Nat}

/-- A strict reader reads `json` as `value`, which shows `json` again up to `g`, nests at most `levels` deep and
takes at most `64 * json.size` bytes in any field. -/
structure ReadsBack (schema : Schema) (g : Binary64 → Binary64) (levels : Nat) (shape : FieldShape)
    (type : ValueType) (json : Json) (value : Value) : Prop where
  reads : schema.valueOfJson? true shape type json = some value
  nesting : value.nesting ≤ levels
  length : ∀ f : MessageField, f.IsWired → f.type = type →
    (schema.encodeField f value).length ≤ 64 * json.size
  shows : (schema.valueToJson? schema.unpackAny? type value).map (Json.mapFloats g) =
    some (json.mapFloats g)

/-- There is a value with `ReadsBack`. -/
def ComesBack (schema : Schema) (g : Binary64 → Binary64) (levels : Nat) (shape : FieldShape)
    (type : ValueType) (json : Json) : Prop :=
  ∃ value, schema.ReadsBack g levels shape type json value

/-! ## Single values -/

/-- A scalar that takes at most `4 * size + 10` bytes takes at most `64 * size` in a field. -/
theorem length_encodeField_scalar_le {f : MessageField} (hw : f.IsWired) {kind : Scalar}
    (hk : f.type.scalar? = some kind) {value : Value} (h : kind.Holds value) {size : Nat}
    (hlength : (kind.encode value).length ≤ 4 * size + 10) (hsize : 0 < size) :
    (schema.encodeField f value).length ≤ 64 * size := by
  have hfield := length_encodeField_scalar_le_add schema hw hk (Scalar.isScalar_of_holds h)
  omega

/-- The form of a scalar is read back. -/
theorem comesBack_scalar {kind : Scalar} {value : Value} (h : kind.Holds value)
    (hsize : value.scalarJson.size < 2 ^ 56) :
    schema.ComesBack g levels .single (.scalar kind) value.scalarJson := by
  obtain ⟨again, hread, hform⟩ := Scalar.exists_ofJson?_scalarJson h
  have hagain := Scalar.holds_of_ofJson? hread
  have hlength := Scalar.length_encode_le hagain (hform ▸ hsize)
  rw [hform] at hlength
  refine ⟨again, ?_, ?_, fun f hw htype => ?_, ?_⟩
  · rw [valueOfJson?, hread]
  · rw [Value.nesting_of_isScalar (Scalar.isScalar_of_holds hagain)]
    exact Nat.zero_le _
  · exact length_encodeField_scalar_le hw (by rw [htype]; rfl) hagain hlength (Json.size_pos _)
  · rw [valueToJson?_scalar (Scalar.isScalar_of_holds hagain), hform, Option.map_some]

/-- What `scalarToJson` shows for a number of an enumeration is read back. -/
theorem comesBack_enum (hs : schema.IsPlain) {name : String} (he : (schema.enum? name).isSome = true)
    {value : Value} (h : schema.Holds .single (.enum name) value) :
    schema.ComesBack g levels .single (.enum name) (schema.scalarToJson (.enum name) value) := by
  obtain ⟨enum, henum⟩ := Option.isSome_iff_exists.mp he
  have hint : Scalar.int32.Holds value := h.of_scalar? rfl
  obtain ⟨n, rfl, hlow, hhigh⟩ := hint
  have hback : ∀ again : Int, -(2 ^ 31) ≤ again → again ≤ 2 ^ 31 - 1 →
      schema.enumOfJson? name (schema.scalarToJson (.enum name) (.int n)) = some (.int again) →
      schema.scalarToJson (.enum name) (.int again) = schema.scalarToJson (.enum name) (.int n) →
      schema.ComesBack g levels .single (.enum name) (schema.scalarToJson (.enum name) (.int n)) := by
    intro again hagainLow hagainHigh hread hform
    have hagain : Scalar.int32.Holds (.int again) := ⟨again, rfl, hagainLow, hagainHigh⟩
    refine ⟨.int again, ?_, Nat.zero_le _, fun f hw htype => ?_, ?_⟩
    · rw [valueOfJson?, hread]
    · exact length_encodeField_scalar_le hw (by rw [htype]; rfl) hagain
        ((Scalar.length_encode_le hagain (show 1 < 2 ^ 56 by decide)).trans
          (Nat.add_le_add_right (Nat.mul_le_mul_left 4 (Json.size_pos _)) 10)) (Json.size_pos _)
    · rw [valueToJson?_of_isScalar _ rfl, hform, Option.map_some]
  by_cases hnull : name = nullEnum
  · have hform : ∀ m : Int, schema.scalarToJson (.enum name) (.int m) = .null := by
      intro m
      rw [scalarToJson, if_pos hnull]
    refine hback 0 (by decide) (by decide) ?_ ((hform 0).trans (hform n).symm)
    rw [hform, enumOfJson?, henum, Option.bind_eq_bind, Option.bind_some]
    exact if_pos hnull
  · refine hback n hlow hhigh ?_ rfl
    rw [scalarToJson, if_neg hnull, henum, Option.bind_some]
    unfold enumOfJson?
    rw [henum, Option.bind_eq_bind, Option.bind_some]
    cases hfind : enum.values.find? fun v => v.2 == n with
    | none =>
      dsimp only
      rw [if_pos ⟨hnull, hlow, by omega⟩]
    | some found =>
      obtain ⟨text, number⟩ := found
      -- Of the values with this name there is one only.
      have hnumber : number = n := by simpa using List.find?_some hfind
      have hname := find?_eq_some_of_nodup (g := Prod.fst) (hs.enumNames name enum henum)
        (List.mem_of_find?_eq_some hfind)
      dsimp only at hname ⊢
      rw [hname, Option.map_some, hnumber]

/-! ## Lists -/

/-- Values that take at most 64 bytes in a field for each unit of the size of their items do so together. -/
theorem length_flatMap_le_sizeOfItems {f : MessageField} {items : List Json} {values : List Value}
    (h : List.Forall₂ (fun json value => (schema.encodeField f value).length ≤ 64 * json.size)
      items values) : (values.flatMap (schema.encodeField f)).length ≤ 64 * Json.sizeOfItems items := by
  induction h with
  | nil => exact Nat.zero_le _
  | cons hfirst _ ih =>
    rw [List.flatMap_cons, List.length_append, Json.sizeOfItems]
    omega

/-- An array is read back in a repeated field, if each item is read back as a single value. -/
theorem comesBack_list (hs : schema.IsTyped) {type : ValueType} (ha : schema.Admits .single type)
    {items : List Json} (hsize : (Json.arr items).size < 2 ^ 56)
    (h : ∀ item ∈ items, schema.ComesBack g levels .single type item) :
    schema.ComesBack g levels .list type (.arr items) := by
  obtain ⟨values, hvalues⟩ := exists_forall₂ h
  rw [Json.size] at hsize
  refine ⟨.list values, ?_, ?_, fun f hw htype => ?_, ?_⟩
  · rw [valueOfJson?, itemsOfJson?_eq_some (hvalues.imp fun _ _ h => h.reads), Option.map_some]
  · rw [Value.nesting, Value.nestingOfItems_le_iff]
    intro value hvalue
    obtain ⟨item, -, hback⟩ := exists_of_forall₂ hvalues.flip hvalue
    exact hback.nesting
  · have hflat := length_flatMap_le_sizeOfItems (hvalues.imp fun _ _ h => h.length f hw htype)
    rw [encodeField, Json.size]
    split
    · exact Nat.zero_le _
    · cases hpacked : f.packed with
      | false =>
        rw [if_neg Bool.false_ne_true, encodeItems_eq_flatMap]
        omega
      | true =>
        obtain ⟨hshape, hpackable⟩ := hw.packed hpacked
        obtain ⟨kind, hk⟩ := ValueType.exists_scalar?_of_isPackable hpackable
        have hitems : ∀ value ∈ values, kind.Holds value ∧ f.omits value = false := by
          intro value hvalue
          obtain ⟨item, -, hback⟩ := exists_of_forall₂ hvalues.flip hvalue
          have hholds := holds_of_valueOfJson? hs item ha hback.reads
          exact ⟨hholds.of_scalar? (htype ▸ hk),
            hholds.omits_eq_false (by simp [hshape]) (hw.zero (by simp [hshape]))⟩
        have hle := length_encodePacked_le hw hk hitems (hflat.trans_lt (by omega))
        rw [if_pos rfl]
        omega
  · have hshown : (values.mapM (schema.valueToJson? schema.unpackAny? type)).map
        (List.map (Json.mapFloats g)) = some (items.map (Json.mapFloats g)) := by
      rw [map_mapM]
      refine mapM_eq_some_of_forall₂ ?_
      rw [List.forall₂_map_right_iff]
      exact hvalues.flip.imp fun _ _ h => h.shows
    obtain ⟨jsons, hjsons, heq⟩ := Option.map_eq_some_iff.mp hshown
    rw [valueToJson?, itemsToJson?_eq_mapM, hjsons, Option.map_some, Option.map_some, Json.mapFloats,
      Json.mapFloats, Json.mapFloatsOfItems_eq, Json.mapFloatsOfItems_eq, heq]

/-! ## Members -/

/-- No two well-known types have the same special form. -/
theorem eq_of_ofWellKnown? {kind other : WellKnown} {form : SpecialForm}
    (h : SpecialForm.ofWellKnown? kind = some form) (ho : SpecialForm.ofWellKnown? other = some form) :
    other = kind := by
  cases kind <;> cases h <;> cases other <;> first | rfl | cases ho

/-- The special form of a well-known type is that of no other type name. -/
theorem eq_typeName_of_form {name : String} {form : SpecialForm} (h : SpecialForm.ofTypeName? name = some form)
    {kind : WellKnown} (hk : SpecialForm.ofWellKnown? kind = some form) : name = kind.typeName := by
  obtain ⟨other, hother, hform⟩ := Option.bind_eq_some_iff.mp h
  have hname : other.typeName = name := by simpa using List.find?_some hother
  rw [← hname, eq_of_ofWellKnown? hk hform]

/-- Of the special forms, only `Value` reads null. -/
theorem eq_value_of_ofJson?_null {form : SpecialForm} {laidOut : FieldValues}
    (h : form.ofJson? .null = some laidOut) : form = .value ∧ laidOut = DynamicValue.ofJson .null := by
  cases form with
  | value => exact ⟨rfl, (Option.some.inj h).symm⟩
  | wrapper kind =>
    obtain ⟨scalar, hscalar, -⟩ := Option.map_eq_some_iff.mp h
    exact absurd rfl (Scalar.ne_null_of_ofJson? hscalar)
  | _ => cases h

/-- If `valueOfJson?` reads null as a value, `ofNull` sets a field to it. -/
theorem ofNull_of_valueOfJson? (hs : schema.IsTyped) {f : MessageField} (hp : f.IsPlain) {value : Value}
    (h : schema.valueOfJson? true f.shape f.type .null = some value) : schema.ofNull f = some (some value) := by
  cases hshape : f.shape with
  | list | map =>
    rw [hshape] at h
    cases h
  | single =>
    have hdefault : f.default = f.type.zero 0 := by rw [hp.default, hshape]; rfl
    rw [hshape] at h
    unfold ofNull
    cases htype : f.type with
    | scalar kind =>
      rw [htype, valueOfJson?] at h
      exact absurd rfl (Scalar.ne_null_of_ofJson? h)
    | enum name =>
      rw [htype, valueOfJson?] at h
      obtain ⟨enum, -, h⟩ := Option.bind_eq_some_iff.mp h
      obtain ⟨-, hzero⟩ := Option.ite_none_right_eq_some.mp h
      cases hzero
      dsimp only
      rw [hdefault, htype]
      rfl
    | message name =>
      rw [htype] at h
      have hne : ∀ members, Json.null ≠ .obj members := nofun
      cases hm : schema.message? name with
      | none =>
        rw [valueOfJson?, hm] at h
        cases h
      | some message =>
        obtain rfl : message.name = name := hs.named (name, message) (Entries.mem_of_get?_eq_some hm)
        cases hform : SpecialForm.ofTypeName? message.name with
        | none =>
          rw [valueOfJson?_ordinary_of_ne_obj hm hform hne] at h
          cases h
        | some form =>
          by_cases hany : form = .any
          · rw [valueOfJson?_any_of_ne_obj hm (hany ▸ hform) hne] at h
            cases h
          rw [valueOfJson?_form hm hform hany] at h
          obtain ⟨stored, hstored, rfl⟩ := Option.map_eq_some_iff.mp h
          obtain ⟨laidOut, hlaidOut, hstored⟩ := Option.bind_eq_some_iff.mp hstored
          obtain ⟨rfl, rfl⟩ := eq_value_of_ofJson?_null hlaidOut
          dsimp only
          rw [if_pos ⟨eq_typeName_of_form hform rfl, hshape⟩, hm]
          exact Option.map_eq_some_iff.mpr ⟨stored, hstored, rfl⟩

/-- If `valueOfJson?` reads the value of a member, null included, `ofMember` sets the field to what it reads. -/
theorem ofMember_of_valueOfJson? (hs : schema.IsTyped) {f : MessageField} (hp : f.IsPlain) {json : Json}
    {value : Value} (h : schema.valueOfJson? true f.shape f.type json = some value) :
    schema.ofMember f json (schema.valueOfJson? true f.shape f.type json) = some (some value) := by
  by_cases hnull : json = .null
  · subst hnull
    exact ofNull_of_valueOfJson? hs hp h
  · rw [ofMember_of_ne_null hnull, h, Option.map_some]

end Schema

namespace MessageType.IsOrdinary

open Schema

variable {schema : Schema} {g : Binary64 → Binary64} {levels : Nat} {type : MessageType}

/-- The chunks of fields that take at most 64 bytes for each unit of the size of their members do so together
for the object. -/
theorem length_chunks_le (ht : type.IsOrdinary schema) {members : List (String × Json)}
    {entries : List (Nat × Value)}
    (h : List.Forall₂ (fun m e => ∃ f ∈ type.fields, f.number = e.1 ∧
      (schema.encodeField f e.2).length ≤ 64 * m.2.size) members entries) :
    (entries.map fun e => (schema.chunk type e).length).sum ≤ 64 * Json.sizeOfMembers members := by
  induction h with
  | nil => exact Nat.zero_le _
  | @cons m e members entries hfirst _ ih =>
    obtain ⟨f, hf, hnumber, hlength⟩ := hfirst
    have hchunk : schema.chunk type e = schema.encodeField f e.2 := by
      rw [chunk, ← hnumber, ht.field?_number hf]
    obtain ⟨key, json⟩ := m
    rw [List.map_cons, List.sum_cons, hchunk, Json.sizeOfMembers]
    dsimp only at hlength
    omega

/-- Members each of which is read back for its field set the fields of a message, in order of number, each to a
value with `ReadsBack`, and take at most `64 * sizeOfMembers members` bytes. -/
theorem exists_fieldsOfJson? (hs : schema.IsTyped) (ht : type.IsOrdinary schema) (hw : type.IsWired schema)
    (hp : type.IsPlain schema) (hone : ∀ f ∈ type.fields, f.oneof = none) {members : Entries Json}
    (hsorted : Assoc.IsSorted members)
    (hdeclared : ∀ m ∈ members, ∃ f ∈ type.fields, f.jsonName = m.1)
    (hback : ∀ f ∈ type.fields, ∀ json, Entries.get? members f.jsonName = some json →
      schema.ComesBack g levels f.shape f.type json) :
    ∃ values, schema.fieldsOfJson? true type false [] members = some values ∧
      Assoc.IsSorted values ∧
      (schema.encode type values).length ≤ 64 * Json.sizeOfMembers members ∧
      (∀ e ∈ values, ∃ f ∈ type.fields, f.number = e.1 ∧
        ∃ json, Entries.get? members f.jsonName = some json ∧
          schema.ReadsBack g levels f.shape f.type json e.2) ∧
      ∀ f ∈ type.fields, (Entries.get? members f.jsonName).isSome = true → f.number ∈ values.map Prod.fst := by
  have hset : ∀ m ∈ members, ∃ e : Nat × Value, ∃ f ∈ type.fields, f.jsonName = m.1 ∧ f.number = e.1 ∧
      schema.ReadsBack g levels f.shape f.type m.2 e.2 := by
    intro m hm
    obtain ⟨f, hf, hname⟩ := hdeclared m hm
    obtain ⟨value, hvalue⟩ := hback f hf m.2 (hname ▸ Entries.get?_eq_some_of_mem hsorted hm)
    exact ⟨(f.number, value), f, hf, hname, rfl, hvalue⟩
  obtain ⟨entries, hentries⟩ := exists_forall₂ hset
  refine ⟨Assoc.insertAll [] entries, ?_, ?_, ?_, fun e he => ?_, fun f hf hsome => ?_⟩
  · refine fieldsOfJson?_eq_some (hentries.imp fun m e hm => ?_) []
    obtain ⟨f, hf, hname, hnumber, hvalue⟩ := hm
    exact ⟨f, hname ▸ ht.member?_jsonName hf, hone f hf,
      ofMember_of_valueOfJson? hs (hp.fields f hf) hvalue.reads, hnumber⟩
  · exact Assoc.IsSorted.insertAll (show Assoc.IsSorted [] from .nil) entries
  · refine (length_encode_insertAll_le entries).trans (ht.length_chunks_le (hentries.imp fun m e hm => ?_))
    obtain ⟨f, hf, -, hnumber, hvalue⟩ := hm
    exact ⟨f, hf, hnumber, hvalue.length f (hw.wired f hf) rfl⟩
  · obtain ⟨m, hm, f, hf, hname, hnumber, hvalue⟩ :=
      exists_of_forall₂ hentries.flip ((Assoc.mem_of_mem_insertAll he).resolve_right (by simp))
    exact ⟨f, hf, hnumber, m.2, hname ▸ Entries.get?_eq_some_of_mem hsorted hm, hvalue⟩
  · obtain ⟨json, hjson⟩ := Option.isSome_iff_exists.mp hsome
    obtain ⟨e, he, own, hown, hname, hnumber, -⟩ :=
      exists_of_forall₂ hentries (Entries.mem_of_get?_eq_some hjson)
    obtain rfl := List.inj_on_of_nodup_map ht.keys hown hf hname
    rw [Assoc.mem_keys_insertAll, hnumber]
    exact .inl (List.mem_map_of_mem he)

/-- Of the fields that members with `ReadsBack` set, `memberToJson?` shows each member again up to `g`, and
nothing for a field without one. -/
theorem map_memberToJson?_of_readsBack (ht : type.IsOrdinary schema) {members : Entries Json}
    (hpresent : ∀ f ∈ type.fields, f.presence = false → (Entries.get? members f.jsonName).isSome = true)
    {values : FieldValues}
    (hback : ∀ e ∈ values, ∃ f ∈ type.fields, f.number = e.1 ∧
      ∃ json, Entries.get? members f.jsonName = some json ∧
        schema.ReadsBack g levels f.shape f.type json e.2)
    (hset : ∀ f ∈ type.fields, (Entries.get? members f.jsonName).isSome = true →
      f.number ∈ values.map Prod.fst) {f : MessageField} (hf : f ∈ type.fields) :
    (schema.memberToJson? schema.unpackAny? values f).map (List.map (Prod.map id (Json.mapFloats g))) =
      (some ((Entries.get? members f.jsonName).toList.map fun json => (f.jsonName, json))).map
        (List.map (Prod.map id (Json.mapFloats g))) := by
  unfold memberToJson?
  cases hvalue : FieldValues.get? values f.number with
  | some value =>
    obtain ⟨own, hown, hnumber, json, hjson, hread⟩ := hback _ (FieldValues.mem_of_get?_eq_some hvalue)
    obtain rfl := List.inj_on_of_nodup_map ht.numbers hown hf hnumber
    have hshows := congrArg (Option.map fun json => [(own.jsonName, json)]) hread.shows
    rw [hjson]
    simpa only [Option.map_map, Function.comp_def, Option.map_some, Option.toList_some, List.map_cons,
      List.map_nil, Prod.map_apply, id] using hshows
  | none =>
    have hnone : Entries.get? members f.jsonName = none := by
      by_contra hsome
      have hmem := hset f hf (Option.isSome_iff_ne_none.mpr hsome)
      rw [FieldValues.get?_eq, Assoc.get?_eq_none_iff] at hvalue
      exact hvalue hmem
    have hpresence : f.presence = true := by
      by_contra habsent
      have hsome := hpresent f hf (by simpa using habsent)
      rw [hnone] at hsome
      cases hsome
    rw [hpresence, hnone, if_pos rfl]
    rfl

/-- The fields that members with `ReadsBack` set show the object of these members again up to `g`. -/
theorem map_valueToJson?_of_readsBack (ht : type.IsOrdinary schema) {members : Entries Json}
    (hsorted : Assoc.IsSorted members) (hdeclared : ∀ m ∈ members, ∃ f ∈ type.fields, f.jsonName = m.1)
    (hpresent : ∀ f ∈ type.fields, f.presence = false → (Entries.get? members f.jsonName).isSome = true)
    {values : FieldValues} (hvalues : Assoc.IsSorted values)
    (hback : ∀ e ∈ values, ∃ f ∈ type.fields, f.number = e.1 ∧
      ∃ json, Entries.get? members f.jsonName = some json ∧
        schema.ReadsBack g levels f.shape f.type json e.2)
    (hset : ∀ f ∈ type.fields, (Entries.get? members f.jsonName).isSome = true →
      f.number ∈ values.map Prod.fst) :
    (schema.valueToJson? schema.unpackAny? (.message type.name) (.message values)).map (Json.mapFloats g) =
      some ((Json.obj members).mapFloats g) := by
  have hfound : ∀ e ∈ values, (type.field? e.1).isSome = true := by
    intro e he
    obtain ⟨f, hf, hnumber, -⟩ := hback e he
    rw [← hnumber, ht.field?_number hf]
    rfl
  rw [ht.valueToJson?_eq_mapM hvalues hfound,
    map_ofMembers_mapM fun f hf => ht.map_memberToJson?_of_readsBack hpresent hback hset hf,
    mapM_eq_some_map fun _ _ => rfl, Option.map_some, Option.map_some, Json.ofMembers]
  refine congrArg some (congrArg (fun entries => (Json.obj entries).mapFloats g) ?_)
  refine Entries.ofList_eq_of_mem_iff hsorted fun key json => ?_
  simp only [List.mem_flatten, List.mem_map, exists_exists_and_eq_and, Option.mem_toList, Prod.mk.injEq]
  constructor
  · rintro ⟨f, hf, json, hjson, rfl, rfl⟩
    exact hjson
  · intro hjson
    obtain ⟨f, hf, rfl⟩ := hdeclared (key, json) (Entries.mem_of_get?_eq_some hjson)
    exact ⟨f, hf, json, hjson, rfl, rfl⟩

end MessageType.IsOrdinary

/-- Each member belongs to a field of the type and is read back for it if its size is below `2 ^ 56`; they are
sorted by key, and no field without presence lacks one. -/
structure Schema.MembersComeBack (schema : Schema) (g : Binary64 → Binary64) (levels : Nat) (type : MessageType)
    (members : Entries Json) : Prop where
  sorted : Assoc.IsSorted members
  declared : ∀ m ∈ members, ∃ f ∈ type.fields, f.jsonName = m.1
  present : ∀ f ∈ type.fields, f.presence = false → (Entries.get? members f.jsonName).isSome = true
  back : ∀ f ∈ type.fields, ∀ json, Entries.get? members f.jsonName = some json → json.size < 2 ^ 56 →
    schema.ComesBack g levels f.shape f.type json

/-- The object of an ordinary message is read back if its members are. -/
theorem MessageType.IsOrdinary.comesBack_obj {schema : Schema} {g : Binary64 → Binary64} {levels : Nat}
    {type : MessageType} (ht : type.IsOrdinary schema) (hs : schema.IsTyped) (hw : type.IsWired schema)
    (hp : type.IsPlain schema) (hone : ∀ f ∈ type.fields, f.oneof = none) {members : Entries Json}
    (h : schema.MembersComeBack g levels type members) (hsize : (Json.obj members).size < 2 ^ 56) :
    schema.ComesBack g (levels + 1) .single (.message type.name) (.obj members) := by
  obtain ⟨values, hfields, hvalues, hlength, hfrom, hset⟩ :=
    ht.exists_fieldsOfJson? hs hw hp hone h.sorted h.declared fun f hf json hget =>
      h.back f hf json hget ((Json.size_lt_of_get? hget).trans hsize)
  rw [Json.size] at hsize
  refine ⟨.message values, ?_, ?_, fun f hwired htype => ?_, ?_⟩
  · rw [Schema.valueOfJson?_ordinary ht.message ht.form, hfields, Option.map_some]
  · rw [Value.nesting]
    refine Nat.succ_le_succ (FieldValues.nesting_le_iff.mpr fun e he => ?_)
    obtain ⟨f, -, -, json, -, hread⟩ := hfrom e he
    exact hread.nesting
  · have hbody := hwired.length_encodeBody_le (hlength.trans_lt (by omega))
    have hname : f.type.name = type.name := by rw [htype]; rfl
    rw [Schema.encodeField, hname, ht.message, Json.size]
    split
    · exact Nat.zero_le _
    · dsimp only
      omega
  · exact ht.map_valueToJson?_of_readsBack h.sorted h.declared h.present hvalues hfrom hset

end Tagwire
