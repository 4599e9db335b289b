import Tagwire.Proofs.Json.Floats
import Tagwire.Proofs.Mapping.Scalar
import Tagwire.Proofs.Mapping.Shown
import Tagwire.Proofs.Wire.Passage

/-!
# What is kept shows the same

A field that is left out on the wire is shown by its default, which is what it held: nothing of a list or a
map, and of a scalar the zero, but for its sign.  So the object that a message is shown as is that of what is
kept of it, once a way of changing floats does not tell the two zeros apart; and where no field of a message
holds the negative one, the objects are the same.
-/

set_option autoImplicit false

namespace Tagwire

/-! ## Negative zeros -/

/-- Is the value the float `-0.0`, of 32 or 64 bits? -/
def Value.isNegativeZero : Value → Bool
  | .float x => x == Binary32.negativeZero
  | .double x => x == Binary64.zero.neg
  | _ => false

mutual

/-- Does a singular field of a message in the value hold `-0.0`? -/
def Value.hasNegativeZero : Value → Bool
  | .message fields => FieldValues.hasNegativeZero fields
  | .list items => Value.hasNegativeZeroInItems items
  | .map entries => Value.hasNegativeZeroInEntries entries
  | _ => false

/-- Does one of the singular fields, or a singular field of a message in them, hold `-0.0`? -/
def FieldValues.hasNegativeZero : List (Nat × Value) → Bool
  | [] => false
  | (_, value) :: rest =>
    value.isNegativeZero || value.hasNegativeZero || FieldValues.hasNegativeZero rest

/-- Does a singular field of a message among the items hold `-0.0`? -/
def Value.hasNegativeZeroInItems : List Value → Bool
  | [] => false
  | item :: rest => item.hasNegativeZero || Value.hasNegativeZeroInItems rest

/-- Does a singular field of a message among the values of a map hold `-0.0`? -/
def Value.hasNegativeZeroInEntries : List (MapKey × Value) → Bool
  | [] => false
  | (_, value) :: rest => value.hasNegativeZero || Value.hasNegativeZeroInEntries rest

end

/-- Fields have no `-0.0` exactly if none of them is one and none has one in a message within. -/
theorem FieldValues.hasNegativeZero_eq_false_iff {values : FieldValues} :
    FieldValues.hasNegativeZero values = false ↔
      ∀ e ∈ values, e.2.isNegativeZero = false ∧ e.2.hasNegativeZero = false := by
  induction values with
  | nil => simp [FieldValues.hasNegativeZero]
  | cons e rest ih =>
    obtain ⟨number, value⟩ := e
    rw [FieldValues.hasNegativeZero, Bool.or_eq_false_iff, Bool.or_eq_false_iff, ih, List.forall_mem_cons]

/-- Items have no `-0.0` exactly if no item has one in a message within. -/
theorem Value.hasNegativeZeroInItems_eq_false_iff {items : List Value} :
    Value.hasNegativeZeroInItems items = false ↔ ∀ item ∈ items, item.hasNegativeZero = false := by
  induction items with
  | nil => simp [Value.hasNegativeZeroInItems]
  | cons item rest ih =>
    rw [Value.hasNegativeZeroInItems, Bool.or_eq_false_iff, ih, List.forall_mem_cons]

/-- The values of a map have no `-0.0` exactly if none has one in a message within. -/
theorem Value.hasNegativeZeroInEntries_eq_false_iff {entries : List (MapKey × Value)} :
    Value.hasNegativeZeroInEntries entries = false ↔ ∀ e ∈ entries, e.2.hasNegativeZero = false := by
  induction entries with
  | nil => simp [Value.hasNegativeZeroInEntries]
  | cons e rest ih =>
    obtain ⟨key, value⟩ := e
    rw [Value.hasNegativeZeroInEntries, Bool.or_eq_false_iff, ih, List.forall_mem_cons]

namespace Schema

variable {schema : Schema} {unpack : Unpack} {g : Binary64 → Binary64}

/-! ## Values -/

/-- Items are shown one by one with `valueToJson?`. -/
theorem itemsToJson?_eq_mapM (type : ValueType) (items : List Value) :
    schema.itemsToJson? unpack type items = items.mapM (schema.valueToJson? unpack type) := by
  induction items with
  | nil => rw [itemsToJson?]; rfl
  | cons item rest ih => rw [itemsToJson?, ih, List.mapM_cons]

/-- The entries of a map are shown one by one with `valueToJson?`, each under the text of its key. -/
theorem entriesToJson?_eq_mapM (type : ValueType) (entries : List (MapKey × Value)) :
    schema.entriesToJson? unpack type entries = entries.mapM fun e =>
      (schema.valueToJson? unpack type e.2).map fun json => (e.1.text, json) := by
  induction entries with
  | nil => rw [entriesToJson?]; rfl
  | cons e rest ih =>
    obtain ⟨key, value⟩ := e
    rw [entriesToJson?, ih, List.mapM_cons]
    cases schema.valueToJson? unpack type value <;> rfl

/-- A scalar value of any type is shown by `scalarToJson`. -/
theorem valueToJson?_of_isScalar (type : ValueType) {value : Value} (h : value.isScalar = true) :
    schema.valueToJson? unpack type value = some (schema.scalarToJson type value) := by
  cases value <;> first | (cases h; done) | simp only [valueToJson?]

/-- Of a message, `keptValue` leaves the fields that `kept` leaves. -/
theorem keptValue_message {type : MessageType} (hm : schema.message? type.name = some type)
    (values : FieldValues) : schema.keptValue (.message type.name) (.message values) =
      .message (schema.kept type values) := by
  rw [keptValue]
  simp only [ValueType.name, hm]

/-- A message with a form of its own shows the same as what is kept of it, since both have the same bytes. -/
theorem valueToJson?_kept_of_form (unpack : Unpack) {type : MessageType}
    (hm : schema.message? type.name = some type) {form : SpecialForm}
    (hform : SpecialForm.ofTypeName? type.name = some form) (values : FieldValues) :
    schema.valueToJson? unpack (.message type.name) (.message (schema.kept type values)) =
      schema.valueToJson? unpack (.message type.name) (.message values) := by
  rw [valueToJson?, valueToJson?]
  simp only [ValueType.name, hm, hform, specialToJson?, SpecialForm.load?, encode_kept]

/-- Where each value has a field of the type, so has each that is kept. -/
theorem isSome_field?_of_mem_kept {type : MessageType} {values : FieldValues}
    (h : ∀ e ∈ values, (type.field? e.1).isSome = true) :
    ∀ e ∈ schema.kept type values, (type.field? e.1).isSome = true := by
  intro e he
  obtain ⟨e', he', heq⟩ := List.mem_map.mp ((keys_kept_sublist type values).subset (List.mem_map_of_mem he))
  exact heq ▸ h e' he'

/-- Of a map whose entries are of the type `target`, `entryTypes?` gives the kind of the keys and the type of
the values. -/
theorem entryTypes?_eq_some {name : String} {target : MessageType} {kind : Scalar}
    {keyField valueField : MessageField} (hm : schema.message? name = some target)
    (he : target.IsEntry kind keyField valueField) :
    schema.entryTypes? name = some (kind, valueField.type) := by
  simp only [entryTypes?, hm, he.key, he.value, he.keyType, Option.bind_eq_bind, Option.bind_some,
    ValueType.scalar?, Option.pure_def]

/-! ## Fields that are left out -/

/-- A scalar that `isDefault` for its kind shows as the zero of the kind does, unless `g` tells `-0.0` from zero
and it is `-0.0`. -/
theorem scalarJson_of_isDefault {kind : Scalar} {value : Value} (h : kind.Holds value)
    (hdefault : ((ValueType.scalar kind).zero 0).isDefault value = true)
    (hz : g Binary64.zero.neg = g Binary64.zero ∨ value.isNegativeZero = false) :
    value.scalarJson.mapFloats g = ((ValueType.scalar kind).zero 0).scalarJson.mapFloats g := by
  have hfinite : Binary64.zero.isFinite = true ∧ Binary64.zero.neg.isFinite = true := by decide
  have hjson : (Json.ofFloat Binary64.zero.neg).mapFloats g = (Json.ofFloat Binary64.zero).mapFloats g ∨
      value.isNegativeZero = false := by
    rw [Json.ofFloat_of_isFinite hfinite.1, Json.ofFloat_of_isFinite hfinite.2]
    exact hz.imp_left (congrArg Json.float)
  cases kind with
  | double =>
    obtain ⟨x, rfl⟩ := h
    rcases Binary64.eq_zero_of_isZero hdefault with rfl | rfl
    · rfl
    · exact hjson.resolve_right (by decide)
  | float =>
    obtain ⟨x, rfl⟩ := h
    rcases Binary32.eq_zero_of_isZero hdefault with rfl | rfl
    · rfl
    · rw [Value.scalarJson, Binary32.widen_zero.2]
      show _ = (Json.ofFloat Binary32.zero.widen).mapFloats g
      rw [Binary32.widen_zero.1]
      exact hjson.resolve_right (by decide)
  | boolean | string | bytes =>
    obtain ⟨x, rfl⟩ := h
    obtain rfl := beq_iff_eq.mp hdefault
    rfl
  | _ =>
    obtain ⟨x, rfl, -⟩ := h
    obtain rfl := beq_iff_eq.mp hdefault
    rfl

/-- A value for which its field `omits` shows as the default of the field does, unless `g` tells `-0.0` from
zero and it is `-0.0`. -/
theorem Holds.exists_valueToJson?_of_omits (unpack : Unpack) {f : MessageField} (hp : f.IsPlain)
    {value : Value} (h : schema.Holds f.shape f.type value) (homits : f.omits value = true)
    (hz : g Binary64.zero.neg = g Binary64.zero ∨ value.isNegativeZero = false) :
    ∃ json, schema.valueToJson? unpack f.type value = some json ∧
      json.mapFloats g = (schema.defaultToJson f).mapFloats g := by
  rw [MessageField.omits, Bool.and_eq_true, hp.default] at homits
  have hdefault := homits.2
  cases hshape : f.shape with
  | single =>
    have hzero : f.default = f.type.zero 0 := by rw [hp.default, hshape]; rfl
    rw [defaultToJson, hshape, hzero]
    rw [hshape] at h hdefault
    generalize f.type = type at h hdefault ⊢
    cases h with
    | @scalar type kind value hk h =>
      cases type with
      | scalar own =>
        cases hk
        refine ⟨value.scalarJson, ?_, ?_⟩
        · exact valueToJson?_scalar (Scalar.isScalar_of_holds h)
        · exact scalarJson_of_isDefault h hdefault hz
      | enum name =>
        cases hk
        obtain ⟨n, rfl, -⟩ := h
        obtain rfl := beq_iff_eq.mp hdefault
        exact ⟨_, valueToJson?_of_isScalar _ rfl, rfl⟩
      | message name => cases hk
    | message => cases hdefault
  | list =>
    rw [defaultToJson, hshape]
    rw [hshape] at h hdefault
    cases h with
    | @list _ items h =>
      obtain rfl := List.isEmpty_iff.mp hdefault
      exact ⟨.arr [], by rw [valueToJson?, itemsToJson?]; rfl, rfl⟩
  | map =>
    rw [defaultToJson, hshape]
    rw [hshape] at h hdefault
    generalize f.type = type at h ⊢
    cases h with
    | @map name target kind keyField valueField entries hm he =>
      obtain rfl := List.isEmpty_iff.mp hdefault
      refine ⟨.obj [], ?_, rfl⟩
      rw [valueToJson?, ValueType.name, entryTypes?_eq_some hm he]
      dsimp only
      rw [entriesToJson?_eq_mapM]
      rfl

/-- `memberToJson?` of a field is the same for the fields that are kept, up to `g`, if what is kept of its value
shows the same. -/
theorem map_memberToJson?_kept {type : MessageType} (hw : type.IsWired schema) (hp : type.IsPlain schema)
    {values : FieldValues}
    (h : type.Holds schema values) {f : MessageField} (hf : f ∈ type.fields)
    (hz : ∀ value, FieldValues.get? values f.number = some value →
      g Binary64.zero.neg = g Binary64.zero ∨ value.isNegativeZero = false)
    (hvalue : ∀ value, FieldValues.get? values f.number = some value →
      (schema.valueToJson? unpack f.type (schema.keptValue f.type value)).map (Json.mapFloats g) =
        (schema.valueToJson? unpack f.type value).map (Json.mapFloats g)) :
    (schema.memberToJson? unpack (schema.kept type values) f).map
        (List.map (Prod.map id (Json.mapFloats g))) =
      (schema.memberToJson? unpack values f).map (List.map (Prod.map id (Json.mapFloats g))) := by
  have hfield := hw.toIsLinked.field?_number hf
  unfold memberToJson?
  rw [get?_kept h.sorted.nodup]
  cases hget : FieldValues.get? values f.number with
  | none => rfl
  | some value =>
    rw [Option.bind_some, hfield, Option.bind_some]
    cases homits : f.omits value with
    | true =>
      have hholds := h.fields _ (FieldValues.mem_of_get?_eq_some hget) f hfield
      obtain ⟨json, hjson, heq⟩ :=
        hholds.exists_valueToJson?_of_omits unpack (hp.fields f hf) homits (hz value hget)
      have hpresence : f.presence = false := by
        rw [MessageField.omits, Bool.and_eq_true, Bool.not_eq_true'] at homits
        exact homits.1
      rw [if_pos rfl]
      dsimp only
      rw [hjson, hpresence, if_neg Bool.false_ne_true]
      simp only [Option.map_some, List.map_cons, List.map_nil, Prod.map_apply, heq]
    | false =>
      rw [if_neg Bool.false_ne_true]
      simpa only [Option.map_map, Function.comp_def, List.map_cons, List.map_nil, Prod.map_apply, id] using
        congrArg (Option.map fun json => [(f.jsonName, json)]) (hvalue value hget)

/-- Two ways to show fields give one object up to `g`, if they show each field the same up to `g`. -/
theorem map_ofMembers_mapM {a b : MessageField → Option (List (String × Json))} {fields : List MessageField}
    (h : ∀ f ∈ fields, (a f).map (List.map (Prod.map id (Json.mapFloats g))) =
      (b f).map (List.map (Prod.map id (Json.mapFloats g)))) :
    ((fields.mapM a).map fun shown => Json.ofMembers shown.flatten).map (Json.mapFloats g) =
      ((fields.mapM b).map fun shown => Json.ofMembers shown.flatten).map (Json.mapFloats g) := by
  have hshown := congrArg (Option.map fun shown => Json.ofMembers shown.flatten) (mapM_congr h)
  rw [← map_mapM, ← map_mapM, Option.map_map, Option.map_map] at hshown
  simpa only [Option.map_map, Function.comp_def, Json.mapFloats_ofMembers, List.map_flatten] using hshown

/-- Two ways to show items give one array up to `g`, if they show each item the same up to `g`. -/
theorem map_arr_mapM {α : Type} {a b : α → Option Json} {l : List α}
    (h : ∀ x ∈ l, (a x).map (Json.mapFloats g) = (b x).map (Json.mapFloats g)) :
    ((l.mapM a).map Json.arr).map (Json.mapFloats g) = ((l.mapM b).map Json.arr).map (Json.mapFloats g) := by
  have harr : ∀ jsons : List Json, (Json.arr jsons).mapFloats g = .arr (jsons.map (Json.mapFloats g)) := by
    intro jsons
    rw [Json.mapFloats, Json.mapFloatsOfItems_eq]
  have hitems := congrArg (Option.map Json.arr) (mapM_congr h)
  rw [← map_mapM, ← map_mapM] at hitems
  simpa only [Option.map_map, Function.comp_def, harr] using hitems

/-- Two ways to show the values under given keys give one object up to `g`, if they show each value the same up
to `g`. -/
theorem map_ofMembers_mapM_key {α : Type} {key : α → String} {a b : α → Option Json} {l : List α}
    (h : ∀ x ∈ l, (a x).map (Json.mapFloats g) = (b x).map (Json.mapFloats g)) :
    ((l.mapM fun x => (a x).map fun json => (key x, json)).map Json.ofMembers).map (Json.mapFloats g) =
      ((l.mapM fun x => (b x).map fun json => (key x, json)).map Json.ofMembers).map (Json.mapFloats g) := by
  have hmember : ∀ x ∈ l, ((a x).map fun json => (key x, json)).map (Prod.map id (Json.mapFloats g)) =
      ((b x).map fun json => (key x, json)).map (Prod.map id (Json.mapFloats g)) := by
    intro x hx
    simpa only [Option.map_map, Function.comp_def, Prod.map_apply, id] using
      congrArg (Option.map (key x, ·)) (h x hx)
  have hmembers := congrArg (Option.map Json.ofMembers) (mapM_congr hmember)
  rw [← map_mapM, ← map_mapM] at hmembers
  simpa only [Option.map_map, Function.comp_def, Json.mapFloats_ofMembers] using hmembers

/-- In a map of messages each value is kept with `keptValue`, and no entry loses its value. -/
theorem keptValue_map_of_isMessage {name : String} {target : MessageType} {kind : Scalar}
    {keyField valueField : MessageField} {entries : List (MapKey × Value)}
    (hm : schema.message? name = some target) (he : target.IsEntry kind keyField valueField)
    (hmessage : valueField.type.isMessage = true)
    (hvalues : ∀ e ∈ entries, schema.Holds .single valueField.type e.2) :
    schema.keptValue (.message name) (.map entries) =
      .map (entries.map fun e => (e.1, schema.keptValue valueField.type e.2)) := by
  rw [keptValue_map hm he]
  refine congrArg Value.map (List.map_congr_left fun e hmem => ?_)
  obtain ⟨own, hname⟩ := ValueType.exists_of_isMessage hmessage
  obtain ⟨_, fields, -, hfields, -⟩ := holds_message_iff.mp (hname ▸ hvalues e hmem)
  rw [keptInEntry, hfields, MessageField.omits_message, if_neg Bool.false_ne_true]

/-- What `keptValue` leaves of a value shows as the value does up to `g`, unless `g` tells `-0.0` from zero and
a singular field holds `-0.0`. -/
theorem Holds.map_valueToJson?_keptValue (hs : schema.IsPlain) (unpack : Unpack) {shape : FieldShape}
    {type : ValueType} {value : Value} (h : schema.Holds shape type value)
    (hmaps : schema.MapsMessages shape type)
    (hz : g Binary64.zero.neg = g Binary64.zero ∨ value.hasNegativeZero = false) :
    (schema.valueToJson? unpack type (schema.keptValue type value)).map (Json.mapFloats g) =
      (schema.valueToJson? unpack type value).map (Json.mapFloats g) := by
  induction h with
  | scalar hk h => rw [keptValue_scalar _ (Scalar.isScalar_of_holds h)]
  | @list type items h ih =>
    rw [Value.hasNegativeZero, Value.hasNegativeZeroInItems_eq_false_iff] at hz
    rw [keptValue, keptItems_eq_map, valueToJson?, valueToJson?, itemsToJson?_eq_mapM, itemsToJson?_eq_mapM,
      List.mapM_map]
    exact map_arr_mapM fun item hmem => ih item hmem (by intro h; cases h) (hz.imp_right fun hz => hz item hmem)
  | @map name target kind keyField valueField entries hm he hn hkeys hvalues ih =>
    obtain ⟨ownKey, ownValue, hown, hmessage⟩ := hmaps rfl target hm
    obtain rfl : ownValue = valueField := Option.some.inj (hown.value.symm.trans he.value)
    rw [Value.hasNegativeZero, Value.hasNegativeZeroInEntries_eq_false_iff] at hz
    rw [keptValue_map_of_isMessage hm he hmessage hvalues, valueToJson?, valueToJson?, ValueType.name,
      entryTypes?_eq_some hm he]
    dsimp only
    rw [entriesToJson?_eq_mapM, entriesToJson?_eq_mapM, List.mapM_map]
    exact map_ofMembers_mapM_key fun e hmem =>
      ih e hmem (by intro h; cases h) (hz.imp_right fun hz => hz e hmem)
  | @message name type values hm hsorted hfound halone hfields ih =>
    rw [Value.hasNegativeZero, FieldValues.hasNegativeZero_eq_false_iff] at hz
    have hw := hs.types name type hm
    have hp := hs.plain name type hm
    obtain rfl : type.name = name := hs.named (name, type) (Entries.mem_of_get?_eq_some hm)
    rw [keptValue_message hm]
    cases hform : SpecialForm.ofTypeName? type.name with
    | some form => rw [valueToJson?_kept_of_form unpack hm hform]
    | none =>
      have ht : type.IsOrdinary schema := ⟨hw.toIsLinked, hm, hform⟩
      have hmembers : ∀ f ∈ type.fields,
          (schema.memberToJson? unpack (schema.kept type values) f).map
            (List.map (Prod.map id (Json.mapFloats g))) =
          (schema.memberToJson? unpack values f).map (List.map (Prod.map id (Json.mapFloats g))) := by
        refine fun f hf => map_memberToJson?_kept hw hp ⟨hsorted, hfound, halone, hfields⟩ hf ?_ ?_
        · exact fun value hget => hz.imp_right fun hz => (hz _ (FieldValues.mem_of_get?_eq_some hget)).1
        · intro value hget
          have hmem := FieldValues.mem_of_get?_eq_some hget
          exact ih _ hmem f (hw.toIsLinked.field?_number hf) (hp.entries f hf) (hz.imp_right fun hz => (hz _ hmem).2)
      rw [ht.valueToJson?_eq_mapM hsorted hfound,
        ht.valueToJson?_eq_mapM (hsorted.sublist (keys_kept_sublist type values))
          (isSome_field?_of_mem_kept hfound)]
      exact map_ofMembers_mapM hmembers

/-! ## What is shown at all -/

/-- A value for which its field `omits` can be shown. -/
theorem Holds.isSome_valueToJson?_of_omits (unpack : Unpack) {shape : FieldShape} {type : ValueType}
    {value : Value} (h : schema.Holds shape type value) {f : MessageField} (homits : f.omits value = true) :
    (schema.valueToJson? unpack type value).isSome = true := by
  cases h with
  | scalar hk h =>
    rw [valueToJson?_of_isScalar _ (Scalar.isScalar_of_holds h)]
    rfl
  | message =>
    rw [MessageField.omits_message] at homits
    cases homits
  | list h =>
    rw [MessageField.eq_nil_of_omits_list homits, valueToJson?, itemsToJson?]
    rfl
  | map hm he =>
    rw [MessageField.eq_nil_of_omits_map homits, valueToJson?, ValueType.name, entryTypes?_eq_some hm he]
    dsimp only
    rw [entriesToJson?]
    rfl

/-- What is kept of a value in an entry of a map can be shown exactly if what is kept of it elsewhere can. -/
theorem Holds.isSome_valueToJson?_keptInEntry (unpack : Unpack) {f : MessageField} {type : ValueType}
    {value : Value} (h : schema.Holds .single type value)
    (hkept : (schema.valueToJson? unpack type (schema.keptValue f.type value)).isSome =
      (schema.valueToJson? unpack type value).isSome) :
    (schema.valueToJson? unpack type (schema.keptInEntry f value)).isSome =
      (schema.valueToJson? unpack type value).isSome := by
  rw [keptInEntry]
  split
  · rename_i homits
    cases h with
    | scalar hk h =>
      have hscalar := Scalar.isScalar_of_holds h
      have hunsigned : value.unsigned.isScalar = true := by
        rw [← hscalar]
        cases value <;> rfl
      rw [valueToJson?_of_isScalar _ hscalar, valueToJson?_of_isScalar _ hunsigned]
      rfl
    | message =>
      rw [MessageField.omits_message] at homits
      cases homits
  · exact hkept

/-- `memberToJson?` shows a field of what is kept exactly if it shows it of all fields, provided that this holds
of its value. -/
theorem isSome_memberToJson?_kept {type : MessageType} (hw : type.IsWired schema) {values : FieldValues}
    (h : type.Holds schema values) {f : MessageField} (hf : f ∈ type.fields)
    (hvalue : ∀ value, FieldValues.get? values f.number = some value →
      (schema.valueToJson? unpack f.type (schema.keptValue f.type value)).isSome =
        (schema.valueToJson? unpack f.type value).isSome) :
    (schema.memberToJson? unpack (schema.kept type values) f).isSome =
      (schema.memberToJson? unpack values f).isSome := by
  have hfield := hw.toIsLinked.field?_number hf
  unfold memberToJson?
  rw [get?_kept h.sorted.nodup]
  cases hget : FieldValues.get? values f.number with
  | none => rfl
  | some value =>
    rw [Option.bind_some, hfield, Option.bind_some]
    cases homits : f.omits value with
    | true =>
      have hholds := h.fields _ (FieldValues.mem_of_get?_eq_some hget) f hfield
      rw [if_pos rfl, Option.isSome_map, hholds.isSome_valueToJson?_of_omits unpack homits]
      rfl
    | false =>
      rw [if_neg Bool.false_ne_true, Option.isSome_map, Option.isSome_map]
      exact hvalue value hget

/-- What `keptValue` leaves of a value can be shown exactly if the value can. -/
theorem Holds.isSome_valueToJson?_keptValue (hs : schema.IsTyped) (unpack : Unpack) {shape : FieldShape}
    {type : ValueType} {value : Value} (h : schema.Holds shape type value) :
    (schema.valueToJson? unpack type (schema.keptValue type value)).isSome =
      (schema.valueToJson? unpack type value).isSome := by
  induction h with
  | scalar hk h => rw [keptValue_scalar _ (Scalar.isScalar_of_holds h)]
  | @list type items h ih =>
    rw [keptValue, keptItems_eq_map, valueToJson?, valueToJson?, Option.isSome_map, Option.isSome_map,
      itemsToJson?_eq_mapM, itemsToJson?_eq_mapM, List.mapM_map]
    exact isSome_mapM_congr ih
  | @map name target kind keyField valueField entries hm he hn hkeys hvalues ih =>
    rw [keptValue_map hm he, valueToJson?, valueToJson?, ValueType.name, entryTypes?_eq_some hm he]
    dsimp only
    rw [Option.isSome_map, Option.isSome_map, entriesToJson?_eq_mapM, entriesToJson?_eq_mapM, List.mapM_map]
    refine isSome_mapM_congr fun e hmem => ?_
    rw [Function.comp_apply, Option.isSome_map, Option.isSome_map]
    exact (hvalues e hmem).isSome_valueToJson?_keptInEntry unpack (ih e hmem)
  | @message name type values hm hsorted hfound halone hfields ih =>
    have hw := hs.types name type hm
    obtain rfl : type.name = name := hs.named (name, type) (Entries.mem_of_get?_eq_some hm)
    rw [keptValue_message hm]
    cases hform : SpecialForm.ofTypeName? type.name with
    | some form => rw [valueToJson?_kept_of_form unpack hm hform]
    | none =>
      have ht : type.IsOrdinary schema := ⟨hw.toIsLinked, hm, hform⟩
      rw [ht.valueToJson?_eq_mapM hsorted hfound,
        ht.valueToJson?_eq_mapM (hsorted.sublist (keys_kept_sublist type values))
          (isSome_field?_of_mem_kept hfound), Option.isSome_map, Option.isSome_map]
      refine isSome_mapM_congr fun f hf =>
        isSome_memberToJson?_kept hw ⟨hsorted, hfound, halone, hfields⟩ hf fun value hget => ?_
      exact ih _ (FieldValues.mem_of_get?_eq_some hget) f (hw.toIsLinked.field?_number hf)

end Schema

end Tagwire
