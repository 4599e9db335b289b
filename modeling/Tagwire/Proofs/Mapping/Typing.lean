import Tagwire.Proofs.Mapping.Lenient
import Tagwire.Proofs.Mapping.Linked
import Tagwire.Proofs.Wire.Decoded

/-!
# What JSON is read as is of its type

Whatever a member of a record holds, the value that it is read as is one of the type of its field: scalars
are checked as they are read, null stands for the default or for nothing, and of the fields of a oneof the
reader sets one only.  A message with a JSON form of its own comes out of bytes, and so is of its type like
all that is read from bytes.
-/

set_option autoImplicit false

namespace Tagwire

/-- An integer that `integerOfText?` reads is between the bounds. -/
theorem Json.bounds_of_integerOfText? {low high n : Int} {text : String}
    (h : integerOfText? low high text = some n) : low ≤ n ∧ n ≤ high := by
  unfold integerOfText? at h
  dsimp only at h
  split at h <;>
  · obtain ⟨m, -, h⟩ := Option.bind_eq_some_iff.mp h
    obtain ⟨hm, heq⟩ := Option.ite_none_right_eq_some.mp h
    cases heq
    exact hm

/-- An integer that `integer?` reads is between the bounds. -/
theorem Json.bounds_of_integer? {low high n : Int} {json : Json} (hle : low ≤ high)
    (h : json.integer? low high = some n) : low ≤ n ∧ n ≤ high := by
  cases json with
  | int m =>
    obtain ⟨hm, heq⟩ := Option.ite_none_right_eq_some.mp h
    cases heq
    exact hm
  | float x =>
    obtain ⟨m, -, h⟩ := Option.bind_eq_some_iff.mp h
    obtain ⟨hm, heq⟩ := Option.ite_none_right_eq_some.mp h
    cases heq
    exact ⟨le_min hm.1 hle, min_le_right _ _⟩
  | str text => exact bounds_of_integerOfText? h
  | _ => cases h

/-- A value that `ofJson?` reads is one of the kind. -/
theorem Scalar.holds_of_ofJson? {kind : Scalar} {json : Json} {value : Value}
    (h : kind.ofJson? json = some value) : kind.Holds value := by
  unfold ofJson? at h
  unfold Holds
  cases hrange : kind.integerRange? with
  | some range =>
    rw [hrange] at h
    obtain ⟨n, hn, rfl⟩ := Option.map_eq_some_iff.mp h
    have hle : range.1 ≤ range.2 := by
      cases kind <;> cases hrange <;> decide
    exact ⟨n, rfl, Json.bounds_of_integer? hle hn⟩
  | none =>
    rw [hrange] at h
    dsimp only at h ⊢
    split at h
    · obtain ⟨x, -, rfl⟩ := Option.map_eq_some_iff.mp h
      exact ⟨x, rfl⟩
    · obtain ⟨x, -, rfl⟩ := Option.map_eq_some_iff.mp h
      exact ⟨x, rfl⟩
    · cases h
      exact ⟨_, rfl⟩
    · cases h
      exact ⟨_, rfl⟩
    · obtain ⟨x, -, rfl⟩ := Option.map_eq_some_iff.mp h
      exact ⟨x, rfl⟩
    · cases h

/-- A key that `keyOfText?` reads is one of the kind. -/
theorem Scalar.holds_of_keyOfText? {kind : Scalar} (hkind : Schema.isKeyKind kind = true) {text : String}
    {key : MapKey} (h : kind.keyOfText? text = some key) : kind.Holds key.toValue := by
  unfold keyOfText? at h
  unfold Holds
  cases hrange : kind.integerRange? with
  | some range =>
    rw [hrange] at h
    obtain ⟨n, hn, rfl⟩ := Option.map_eq_some_iff.mp h
    exact ⟨n, rfl, Json.bounds_of_integerOfText? hn⟩
  | none =>
    rw [hrange] at h
    cases kind with
    | boolean =>
      dsimp only at h
      split at h
      · cases h
        exact ⟨true, rfl⟩
      · obtain ⟨-, heq⟩ := Option.ite_none_right_eq_some.mp h
        cases heq
        exact ⟨false, rfl⟩
    | string =>
      cases h
      exact ⟨text, rfl⟩
    | double | float | bytes => cases hkind
    | _ => cases hrange

namespace Schema

variable {schema : Schema}

/-- The default of a field that is not a message is a value of its shape and its type. -/
theorem holds_default {f : MessageField} (hw : f.IsWired) (ha : schema.Admits f.shape f.type)
    (hm : f.type.isMessage = false) : schema.Holds f.shape f.type f.default := by
  cases hshape : f.shape with
  | single =>
    obtain ⟨kind, hk⟩ : ∃ kind, f.type.scalar? = some kind := by
      cases htype : f.type with
      | scalar kind => exact ⟨kind, rfl⟩
      | enum name => exact ⟨_, rfl⟩
      | message name =>
        rw [htype] at hm
        cases hm
    exact .scalar hk (hw.scalar hshape kind hk)
  | list =>
    rw [hw.zero (by simp [hshape]), hshape]
    exact .list (by simp)
  | map =>
    rw [hshape] at ha
    cases htype : f.type with
    | scalar kind => exact absurd rfl (htype ▸ ha)
    | enum name => exact absurd rfl (htype ▸ ha).1
    | message name =>
      rw [htype] at hm
      cases hm

/-- A value that `enumOfJson?` reads is one of the enumeration. -/
theorem holds_of_enumOfJson? (hs : schema.IsTyped) {name : String} {json : Json} {value : Value}
    (h : schema.enumOfJson? name json = some value) : schema.Holds .single (.enum name) value := by
  unfold enumOfJson? at h
  obtain ⟨enum, henum, h⟩ := Option.bind_eq_some_iff.mp h
  have hwithin : ∀ {n : Int}, -(2 ^ 31) ≤ n → n ≤ 2 ^ 31 - 1 → schema.Holds .single (.enum name) (.int n) :=
    fun hlow hhigh => .scalar rfl ⟨_, rfl, hlow, hhigh⟩
  cases json with
  | str text =>
    obtain ⟨v, hv, rfl⟩ := Option.map_eq_some_iff.mp h
    obtain ⟨hlow, hhigh⟩ := hs.enums name enum henum v (List.mem_of_find?_eq_some hv)
    exact hwithin hlow hhigh
  | int n =>
    obtain ⟨⟨-, hlow, hhigh⟩, h⟩ := Option.ite_none_right_eq_some.mp h
    cases h
    exact hwithin hlow (by omega)
  | null =>
    obtain ⟨-, h⟩ := Option.ite_none_right_eq_some.mp h
    cases h
    exact hwithin (by decide) (by decide)
  | _ => cases h

/-- A message that `store?` makes of the layout of a form is of its type. -/
theorem holds_of_store? (hs : schema.IsTyped) {name : String} {type : MessageType}
    (hm : schema.message? name = some type) {form : SpecialForm} {values : FieldValues} {value : Value}
    (h : (form.store? schema type values).map .message = some value) :
    schema.Holds .single (.message name) value := by
  obtain ⟨stored, hstored, rfl⟩ := Option.map_eq_some_iff.mp h
  exact holds_message_iff.mpr
    ⟨type, stored, hm, rfl, (hs.types.holdsFields_of_decode? (hs.types name type hm) hstored).1⟩

/-- A message that `ofJson?` and `store?` make of a JSON value is of its type. -/
theorem holds_of_form (hs : schema.IsTyped) {name : String} {type : MessageType}
    (hm : schema.message? name = some type) {form : SpecialForm} {json : Json} {value : Value}
    (h : ((form.ofJson? json).bind (form.store? schema type)).map .message = some value) :
    schema.Holds .single (.message name) value := by
  obtain ⟨stored, hstored, rfl⟩ := Option.map_eq_some_iff.mp h
  obtain ⟨values, -, hstored⟩ := Option.bind_eq_some_iff.mp hstored
  exact holds_of_store? hs hm (by rw [hstored]; rfl)

/-- A message that `valueOfJson?` reads from anything but an object is of its type. -/
theorem holds_of_ne_obj (hs : schema.IsTyped) {name : String} {type : MessageType}
    (hm : schema.message? name = some type) {strict : Bool} {json : Json} (hne : ∀ members, json ≠ .obj members)
    {value : Value} (h : schema.valueOfJson? strict .single (.message name) json = some value) :
    schema.Holds .single (.message name) value := by
  cases hform : SpecialForm.ofTypeName? type.name with
  | none =>
    rw [valueOfJson?_ordinary_of_ne_obj hm hform hne] at h
    cases h
  | some form =>
    by_cases hany : form = .any
    · rw [valueOfJson?_any_of_ne_obj hm (hany ▸ hform) hne] at h
      cases h
    · rw [valueOfJson?_form hm hform hany] at h
      exact holds_of_form hs hm h

/-- A value that `ofMember` sets is of the shape and the type of the field, if what has been read is. -/
theorem holds_of_ofMember (hs : schema.IsTyped) {type : MessageType} (hw : type.IsWired schema)
    {f : MessageField} (hf : f ∈ type.fields) {json : Json} {read : Option Value} {value : Value}
    (hread : ∀ value, read = some value → schema.Holds f.shape f.type value)
    (h : schema.ofMember f json read = some (some value)) : schema.Holds f.shape f.type value := by
  cases json with
  | null =>
    unfold ofMember ofNull at h
    dsimp only at h
    split at h
    · rename_i name htype
      split at h
      · rename_i hvalue
        split at h
        · rename_i target htarget
          obtain ⟨stored, hstored, heq⟩ := Option.map_eq_some_iff.mp h
          cases heq
          rw [hvalue.2, htype]
          exact holds_of_store? hs htarget (by rw [hstored]; rfl)
        · cases h
      · cases h
    · rename_i hmessage
      cases h
      refine holds_default (hw.wired f hf) (hw.admits hf) ?_
      cases htype : f.type with
      | message name => exact absurd htype (hmessage name)
      | _ => rfl
  | _ =>
    obtain ⟨read, hvalue, heq⟩ := Option.map_eq_some_iff.mp h
    cases heq
    exact hread _ hvalue

/-- Fields stay a message of the type when `setMember?` sets one, if what is read of the member is of the shape
and the type of the field. -/
theorem holds_of_setMember? (hs : schema.IsTyped) {type : MessageType} (hw : type.IsWired schema)
    {strict : Bool} {values next : FieldValues} {m : String × Json} (hv : type.Holds schema values)
    (hread : ∀ f ∈ type.fields, ∀ value, schema.valueOfJson? strict f.shape f.type m.2 = some value →
      schema.Holds f.shape f.type value)
    (h : schema.setMember? strict type values m = some next) : type.Holds schema next := by
  rcases cases_of_setMember? h with ⟨-, rfl⟩ | ⟨f, set, hmember, hset, rfl, hrivals⟩
  · exact hv
  have hf := (MessageType.of_member? hmember).1
  cases set with
  | none => exact hv
  | some value =>
    rw [Option.map_some, Option.getD_some, ← MessageType.setField_eq_of_rivals (hrivals nofun)]
    exact hv.setField hw.toIsLinked (hw.toIsLinked.field?_number hf)
      (holds_of_ofMember hs hw hf (hread f hf) hset)

mutual

/-- A value that `valueOfJson?` reads is of the shape and the type that it is read for. -/
theorem holds_of_valueOfJson? (hs : schema.IsTyped) {strict : Bool} (json : Json) {shape : FieldShape}
    {type : ValueType} (ha : schema.Admits shape type) {value : Value}
    (h : schema.valueOfJson? strict shape type json = some value) : schema.Holds shape type value := by
  match shape, type, json with
  | .list, type, .arr items =>
    rw [valueOfJson?] at h
    obtain ⟨values, hvalues, rfl⟩ := Option.map_eq_some_iff.mp h
    exact .list (holds_of_itemsOfJson? hs items ha.single hvalues)
  | .list, type, .null | .list, type, .bool _ | .list, type, .int _ | .list, type, .float _
  | .list, type, .str _ | .list, type, .obj _ =>
    cases h
  | .map, .scalar _, _ => exact absurd rfl ha
  | .map, .enum _, _ => exact absurd rfl ha.1
  | .map, .message name, .obj members =>
    obtain ⟨target, ht, hentry⟩ := ha
    obtain ⟨kind, keyField, valueField, he⟩ := hentry rfl
    rw [valueOfJson?_map, Option.bind_eq_some_iff] at h
    obtain ⟨types, htypes, hmap⟩ := h
    obtain ⟨entries, hentries, rfl⟩ := Option.map_eq_some_iff.mp hmap
    have hkind : types = (kind, valueField.type) := by
      simp only [entryTypes?, ValueType.name, ht, he.key, he.value, he.keyType, Option.bind_eq_bind,
        Option.bind_some, ValueType.scalar?, Option.pure_def, Option.some.injEq] at htypes
      exact htypes.symm
    subst hkind
    have hvalueType := ((hs.types name target ht).admits (List.mem_of_find?_eq_some he.value)).single
    obtain ⟨hn, hkeys, hvalues⟩ := holds_of_entriesOfJson? hs members he.keyKind hvalueType (by simp)
      (by simp) (by simp) hentries
    exact .map ht he hn hkeys hvalues
  | .map, .message _, .null | .map, .message _, .bool _ | .map, .message _, .int _
  | .map, .message _, .float _ | .map, .message _, .str _ | .map, .message _, .arr _ =>
    cases h
  | .single, .scalar kind, json =>
    rw [valueOfJson?] at h
    exact .scalar rfl (Scalar.holds_of_ofJson? h)
  | .single, .enum name, json =>
    rw [valueOfJson?] at h
    exact holds_of_enumOfJson? hs h
  | .single, .message name, .null | .single, .message name, .bool _ | .single, .message name, .int _
  | .single, .message name, .float _ | .single, .message name, .str _ | .single, .message name, .arr _ =>
    obtain ⟨target, ht, -⟩ := ha
    exact holds_of_ne_obj hs ht (by simp) h
  | .single, .message name, .obj members =>
    obtain ⟨target, ht, -⟩ := ha
    cases hform : SpecialForm.ofTypeName? target.name with
    | none =>
      rw [valueOfJson?_ordinary ht hform] at h
      obtain ⟨values, hvalues, rfl⟩ := Option.map_eq_some_iff.mp h
      exact holds_message_iff.mpr ⟨target, values, ht, rfl,
        holds_of_fieldsOfJson? hs members (hs.types name target ht) (target.holds_nil schema) hvalues⟩
    | some form =>
      by_cases hany : form = .any
      · subst hany
        rw [valueOfJson?_any ht hform] at h
        simp only [Option.bind_eq_some_iff] at h
        obtain ⟨address, -, payload, -, values, -, h⟩ := h
        exact holds_of_store? hs ht h
      · rw [valueOfJson?_form ht hform hany] at h
        exact holds_of_form hs ht h
termination_by structural json

/-- Fields of a message of the type stay so when `fieldsOfJson?` reads members. -/
theorem holds_of_fieldsOfJson? (hs : schema.IsTyped) {strict : Bool} (members : List (String × Json))
    {type : MessageType} (hw : type.IsWired schema) {inAny : Bool} {values result : FieldValues}
    (hv : type.Holds schema values)
    (h : schema.fieldsOfJson? strict type inAny values members = some result) :
    type.Holds schema result := by
  match members with
  | [] =>
    cases h
    exact hv
  | (key, json) :: rest =>
    rw [fieldsOfJson?_cons] at h
    split at h
    · exact holds_of_fieldsOfJson? hs rest hw hv h
    · obtain ⟨next, hnext, hrest⟩ := Option.bind_eq_some_iff.mp h
      refine holds_of_fieldsOfJson? hs rest hw (holds_of_setMember? hs hw hv (fun f hf value hread => ?_) hnext) hrest
      exact holds_of_valueOfJson? hs json (hw.admits hf) hread
termination_by structural members

/-- The items that `itemsOfJson?` reads are of their type. -/
theorem holds_of_itemsOfJson? (hs : schema.IsTyped) {strict : Bool} (items : List Json) {type : ValueType}
    (ha : schema.Admits .single type) {values : List Value}
    (h : schema.itemsOfJson? strict type items = some values) :
    ∀ value ∈ values, schema.Holds .single type value := by
  match items with
  | [] =>
    cases h
    simp
  | json :: rest =>
    simp only [itemsOfJson?, Option.bind_eq_bind, Option.bind_eq_some_iff, Option.pure_def,
      Option.some.injEq] at h
    obtain ⟨value, hvalue, others, hothers, rfl⟩ := h
    exact List.forall_mem_cons.mpr
      ⟨holds_of_valueOfJson? hs json ha hvalue, holds_of_itemsOfJson? hs rest ha hothers⟩
termination_by structural items

/-- The entries that `entriesOfJson?` reads are those of a map: their keys are distinct and of the kind, and
their values of the type. -/
theorem holds_of_entriesOfJson? (hs : schema.IsTyped) {strict : Bool} (members : List (String × Json))
    {kind : Scalar} (hkind : isKeyKind kind = true) {type : ValueType} (ha : schema.Admits .single type)
    {entries result : List (MapKey × Value)}
    (hn : (entries.map Prod.fst).Nodup) (hkeys : ∀ e ∈ entries, kind.Holds e.1.toValue)
    (hvalues : ∀ e ∈ entries, schema.Holds .single type e.2)
    (h : schema.entriesOfJson? strict kind type entries members = some result) :
    (result.map Prod.fst).Nodup ∧ (∀ e ∈ result, kind.Holds e.1.toValue) ∧
      ∀ e ∈ result, schema.Holds .single type e.2 := by
  match members with
  | [] =>
    cases h
    exact ⟨hn, hkeys, hvalues⟩
  | (key, json) :: rest =>
    simp only [entriesOfJson?, Option.bind_eq_bind, Option.bind_eq_some_iff] at h
    obtain ⟨mapKey, hkey, value, hvalue, h⟩ := h
    have hholds := holds_of_valueOfJson? hs json ha hvalue
    refine holds_of_entriesOfJson? hs rest hkind ha (Value.nodup_setEntry hn _ _) ?_ ?_ h
    · intro e he
      rcases Value.mem_of_mem_setEntry he with rfl | he
      · exact Scalar.holds_of_keyOfText? hkind hkey
      · exact hkeys e he
    · intro e he
      rcases Value.mem_of_mem_setEntry he with rfl | he
      · exact hholds
      · exact hvalues e he
termination_by structural members

end

/-- A value that `valueOfJson?` reads for a message type is a message of this type. -/
theorem exists_message_of_valueOfJson? (hs : schema.IsTyped) {type : MessageType}
    (hm : schema.message? type.name = some type) {strict : Bool} {json : Json} {value : Value}
    (h : schema.valueOfJson? strict .single (.message type.name) json = some value) :
    ∃ values, value = .message values ∧ type.Holds schema values := by
  obtain ⟨found, values, hfound, rfl, hholds⟩ :=
    holds_message_iff.mp (holds_of_valueOfJson? hs json (admits_message hm) h)
  obtain rfl := Option.some.inj (hm.symm.trans hfound)
  exact ⟨values, rfl, hholds⟩

end Schema

end Tagwire
