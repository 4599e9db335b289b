import Tagwire.Proofs.Json.Size
import Tagwire.Proofs.Mapping.Spellings

/-!
# What a field can take

`Scalar.Takes` and `Registry.Takes` say which JSON values a declared field can hold, kind by kind and shape by
shape and without a word on how they are read: a flag takes `true` and `false`, a list takes an array of what
its items take, a record takes an object whose members suit the fields that they address.  A value that is not
taken is mistyped.  The reader reads exactly what is taken.
-/

set_option autoImplicit false

namespace Tagwire

/-! ## Scalars -/

namespace Scalar

/-- `kind.Takes json` says that the JSON value `json` is one of the scalar kind `kind`.  Integers lie in
`integerRange?`, be they written as integers, as floats without a fraction or as texts; a text of an unsigned
kind has no minus sign, and for a 64-bit kind the float nearest to the greatest integer stands for it. -/
inductive Takes : Scalar → Json → Prop where
  | boolean (value : Bool) : Takes .boolean (.bool value)
  | string (text : String) : Takes .string (.str text)
  | bytes {text : String} {content : Bytes} (h : Base64.decode? text = some content) : Takes .bytes (.str text)
  | integer {kind : Scalar} {low high n : Int} (hrange : kind.integerRange? = some (low, high))
      (hlow : low ≤ n) (hhigh : n ≤ high) : Takes kind (.int n)
  | wholeFloat {kind : Scalar} {low high n : Int} {x : Binary64}
      (hrange : kind.integerRange? = some (low, high)) (hn : x.toInt? = some n) (hlow : low ≤ n)
      (hhigh : n ≤ high) : Takes kind (.float x)
  | greatestFloat {kind : Scalar} {low high : Int} {x : Binary64}
      (hrange : kind.integerRange? = some (low, high))
      (hgreatest : x.toInt? = (Binary64.ofInt high).toInt?) : Takes kind (.float x)
  | signedText {kind : Scalar} {low high n : Int} {text : String}
      (hrange : kind.integerRange? = some (low, high)) (hsigned : low < 0) (hn : readInt? text = some n)
      (hlow : low ≤ n) (hhigh : n ≤ high) : Takes kind (.str text)
  | unsignedText {kind : Scalar} {high : Int} {n : Nat} {text : String}
      (hrange : kind.integerRange? = some (0, high)) (hn : readNat? text = some n) (hhigh : n ≤ high) :
      Takes kind (.str text)
  | doubleInteger (n : Int) : Takes .double (.int n)
  | doubleFloat (x : Binary64) : Takes .double (.float x)
  | doubleText {text : String} {x : Binary64} (h : Binary64.read? text = some x) : Takes .double (.str text)
  | floatInteger (n : Int) : Takes .float (.int n)
  | floatFloat {x : Binary64} (h : Json.fitsSingle x = true) : Takes .float (.float x)
  | floatText {text : String} {x : Binary32} (h : Binary32.read? text = some x) : Takes .float (.str text)

/-- The range of an integer kind includes zero, and the float nearest to its upper bound is this bound or, for
64 bits, the next integer. -/
theorem integerRange?_spec {kind : Scalar} {low high : Int} (h : kind.integerRange? = some (low, high)) :
    low ≤ 0 ∧ 0 ≤ high ∧ ∃ top, (Binary64.ofInt high).toInt? = some top ∧ (top = high ∨ top = high + 1) := by
  cases kind <;> first
    | (cases h; done)
    | (obtain ⟨rfl, rfl⟩ := Prod.mk.inj (Option.some.inj h); exact ⟨by decide, by decide, _, rfl, by decide⟩)

/-- A field of an integer kind reads the integers of `integerRange?`. -/
theorem ofJson?_of_integerRange? {kind : Scalar} {low high : Int} (h : kind.integerRange? = some (low, high))
    (json : Json) : kind.ofJson? json = (json.integer? low high).map .int := by
  rw [ofJson?.eq_def, h]

/-- What `integer?` reads in the range of a kind is taken by the kind. -/
theorem takes_of_integer? {kind : Scalar} {low high n : Int} (h : kind.integerRange? = some (low, high))
    {json : Json} (hn : json.integer? low high = some n) : kind.Takes json := by
  obtain ⟨hlow, -, top, htop, hnear⟩ := integerRange?_spec h
  match json with
  | .int m =>
    obtain ⟨⟨hl, hh⟩, -⟩ := Option.ite_none_right_eq_some.mp hn
    exact .integer h hl hh
  | .float x =>
    obtain ⟨m, hm, hn⟩ := Option.bind_eq_some_iff.mp hn
    obtain ⟨⟨hl, hh⟩, -⟩ := Option.ite_none_right_eq_some.mp hn
    rw [htop, Option.getD_some] at hh
    by_cases hle : m ≤ high
    · exact .wholeFloat h hm hl hle
    · have heq : m = top := by omega
      exact .greatestFloat h (hm.trans (heq ▸ htop.symm))
  | .str text =>
    rw [Json.integer?, Json.integerOfText?] at hn
    split at hn
    · obtain ⟨m, hm, hn⟩ := Option.bind_eq_some_iff.mp hn
      obtain ⟨⟨hl, hh⟩, -⟩ := Option.ite_none_right_eq_some.mp hn
      exact .signedText h ‹_› hm hl hh
    · obtain ⟨_, hm, hn⟩ := Option.bind_eq_some_iff.mp hn
      obtain ⟨⟨-, hh⟩, -⟩ := Option.ite_none_right_eq_some.mp hn
      obtain ⟨m, hnat, rfl⟩ := Option.map_eq_some_iff.mp hm
      obtain rfl : low = 0 := by omega
      exact .unsignedText h hnat hh
  | .null | .bool _ | .arr _ | .obj _ => cases hn

/-- What `ofJson?` reads is taken by the kind. -/
theorem takes_of_ofJson? {kind : Scalar} {json : Json} {value : Value} (h : kind.ofJson? json = some value) :
    kind.Takes json := by
  cases hrange : kind.integerRange? with
  | some range =>
    obtain ⟨low, high⟩ := range
    rw [ofJson?_of_integerRange? hrange] at h
    obtain ⟨n, hn, -⟩ := Option.map_eq_some_iff.mp h
    exact takes_of_integer? hrange hn
  | none =>
    rw [ofJson?.eq_def, hrange] at h
    dsimp only at h
    split at h
    · obtain ⟨x, hx, -⟩ := Option.map_eq_some_iff.mp h
      match json with
      | .int n => exact .doubleInteger n
      | .float x => exact .doubleFloat x
      | .str text => exact .doubleText hx
      | .null | .bool _ | .arr _ | .obj _ => cases hx
    · obtain ⟨x, hx, -⟩ := Option.map_eq_some_iff.mp h
      match json with
      | .int n => exact .floatInteger n
      | .float x => exact .floatFloat (Option.ite_none_right_eq_some.mp hx).1
      | .str text => exact .floatText hx
      | .null | .bool _ | .arr _ | .obj _ => cases hx
    · exact .boolean _
    · exact .string _
    · obtain ⟨content, hcontent, -⟩ := Option.map_eq_some_iff.mp h
      exact .bytes hcontent
    · cases h

/-- What a kind takes is read by `ofJson?`. -/
theorem Takes.exists_ofJson? {kind : Scalar} {json : Json} (h : kind.Takes json) :
    ∃ value, kind.ofJson? json = some value := by
  -- An integer of the range is a value of the kind.
  have hinteger : ∀ {low high n : Int}, kind.integerRange? = some (low, high) →
      json.integer? low high = some n → ∃ value, kind.ofJson? json = some value := by
    intro low high n hrange hn
    exact ⟨.int n, by rw [ofJson?_of_integerRange? hrange, hn, Option.map_some]⟩
  cases h with
  | boolean | string | doubleInteger | doubleFloat | floatInteger => exact ⟨_, rfl⟩
  | bytes h => exact ⟨_, congrArg (Option.map Value.bytes) h⟩
  | doubleText h => exact ⟨_, congrArg (Option.map Value.double) h⟩
  | floatText h => exact ⟨_, congrArg (Option.map Value.float) h⟩
  | floatFloat h => exact ⟨_, congrArg (Option.map Value.float) (if_pos h)⟩
  | integer hrange hlow hhigh => exact hinteger hrange (if_pos ⟨hlow, hhigh⟩)
  | @wholeFloat _ low high n x hrange hn hlow hhigh =>
    obtain ⟨-, -, top, htop, hnear⟩ := integerRange?_spec hrange
    refine hinteger (n := min n high) hrange ?_
    rw [Json.integer?, Json.integerOfFloat?, hn, htop]
    exact if_pos ⟨hlow, by rw [Option.getD_some]; omega⟩
  | @greatestFloat _ low high x hrange hgreatest =>
    obtain ⟨hl, hh, top, htop, hnear⟩ := integerRange?_spec hrange
    refine hinteger (n := min top high) hrange ?_
    rw [Json.integer?, Json.integerOfFloat?, hgreatest, htop]
    exact if_pos ⟨by omega, le_refl _⟩
  | @signedText _ low high n text hrange hsigned hn hlow hhigh =>
    refine hinteger (n := n) hrange ?_
    rw [Json.integer?, Json.integerOfText?, if_pos hsigned, hn]
    exact if_pos ⟨hlow, hhigh⟩
  | @unsignedText _ high n text hrange hn hhigh =>
    refine hinteger (n := n) hrange ?_
    rw [Json.integer?, Json.integerOfText?, if_neg (lt_irrefl 0), hn]
    exact if_pos ⟨Int.natCast_nonneg _, hhigh⟩

/-- A scalar kind reads with `ofJson?` exactly what it takes. -/
theorem exists_ofJson?_iff {kind : Scalar} {json : Json} :
    (∃ value, kind.ofJson? json = some value) ↔ kind.Takes json :=
  ⟨fun ⟨_, h⟩ => takes_of_ofJson? h, Takes.exists_ofJson?⟩

end Scalar

/-! ## Fields -/

namespace Registry

/-- `registry.Takes repeated typeName json` says that a field of the type `typeName`, a list if `repeated`, can
hold the JSON value `json`: a scalar of this kind, an object whose members suit the fields of the record that
they address, by their record keys or their names in the document, or an array of such values.  A member that is
null suits every field, and one that addresses none may hold anything. -/
inductive Takes (registry : Registry) : Bool → String → Json → Prop where
  | scalar {typeName : String} {kind : Scalar} {json : Json} (hkind : Scalar.ofKeyword? typeName = some kind)
      (h : kind.Takes json) : registry.Takes false typeName json
  | record {typeName : String} {type : RegisteredType} {members : Entries Json}
      (htype : registry.get? typeName = some type)
      (h : ∀ m ∈ members, ∀ f ∈ type.fields, f.name = m.1 ∨ f.protoName = m.1 → m.2 ≠ .null →
        registry.Takes f.repeated f.typeName m.2) : registry.Takes false typeName (.obj members)
  | list {typeName : String} {items : List Json} (h : ∀ json ∈ items, registry.Takes false typeName json) :
      registry.Takes true typeName (.arr items)

/-- `registry.TakesMembers type members` says that each of `members` that is not null suits every field of
`type` that it addresses. -/
def TakesMembers (registry : Registry) (type : RegisteredType) (members : Entries Json) : Prop :=
  ∀ m ∈ members, ∀ f ∈ type.fields, f.name = m.1 ∨ f.protoName = m.1 → m.2 ≠ .null →
    registry.Takes f.repeated f.typeName m.2

variable {registry : Registry} {typeName : String} {json : Json}

/-- A repeated field takes exactly the arrays each item of which the single field takes. -/
theorem takes_list_iff : registry.Takes true typeName json ↔
    ∃ items, json = .arr items ∧ ∀ item ∈ items, registry.Takes false typeName item := by
  constructor
  · intro h
    cases h with
    | list h => exact ⟨_, rfl, h⟩
  · rintro ⟨items, rfl, h⟩
    exact .list h

/-- A single field of a scalar kind takes exactly what `kind.Takes`, if no type is registered under the
keyword. -/
theorem takes_scalar_iff {kind : Scalar} (hkind : Scalar.ofKeyword? typeName = some kind)
    (hnone : registry.get? typeName = none) : registry.Takes false typeName json ↔ kind.Takes json := by
  refine ⟨fun h => ?_, .scalar hkind⟩
  cases h with
  | scalar hother h => exact Option.some.inj (hkind.symm.trans hother) ▸ h
  | record htype => rw [hnone] at htype; cases htype

/-- A single field of a registered type whose name is no keyword takes exactly the objects with
`TakesMembers`. -/
theorem takes_record_iff {type : RegisteredType} (htype : registry.get? typeName = some type)
    (hnone : Scalar.ofKeyword? typeName = none) : registry.Takes false typeName json ↔
      ∃ members, json = .obj members ∧ registry.TakesMembers type members := by
  constructor
  · intro h
    cases h with
    | scalar hkind => rw [hnone] at hkind; cases hkind
    | record hother h =>
      obtain rfl := Option.some.inj (htype.symm.trans hother)
      exact ⟨_, rfl, h⟩
  · rintro ⟨members, rfl, h⟩
    exact .record htype h

end Registry

/-- `itemsOfJson?` reads an array exactly if each of its items is read. -/
theorem Schema.exists_itemsOfJson?_iff {schema : Schema} {strict : Bool} {type : ValueType}
    (items : List Json) : (∃ values, schema.itemsOfJson? strict type items = some values) ↔
      ∀ json ∈ items, ∃ value, schema.valueOfJson? strict .single type json = some value := by
  induction items with
  | nil => simp [itemsOfJson?]
  | cons json rest ih =>
    rw [List.forall_mem_cons, ← ih]
    cases hfirst : schema.valueOfJson? strict .single type json <;>
      cases hrest : schema.itemsOfJson? strict type rest <;> simp [itemsOfJson?, hfirst, hrest]

namespace CompiledSchema.IsLoaded

open Schema

variable {compiled : CompiledSchema} {schema : Schema} {type : RegisteredType} {name : String}

/-- The name of a registered type of a loaded schema is no keyword of a scalar. -/
theorem ofKeyword?_eq_none (hl : compiled.IsLoaded schema) (htype : compiled.registry.get? name = some type) :
    Scalar.ofKeyword? name = none := by
  obtain ⟨rfl, ht⟩ := hl.of_get? htype
  cases hkind : Scalar.ofKeyword? type.name with
  | none => rfl
  | some kind =>
    have hlinked := ht.linkedType_name
    rw [linkedType, hkind] at hlinked
    cases hlinked

/-- A member is read without strictness exactly if it is null or each field that it addresses reads its
value. -/
theorem exists_memberSetting?_iff (hl : compiled.IsLoaded schema) (hc : compiled.registry.IsClosed)
    (htype : compiled.registry.get? name = some type) (m : String × Json) :
    (∃ setting, schema.memberSetting? false type.linked m = some setting) ↔
      ∀ f ∈ type.fields, f.name = m.1 ∨ f.protoName = m.1 → m.2 ≠ .null →
        ∃ value, schema.valueOfJson? false f.linked.shape f.linked.type m.2 = some value := by
  obtain ⟨key, json⟩ := m
  obtain ⟨-, ht⟩ := hl.of_get? htype
  cases hmember : type.member? key with
  | none =>
    have hsetting : schema.memberSetting? false type.linked (key, json) = some none := by
      rw [memberSetting?, ht.member?_linked_eq, hmember]
      rfl
    refine ⟨fun _ f hf hkey => ?_, fun _ => ⟨_, hsetting⟩⟩
    exact absurd hkey (not_or.mpr (RegisteredType.member?_eq_none_iff.mp hmember f hf))
  | some f =>
    obtain ⟨hf, hkey⟩ := ht.member?_eq_some_iff.mp hmember
    rw [ht.memberSetting?_eq hf hkey]
    constructor
    · rintro ⟨setting, hsetting⟩ g hg hkeyOther hne
      obtain rfl : f = g :=
        Option.some.inj (hmember.symm.trans (ht.member?_eq_some_iff.mpr ⟨hg, hkeyOther⟩))
      rw [ofMember_of_ne_null hne] at hsetting
      obtain ⟨_, hset, -⟩ := Option.map_eq_some_iff.mp hsetting
      obtain ⟨value, hvalue, -⟩ := Option.map_eq_some_iff.mp hset
      exact ⟨value, hvalue⟩
    · intro h
      by_cases hnull : json = .null
      · subst hnull
        rw [← ht.memberSetting?_eq hf hkey]
        obtain ⟨kind, hkind⟩ | hregistered := hc name type htype f hf
        · have htype : f.linked.type = .scalar kind := by
            rw [RegisteredField.type_linked, linkedType, hkind]
          rw [ht.memberSetting?_eq hf hkey, ofMember, ofNull, htype]
          exact ⟨_, rfl⟩
        · obtain ⟨target, -, htarget, hloaded⟩ := hl.types _ hregistered
          exact ⟨none, ht.memberSetting?_null hf hkey hloaded htarget⟩
      · obtain ⟨value, hvalue⟩ := h f hf hkey hnull
        exact ⟨_, by rw [ofMember_of_ne_null hnull, hvalue]; rfl⟩

/-- Where `Takes` decides for each value whether it is read, `fieldsOfJson?` reads members without strictness
exactly if `TakesMembers`. -/
theorem exists_fieldsOfJson?_iff_of_values (hl : compiled.IsLoaded schema) (hc : compiled.registry.IsClosed)
    (htype : compiled.registry.get? name = some type) (members : Entries Json)
    (hvalues : ∀ m ∈ members, ∀ f ∈ type.fields,
      ((∃ value, schema.valueOfJson? false f.linked.shape f.linked.type m.2 = some value) ↔
        compiled.registry.Takes f.repeated f.typeName m.2)) :
    (∃ values, schema.fieldsOfJson? false type.linked false [] members = some values) ↔
      compiled.registry.TakesMembers type members := by
  rw [exists_fieldsOfJson?_iff type.oneof_eq_none]
  simp only [hl.exists_memberSetting?_iff hc htype]
  exact forall₂_congr fun m hm => forall₂_congr fun f hf => forall₂_congr fun _ _ => hvalues m hm f hf

/-- Where `Takes` decides for each smaller value whether a single field reads it, `valueOfJson?` reads a list
without strictness exactly if the repeated field takes it. -/
theorem exists_valueOfJson?_list_iff {registry : Registry} {typeName : String} {json : Json}
    (hitems : ∀ item : Json, item.size < json.size →
      ((∃ value, schema.valueOfJson? false .single (linkedType typeName) item = some value) ↔
        registry.Takes false typeName item)) :
    (∃ value, schema.valueOfJson? false .list (linkedType typeName) json = some value) ↔
      registry.Takes true typeName json := by
  rw [Registry.takes_list_iff]
  cases json with
  | arr items =>
    have hitem : ∀ item ∈ items, _ := fun item hmem =>
      hitems item (Nat.lt_succ_of_le (Json.size_le_sizeOfItems hmem))
    rw [valueOfJson?, exists_map_eq_some_iff, exists_itemsOfJson?_iff]
    constructor
    · exact fun h => ⟨items, rfl, fun item hmem => (hitem item hmem).mp (h item hmem)⟩
    · rintro ⟨_, ⟨⟩, h⟩ item hmem
      exact (hitem item hmem).mpr (h item hmem)
  | null | bool | int | float | str | obj =>
    constructor
    · rintro ⟨value, hvalue⟩
      cases hvalue
    · rintro ⟨items, hitems, -⟩
      cases hitems

/-- Where `Takes` decides for each smaller value whether a field of the type reads it, `valueOfJson?` reads a
record without strictness exactly if the single field takes it. -/
theorem exists_valueOfJson?_record_iff (hl : compiled.IsLoaded schema) (hc : compiled.registry.IsClosed)
    (htype : compiled.registry.get? type.name = some type) {json : Json}
    (hvalues : ∀ part : Json, part.size < json.size → ∀ f ∈ type.fields,
      ((∃ value, schema.valueOfJson? false f.linked.shape f.linked.type part = some value) ↔
        compiled.registry.Takes f.repeated f.typeName part)) :
    (∃ value, schema.valueOfJson? false .single (.message type.name) json = some value) ↔
      compiled.registry.Takes false type.name json := by
  obtain ⟨-, ht⟩ := hl.of_get? htype
  rw [Registry.takes_record_iff htype (hl.ofKeyword?_eq_none htype)]
  cases json with
  | obj members =>
    rw [ht.valueOfJson?_obj, exists_map_eq_some_iff,
      hl.exists_fieldsOfJson?_iff_of_values hc htype members fun m hm =>
        hvalues m.2 (Nat.lt_succ_of_lt (Json.size_lt_sizeOfMembers hm))]
    constructor
    · exact fun h => ⟨members, rfl, h⟩
    · rintro ⟨_, ⟨⟩, h⟩
      exact h
  | null | bool | int | float | str | arr =>
    constructor
    · rintro ⟨value, hvalue⟩
      rw [valueOfJson?_ordinary_of_ne_obj ht.linked ht.ofTypeName?_eq_none (by simp)] at hvalue
      cases hvalue
    · rintro ⟨members, hmembers, -⟩
      cases hmembers

/-- The lenient reader `valueOfJson?` reads exactly what a field takes, be it a scalar, a record or a list. -/
theorem exists_valueOfJson?_iff (hl : compiled.IsLoaded schema) (hc : compiled.registry.IsClosed)
    {typeName : String} (hheld : compiled.registry.Holds typeName) (repeated : Bool) (json : Json) :
    (∃ value, schema.valueOfJson? false (if repeated then .list else .single) (linkedType typeName) json =
      some value) ↔ compiled.registry.Takes repeated typeName json := by
  -- The items of a list and the values of a record's members are smaller than the value that holds them.
  induction hsize : json.size using Nat.strong_induction_on generalizing repeated typeName json with
  | _ size ih =>
    subst hsize
    cases repeated with
    | true => exact exists_valueOfJson?_list_iff fun item hitem => ih item.size hitem hheld false item rfl
    | false =>
      rw [if_neg Bool.false_ne_true]
      obtain ⟨kind, hkind⟩ | hregistered := hheld
      · have hnone : compiled.registry.get? typeName = none := by
          cases htype : compiled.registry.get? typeName with
          | none => rfl
          | some type => rw [hl.ofKeyword?_eq_none htype] at hkind; cases hkind
        rw [Registry.takes_scalar_iff hkind hnone, linkedType, hkind, valueOfJson?, Scalar.exists_ofJson?_iff]
      · obtain ⟨type, htype, rfl, ht⟩ := hl.types typeName hregistered
        rw [ht.linkedType_name]
        exact hl.exists_valueOfJson?_record_iff hc htype fun part hpart f hf =>
          ih part.size hpart (hc _ type htype f hf) f.repeated part rfl

/-- `fieldsOfJson?` reads members leniently exactly if each of them suits the fields of the type. -/
theorem exists_fieldsOfJson?_iff_takesMembers (hl : compiled.IsLoaded schema)
    (hc : compiled.registry.IsClosed) (htype : compiled.registry.get? name = some type)
    (members : Entries Json) :
    (∃ values, schema.fieldsOfJson? false type.linked false [] members = some values) ↔
      compiled.registry.TakesMembers type members :=
  hl.exists_fieldsOfJson?_iff_of_values hc htype members fun m _ f hf =>
    hl.exists_valueOfJson?_iff hc (hc name type htype f hf) f.repeated m.2

end CompiledSchema.IsLoaded

end Tagwire
