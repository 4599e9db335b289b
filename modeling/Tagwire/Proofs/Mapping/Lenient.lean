import Tagwire.Proofs.Mapping.Reading

/-!
# What a strict reader takes, a lenient one takes

A lenient reader differs from a strict one only where a member addresses no field: it passes over it.  So
it reads everything that the strict one reads, and reads the same from it.
-/

set_option autoImplicit false

namespace Tagwire

namespace Schema

variable {schema : Schema}

/-- A member that `setMember?` reads strictly it reads the same without strictness, if `valueOfJson?` does so
for its value. -/
theorem setMember?_of_strict {type : MessageType} {values next : FieldValues} {m : String × Json}
    (hvalue : ∀ {shape type value}, schema.valueOfJson? true shape type m.2 = some value →
      schema.valueOfJson? false shape type m.2 = some value)
    (h : schema.setMember? true type values m = some next) :
    schema.setMember? false type values m = some next := by
  unfold setMember? at h ⊢
  -- An unknown member is all that strictness refuses.
  cases hmember : type.member? m.1 with
  | none =>
    rw [hmember] at h
    cases h
  | some field =>
    rw [hmember] at h
    dsimp only at h ⊢
    by_cases hnull : m.2 = .null
    · rw [hnull] at h ⊢
      exact h
    · rw [ofMember_of_ne_null hnull] at h ⊢
      cases hread : schema.valueOfJson? true field.shape field.type m.2 with
      | none =>
        rw [hread] at h
        cases h
      | some value =>
        rw [hread] at h
        rw [hvalue hread]
        exact h

/-- The payload of an `Any` that is read strictly is read the same without strictness, if its members are. -/
theorem payloadFields?_of_strict {payload : MessageType} {members : List (String × Json)} {result : FieldValues}
    (hpayload : schema.payloadOfJson? true payload.name members = some result →
      schema.payloadOfJson? false payload.name members = some result)
    (hfields : schema.fieldsOfJson? true payload true [] members = some result →
      schema.fieldsOfJson? false payload true [] members = some result)
    (h : schema.payloadFields? true payload members = some result) :
    schema.payloadFields? false payload members = some result := by
  unfold payloadFields? at h ⊢
  split at h
  · rename_i hspecial
    obtain ⟨-, h⟩ := Option.ite_none_left_eq_some.mp h
    rw [if_pos hspecial, Bool.false_and, if_neg Bool.false_ne_true]
    exact hpayload h
  · rename_i hordinary
    rw [if_neg hordinary]
    exact hfields h

mutual

/-- A value that `valueOfJson?` reads strictly it reads the same without strictness. -/
theorem valueOfJson?_of_strict (json : Json) {shape : FieldShape} {type : ValueType} {value : Value}
    (h : schema.valueOfJson? true shape type json = some value) :
    schema.valueOfJson? false shape type json = some value := by
  match shape, type, json with
  | .list, type, .arr items =>
    rw [valueOfJson?] at h ⊢
    obtain ⟨values, hvalues, rfl⟩ := Option.map_eq_some_iff.mp h
    rw [itemsOfJson?_of_strict items hvalues, Option.map_some]
  | .list, type, .null | .list, type, .bool _ | .list, type, .int _ | .list, type, .float _
  | .list, type, .str _ | .list, type, .obj _ =>
    cases h
  | .map, type, .obj members =>
    rw [valueOfJson?_map, Option.bind_eq_some_iff] at h ⊢
    obtain ⟨types, htypes, hmap⟩ := h
    obtain ⟨entries, hentries, rfl⟩ := Option.map_eq_some_iff.mp hmap
    refine ⟨types, htypes, ?_⟩
    rw [entriesOfJson?_of_strict members hentries, Option.map_some]
  | .map, type, .null | .map, type, .bool _ | .map, type, .int _ | .map, type, .float _
  | .map, type, .str _ | .map, type, .arr _ =>
    cases h
  | .single, .scalar kind, json =>
    rw [valueOfJson?] at h ⊢
    exact h
  | .single, .enum name, json =>
    rw [valueOfJson?] at h ⊢
    exact h
  | .single, .message name, .null | .single, .message name, .bool _ | .single, .message name, .int _
  | .single, .message name, .float _ | .single, .message name, .str _ | .single, .message name, .arr _ =>
    rw [valueOfJson?] at h ⊢
    exact h
  | .single, .message name, .obj members =>
    cases hm : schema.message? name with
    | none =>
      rw [valueOfJson?, hm] at h
      cases h
    | some message =>
      cases hform : SpecialForm.ofTypeName? message.name with
      | none =>
        rw [valueOfJson?_ordinary hm hform] at h ⊢
        obtain ⟨values, hvalues, rfl⟩ := Option.map_eq_some_iff.mp h
        rw [fieldsOfJson?_of_strict members hvalues, Option.map_some]
      | some form =>
        by_cases hany : form = .any
        · subst hany
          rw [valueOfJson?_any hm hform] at h ⊢
          simp only [Option.bind_eq_some_iff] at h ⊢
          obtain ⟨address, haddress, payload, hpayload, values, hvalues, hstored⟩ := h
          exact ⟨address, haddress, payload, hpayload, values,
            payloadFields?_of_strict (fun h => payloadOfJson?_of_strict members h)
              (fun h => fieldsOfJson?_of_strict members h) hvalues, hstored⟩
        · rw [valueOfJson?_form hm hform hany] at h ⊢
          exact h
termination_by structural json

/-- Fields that `fieldsOfJson?` reads strictly it reads the same without strictness. -/
theorem fieldsOfJson?_of_strict (members : List (String × Json)) {type : MessageType} {inAny : Bool}
    {values result : FieldValues}
    (h : schema.fieldsOfJson? true type inAny values members = some result) :
    schema.fieldsOfJson? false type inAny values members = some result := by
  match members with
  | [] => exact h
  | (key, json) :: rest =>
    rw [fieldsOfJson?_cons] at h ⊢
    split at h
    · rename_i hany
      rw [if_pos hany]
      exact fieldsOfJson?_of_strict rest h
    · rename_i hany
      rw [if_neg hany]
      obtain ⟨next, hnext, hrest⟩ := Option.bind_eq_some_iff.mp h
      rw [setMember?_of_strict (fun hread => valueOfJson?_of_strict json hread) hnext, Option.bind_some]
      exact fieldsOfJson?_of_strict rest hrest
termination_by structural members

/-- Items that `itemsOfJson?` reads strictly it reads the same without strictness. -/
theorem itemsOfJson?_of_strict (items : List Json) {type : ValueType} {values : List Value}
    (h : schema.itemsOfJson? true type items = some values) :
    schema.itemsOfJson? false type items = some values := by
  match items with
  | [] => exact h
  | json :: rest =>
    simp only [itemsOfJson?, Option.bind_eq_bind, Option.bind_eq_some_iff] at h ⊢
    obtain ⟨value, hvalue, others, hothers, hresult⟩ := h
    exact ⟨value, valueOfJson?_of_strict json hvalue, others, itemsOfJson?_of_strict rest hothers, hresult⟩
termination_by structural items

/-- Entries that `entriesOfJson?` reads strictly it reads the same without strictness. -/
theorem entriesOfJson?_of_strict (members : List (String × Json)) {kind : Scalar} {type : ValueType}
    {entries result : List (MapKey × Value)}
    (h : schema.entriesOfJson? true kind type entries members = some result) :
    schema.entriesOfJson? false kind type entries members = some result := by
  match members with
  | [] => exact h
  | (key, json) :: rest =>
    simp only [entriesOfJson?, Option.bind_eq_bind, Option.bind_eq_some_iff] at h ⊢
    obtain ⟨mapKey, hkey, value, hvalue, hresult⟩ := h
    exact ⟨mapKey, hkey, value, valueOfJson?_of_strict json hvalue,
      entriesOfJson?_of_strict rest hresult⟩
termination_by structural members

/-- The payload of an `Any` that `payloadOfJson?` reads strictly it reads the same without strictness. -/
theorem payloadOfJson?_of_strict (members : List (String × Json)) {name : String} {result : FieldValues}
    (h : schema.payloadOfJson? true name members = some result) :
    schema.payloadOfJson? false name members = some result := by
  match members with
  | [] => exact h
  | (key, json) :: rest =>
    rw [payloadOfJson?] at h ⊢
    split at h
    · rename_i hkey
      rw [if_pos hkey]
      split at h
      · rename_i values hvalue
        rw [valueOfJson?_of_strict json hvalue]
        exact h
      · cases h
    · rename_i hkey
      rw [if_neg hkey]
      exact payloadOfJson?_of_strict rest h
termination_by structural members

end

end Schema

end Tagwire
