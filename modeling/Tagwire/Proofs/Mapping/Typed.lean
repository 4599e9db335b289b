import Tagwire.Proofs.Mapping.Fields

/-!
# Records that differ in the text of their type

The text of the type is the first field of a message and nothing else looks at it: a record with another
text there is read as the message with this text, and a message with another text there is shown as the
record with it.
-/

set_option autoImplicit false

namespace Tagwire

open Schema

namespace FieldValues

/-- The fields of a message with a text under number 1, which is that of its type, and `others` behind it. -/
def typed (text : String) (others : FieldValues) : FieldValues := (1, .string text) :: others

variable {text : String} {others : FieldValues} {number : Nat}

/-- Setting a number above 1 leaves the text of the type. -/
theorem set_typed (h : 1 < number) (value : Value) :
    set (typed text others) number value = typed text (set others number value) := by
  rw [typed, set, if_neg (by omega), if_neg (by omega)]
  rfl

/-- Setting number 1 replaces the text of the type. -/
theorem set_typed_one (other : String) : set (typed text others) 1 (.string other) = typed other others := by
  rw [typed, set, if_neg (by omega), if_pos rfl]
  rfl

/-- Setting number 1 puts a text before fields with greater numbers. -/
theorem set_one (h : ∀ e ∈ others, 1 < e.1) : set others 1 (.string text) = typed text others := by
  cases others with
  | nil => rfl
  | cons e rest => rw [set, if_pos (h e (by simp))]; rfl

/-- Under a number other than 1, `typed` has what `others` has. -/
theorem get?_typed (h : number ≠ 1) : get? (typed text others) number = get? others number := by
  rw [get?_eq, get?_eq, typed, Assoc.get?_cons, if_neg (Ne.symm h)]

/-- Which numbers are set does not depend on the text of the type. -/
theorem contains_typed (text other : String) (others : FieldValues) (number : Nat) :
    contains (typed text others) number = contains (typed other others) number := by
  unfold contains
  by_cases h : number = 1
  · subst h
    simp [get?_eq, typed, Assoc.get?_cons]
  · rw [get?_typed h, get?_typed h]

end FieldValues

/-! ## Members -/

/-- Sorted entries with a value under `key` split around it, so that `insert` under this key changes nothing
else. -/
theorem Entries.exists_split {α : Type} {entries : Entries α} (hs : Assoc.IsSorted entries) {key : String}
    {value : α} (h : entries.get? key = some value) :
    ∃ before after : Entries α, (∀ e ∈ before, e.1 ≠ key) ∧ (∀ e ∈ after, e.1 ≠ key) ∧
      ∀ other, entries.insert key other = before ++ (key, other) :: after := by
  induction entries with
  | nil => cases h
  | cons e rest ih =>
    obtain ⟨hhead, hrest⟩ := List.pairwise_cons.mp hs
    have hlater : ∀ e' ∈ rest, e.1 < e'.1 := fun e' he' => hhead _ (List.mem_map_of_mem he')
    rw [get?_eq, Assoc.get?_cons] at h
    by_cases hkey : e.1 = key
    · refine ⟨[], rest, by simp, fun e' he' heq => ?_, fun other => ?_⟩
      · exact absurd (hlater e' he') (by rw [heq, hkey]; exact lt_irrefl _)
      · rw [insert, if_neg (by rw [hkey]; exact lt_irrefl _), if_pos hkey.symm]
        rfl
    · rw [if_neg hkey, ← get?_eq] at h
      obtain ⟨before, after, hbefore, hafter, hinsert⟩ := ih hrest h
      refine ⟨e :: before, after, ?_, hafter, fun other => ?_⟩
      · simpa using ⟨hkey, fun a b hab => hbefore (a, b) hab⟩
      · have hlt := hlater _ (mem_of_get?_eq_some h)
        rw [insert, if_neg hlt.le.not_gt, if_neg (Ne.symm hkey), hinsert]
        rfl

namespace RegisteredType.IsLoaded

variable {schema : Schema} {strict : Bool} {unpack : Unpack} {type : RegisteredType}

/-- The number of a field other than the first one is greater than 1. -/
theorem one_lt_number (ht : type.IsLoaded schema) {f : RegisteredField} (hf : f ∈ type.fields)
    (h : f.number ≠ 1) : 1 < f.number := by
  have hpos := ht.number_pos hf
  omega

/-- A key other than `type` addresses a field whose number is greater than 1. -/
theorem exists_of_member? (ht : type.IsLoaded schema) {key : String} (hkey : key ≠ typeField)
    {g : MessageField} (h : type.linked.member? key = some g) :
    ∃ f ∈ type.fields, g = f.linked ∧ 1 < f.number := by
  obtain ⟨hmem, hname⟩ := MessageType.of_member? h
  obtain ⟨f, hf, rfl⟩ := List.mem_map.mp hmem
  refine ⟨f, hf, rfl, ht.one_lt_number hf fun hone => ?_⟩
  obtain rfl : f = .typeTag := ht.eq_of_number_eq hf ht.typeTag_mem hone
  rw [RegisteredField.linked_typeTag] at hname
  exact hkey (hname.elim Eq.symm Eq.symm)

/-- A relation between fields that setting a number above 1 preserves is preserved by reading members under
other keys than `type`, and both readings succeed or neither. -/
theorem fieldsOfJson?_rel (ht : type.IsLoaded schema) {r : FieldValues → FieldValues → Prop}
    (hset : ∀ a b n value, r a b → 1 < n → r (FieldValues.set a n value) (FieldValues.set b n value))
    {members : List (String × Json)} (hm : ∀ m ∈ members, m.1 ≠ typeField) {a b : FieldValues}
    (h : r a b) : Option.Rel r (schema.fieldsOfJson? strict type.linked false a members)
      (schema.fieldsOfJson? strict type.linked false b members) := by
  induction members generalizing a b with
  | nil =>
    rw [fieldsOfJson?, fieldsOfJson?]
    exact .some h
  | cons m rest ih =>
    rw [List.forall_mem_cons] at hm
    rw [fieldsOfJson?_cons_eq_bind, fieldsOfJson?_cons_eq_bind]
    refine rel_bind ?_ fun a b _ hab => ih hm.2 hab
    cases hmember : type.linked.member? m.1 with
    | none =>
      rw [setMember?_of_member?_eq_none hmember, setMember?_of_member?_eq_none hmember]
      cases strict with
      | true => exact .none
      | false => exact .some h
    | some g =>
      obtain ⟨f, hf, rfl, hlt⟩ := ht.exists_of_member? hm.1 hmember
      rw [setMember?_of_oneof hmember f.oneof_linked, setMember?_of_oneof hmember f.oneof_linked]
      refine rel_map_map fun set _ => ?_
      cases set with
      | none => exact h
      | some value => exact hset a b f.number value h hlt

/-- Members under other keys than `type` are read behind the text of the type as they are without it. -/
theorem fieldsOfJson?_typed (ht : type.IsLoaded schema) {members : List (String × Json)}
    (hm : ∀ m ∈ members, m.1 ≠ typeField) (text : String) (others : FieldValues) :
    schema.fieldsOfJson? strict type.linked false (FieldValues.typed text others) members =
      (schema.fieldsOfJson? strict type.linked false others members).map (FieldValues.typed text) := by
  refine eq_map_of_rel (ht.fieldsOfJson?_rel (fun a b n value hr hn => ?_) hm rfl)
  rw [hr, FieldValues.set_typed hn]

/-- Members under other keys than `type` set only numbers above 1. -/
theorem one_lt_of_fieldsOfJson? (ht : type.IsLoaded schema) {members : List (String × Json)}
    (hm : ∀ m ∈ members, m.1 ≠ typeField) {values : FieldValues}
    (h : schema.fieldsOfJson? strict type.linked false [] members = some values) :
    ∀ e ∈ values, 1 < e.1 := by
  have hrel : Option.Rel (fun a b => a = b ∧ ∀ e ∈ a, 1 < e.1)
      (schema.fieldsOfJson? strict type.linked false [] members)
      (schema.fieldsOfJson? strict type.linked false [] members) := by
    refine ht.fieldsOfJson?_rel (fun a b n value hr hn => ⟨hr.1 ▸ rfl, fun e he => ?_⟩) hm
      ⟨rfl, by simp⟩
    rw [FieldValues.set_eq] at he
    rcases Assoc.mem_of_mem_insert he with rfl | he
    · exact hn
    · exact hr.2 e he
  rw [h] at hrel
  cases hrel with
  | some hr => exact hr.2

/-- The members of a record with any text under `type` are read as `typed` of this text and of other fields,
which are the same for each text, or fail for each. -/
theorem exists_fieldsOfJson?_typed (ht : type.IsLoaded schema) {members : Entries Json}
    (hs : Assoc.IsSorted members) {text : String}
    (h : Entries.get? members typeField = some (.str text)) (strict : Bool) :
    ∃ others? : Option FieldValues, ∀ text, schema.fieldsOfJson? strict type.linked false []
        (Entries.insert members typeField (.str text)) = others?.map (FieldValues.typed text) := by
  obtain ⟨before, after, hbefore, hafter, hinsert⟩ := Entries.exists_split hs h
  refine ⟨(schema.fieldsOfJson? strict type.linked false [] before).bind fun values =>
    schema.fieldsOfJson? strict type.linked false values after, fun text => ?_⟩
  rw [hinsert, fieldsOfJson?_append]
  -- What stands in front of the type sets later fields only, so that the text goes before them.
  cases hvalues : schema.fieldsOfJson? strict type.linked false [] before with
  | none => rfl
  | some values =>
    have hset : schema.fieldsOfJson? strict type.linked false values ((typeField, .str text) :: after) =
        schema.fieldsOfJson? strict type.linked false (FieldValues.typed text values) after := by
      rw [fieldsOfJson?_cons_eq_bind, ht.setMember?_typeTag, Option.bind_some,
        FieldValues.set_one (ht.one_lt_of_fieldsOfJson? hbefore hvalues)]
    rw [Option.bind_some, hset, ht.fieldsOfJson?_typed hafter, Option.bind_some]

end RegisteredType.IsLoaded

end Tagwire
