import Tagwire.Proofs.Mapping.Layouts
import Tagwire.Proofs.Mapping.Members

/-!
# Dynamic values in their layout

Every JSON value is a dynamic value in the layout, which takes few bytes and whose messages nest as the arrays and
objects do, with a level more for every member.  What a dynamic value shows has no integers, only finite floats
and sorted members; such a JSON value is what its dynamic value shows once this has been over the wire.
-/

set_option autoImplicit false

namespace Tagwire

open Schema SpecialForm

namespace DynamicValue

/-! ## Fields of the layout -/

/-- The field `value`, number 2, of an entry of a `Struct`. -/
def entryValueField : MessageField :=
  { name := "value", jsonName := "value", number := 2, type := .message "Value", presence := true
    default := .message [] }

/-- A key under number 1 and the fields of a dynamic value under number 2 are an `Entry`. -/
theorem holds_entry (key : String) {fields : FieldValues} (h : value.layout.Holds layouts fields) :
    layouts.Holds .single (.message "Entry") (.message [(1, .string key), (2, .message fields)]) := by
  refine holds_message_iff.mpr ⟨entryLayout, _, rfl, rfl, by simp [Assoc.IsSorted], ?_, ?_, ?_⟩
  all_goals rw [List.forall_mem_cons, List.forall_mem_singleton]
  · exact ⟨rfl, rfl⟩
  · constructor <;> rintro f ⟨⟩ number ⟨⟩
  · constructor <;> rintro f ⟨⟩
    · exact .scalar rfl ⟨key, rfl⟩
    · exact holds_message_iff.mpr ⟨value.layout, fields, rfl, rfl, h⟩

mutual

/-- The fields that `ofJson` reads a JSON value as are a message of the layout `value`. -/
theorem holds_ofJson : (json : Json) → value.layout.Holds layouts (ofJson json)
  | .null =>
    MessageType.holds_singleton (f := choiceField "null_value" 1 (.scalar .int32)) rfl
      (.scalar rfl ⟨0, rfl, by decide, by decide⟩)
  | .int n =>
    MessageType.holds_singleton (f := choiceField "number_value" 2 (.scalar .double)) rfl
      (.scalar rfl ⟨.ofInt n, rfl⟩)
  | .float x =>
    MessageType.holds_singleton (f := choiceField "number_value" 2 (.scalar .double)) rfl (.scalar rfl ⟨x, rfl⟩)
  | .str s =>
    MessageType.holds_singleton (f := choiceField "string_value" 3 (.scalar .string)) rfl (.scalar rfl ⟨s, rfl⟩)
  | .bool b =>
    MessageType.holds_singleton (f := choiceField "bool_value" 4 (.scalar .boolean)) rfl (.scalar rfl ⟨b, rfl⟩)
  | .obj members => by
    refine MessageType.holds_singleton (f := choiceField "struct_value" 5 (.message "Struct")) rfl ?_
    exact holds_message_iff.mpr ⟨struct.layout, _, rfl, rfl, MessageType.holds_singleton
      (f := messagesField "fields" 1 "Entry") rfl (.list (holds_of_mem_ofMembers members))⟩
  | .arr items => by
    refine MessageType.holds_singleton (f := choiceField "list_value" 6 (.message "List")) rfl ?_
    exact holds_message_iff.mpr ⟨listValue.layout, _, rfl, rfl, MessageType.holds_singleton
      (f := messagesField "values" 1 "Value") rfl (.list (holds_of_mem_ofItems items))⟩

/-- Each item that `ofMembers` makes of the members of an object is an `Entry`. -/
theorem holds_of_mem_ofMembers : (members : List (String × Json)) →
    ∀ entry ∈ ofMembers members, layouts.Holds .single (.message "Entry") entry
  | [] => fun _ h => absurd h List.not_mem_nil
  | (key, json) :: rest => by
    rw [ofMembers, List.forall_mem_cons]
    exact ⟨holds_entry key (holds_ofJson json), holds_of_mem_ofMembers rest⟩

/-- Each item that `ofItems` makes of the items of an array is a `Value`. -/
theorem holds_of_mem_ofItems : (items : List Json) →
    ∀ item ∈ ofItems items, layouts.Holds .single (.message "Value") item
  | [] => fun _ h => absurd h List.not_mem_nil
  | json :: rest => by
    rw [ofItems, List.forall_mem_cons]
    exact ⟨holds_message_iff.mpr ⟨value.layout, _, rfl, rfl, holds_ofJson json⟩, holds_of_mem_ofItems rest⟩

end

/-! ## Levels -/

mutual

/-- How deep the messages within the `Value` of a JSON value nest, if each entry of a structure counts for
`entry` levels of its own: 1 in the layout, where an entry is a message, and 0 in a schema, where it is an entry
of a map. -/
def levels (entry : Nat) : Json → Nat
  | .arr items => levelsOfItems entry items + 1
  | .obj members => levelsOfMembers entry members + 1
  | _ => 0

/-- How deep the messages of a dynamic list nest, as `levels` counts them. -/
def levelsOfItems (entry : Nat) : List Json → Nat
  | [] => 0
  | json :: rest => max (levels entry json + 1) (levelsOfItems entry rest)

/-- How deep the messages of a dynamic structure nest, as `levels` counts them. -/
def levelsOfMembers (entry : Nat) : List (String × Json) → Nat
  | [] => 0
  | (_, json) :: rest => max (levels entry json + 1 + entry) (levelsOfMembers entry rest)

end

mutual

/-- The nesting of what `ofJson` makes is `levels 1`: in the layout an entry is a message. -/
theorem nesting_ofJson : (json : Json) → FieldValues.nesting (ofJson json) = levels 1 json
  | .null | .int _ | .float _ | .str _ | .bool _ => rfl
  | .obj members => by
    have hmembers := nestingOfItems_ofMembers members
    simp only [ofJson, FieldValues.nesting, Value.nesting, hmembers, Nat.max_zero, levels]
  | .arr items => by
    have hitems := nestingOfItems_ofItems items
    simp only [ofJson, FieldValues.nesting, Value.nesting, hitems, Nat.max_zero, levels]

/-- The nesting of what `ofMembers` makes is `levelsOfMembers 1`. -/
theorem nestingOfItems_ofMembers : (members : List (String × Json)) →
    Value.nestingOfItems (ofMembers members) = levelsOfMembers 1 members
  | [] => rfl
  | (key, json) :: rest => by
    have hjson := nesting_ofJson json
    have hrest := nestingOfItems_ofMembers rest
    simp only [ofMembers, Value.nestingOfItems, Value.nesting, FieldValues.nesting, hjson, hrest,
      Nat.zero_max, Nat.max_zero, levelsOfMembers]

/-- The nesting of what `ofItems` makes is `levelsOfItems 1`. -/
theorem nestingOfItems_ofItems : (items : List Json) →
    Value.nestingOfItems (ofItems items) = levelsOfItems 1 items
  | [] => rfl
  | json :: rest => by
    have hjson := nesting_ofJson json
    have hrest := nestingOfItems_ofItems rest
    simp only [ofItems, Value.nestingOfItems, Value.nesting, hjson, hrest, levelsOfItems]

end

/-! ## Sizes -/

/-- Each field of the layout `value` is wired. -/
theorem isWired_of_field? {number : Nat} {f : MessageField} (h : value.layout.field? number = some f) :
    f.IsWired :=
  value.isWired_layout.wired f (List.mem_of_find?_eq_some h)

/-- A `Value` with one scalar choice takes at most `64 * size - 20` bytes, if the scalar alone takes at most
`4 * size + 10`. -/
theorem length_encode_scalar_le {number : Nat} {f : MessageField} (hf : value.layout.field? number = some f)
    {kind : Scalar} (hk : f.type.scalar? = some kind) {own : Value} (h : own.isScalar = true) {size : Nat}
    (hsize : 0 < size) (hlength : (kind.encode own).length ≤ 4 * size + 10) :
    (layouts.encode value.layout [(number, own)]).length + 20 ≤ 64 * size := by
  have hfield := length_encodeField_scalar_le_add layouts (isWired_of_field? hf) hk h
  rw [encode_singleton hf]
  omega

/-- A `Value` whose one choice is a message takes at most `64 * size + 44` bytes, if the message alone takes at
most `64 * size`. -/
theorem length_encode_message_le {number : Nat} {f : MessageField} (hf : value.layout.field? number = some f)
    {target : MessageType} (hm : layouts.message? f.type.name = some target) {fields : FieldValues} {size : Nat}
    (hsize : size < 2 ^ 56) (hlength : (layouts.encode target fields).length ≤ 64 * size) :
    (layouts.encode value.layout [(number, .message fields)]).length + 20 ≤ 64 * (size + 1) := by
  have hfield := length_encodeField_message_le_add (isWired_of_field? hf) hm
    (show (layouts.encode target fields).length < 2 ^ 64 by omega)
  rw [encode_singleton hf]
  omega

/-- A message whose only field is a list of messages takes no more bytes than `encodeItems` writes for them. -/
theorem length_encode_messages_le (type : MessageType) {name entry : String}
    (hf : type.field? 1 = some (messagesField name 1 entry)) (items : List Value) :
    (layouts.encode type [(1, .list items)]).length ≤
      (layouts.encodeItems (messagesField name 1 entry) items).length := by
  rw [encode_singleton hf, encodeField]
  split
  · exact Nat.zero_le _
  · exact Nat.le_refl _

/-- An `Entry` takes at most `4 * key.length + 44` bytes more than its value, if the key has fewer than `2 ^ 56`
characters. -/
theorem length_encode_entry_le {key : String} {fields : FieldValues} (hkey : key.length + 1 < 2 ^ 56)
    (hlength : (layouts.encode value.layout fields).length < 2 ^ 62) :
    (layouts.encode entryLayout [(1, .string key), (2, .message fields)]).length ≤
      4 * key.length + 24 + ((layouts.encode value.layout fields).length + 20) := by
  have hwired : ∀ {f}, f ∈ entryLayout.fields → f.IsWired := fun hf => isWired_entryLayout.wired _ hf
  have hkeyField : (layouts.encodeField (scalarField "key" 1 .string) (.string key)).length ≤
      4 * key.length + 24 := by
    have htext : (Scalar.string.encode (.string key)).length ≤ 4 * (key.length + 1) + 10 :=
      Scalar.length_encode_le ⟨key, rfl⟩ (show key.length + 1 < 2 ^ 56 from hkey)
    exact (length_encodeField_scalar_le_add layouts (hwired List.mem_cons_self) rfl rfl).trans (by omega)
  have hvalue := length_encodeField_message_le_add
    (hwired (f := entryValueField) (by simp [entryLayout, entryValueField])) rfl
    (show (layouts.encode value.layout fields).length < 2 ^ 64 by omega)
  rw [encode, encode_singleton (f := entryValueField) rfl, List.length_append]
  show (layouts.encodeField (scalarField "key" 1 .string) (.string key)).length + _ ≤ _
  omega

mutual

/-- What `ofJson` makes takes at most `64 * json.size - 20` bytes in the layout `value`. -/
theorem length_encode_ofJson_le : (json : Json) → json.size < 2 ^ 56 →
    (layouts.encode value.layout (ofJson json)).length + 20 ≤ 64 * json.size
  | .null, _ =>
    length_encode_scalar_le (f := choiceField "null_value" 1 (.scalar .int32)) rfl rfl rfl Nat.one_pos
      (Scalar.length_encode_le (show Scalar.int32.Holds (.int 0) from ⟨0, rfl, by decide, by decide⟩)
        (show 1 < 2 ^ 56 by decide))
  | .int _, _ | .float _, _ =>
    length_encode_scalar_le (f := choiceField "number_value" 2 (.scalar .double)) rfl rfl rfl Nat.one_pos
      ((Bytes.length_littleEndian _ _).le.trans (show 8 ≤ 4 * 1 + 10 by decide))
  | .str s, hsize =>
    length_encode_scalar_le (f := choiceField "string_value" 3 (.scalar .string)) rfl rfl rfl (Nat.succ_pos _)
      (Scalar.length_encode_le (show Scalar.string.Holds (.string s) from ⟨s, rfl⟩) hsize)
  | .bool b, _ =>
    length_encode_scalar_le (f := choiceField "bool_value" 4 (.scalar .boolean)) rfl rfl rfl Nat.one_pos
      (Scalar.length_encode_le (show Scalar.boolean.Holds (.bool b) from ⟨b, rfl⟩) (show 1 < 2 ^ 56 by decide))
  | .obj members, hsize => by
    rw [Json.size] at hsize ⊢
    refine length_encode_message_le (f := choiceField "struct_value" 5 (.message "Struct")) rfl rfl (by omega) ?_
    exact (length_encode_messages_le struct.layout rfl _).trans
      (length_encodeItems_ofMembers_le members (by omega))
  | .arr items, hsize => by
    rw [Json.size] at hsize ⊢
    refine length_encode_message_le (f := choiceField "list_value" 6 (.message "List")) rfl rfl (by omega) ?_
    exact (length_encode_messages_le listValue.layout rfl _).trans
      (length_encodeItems_ofItems_le items (by omega))

/-- What `ofMembers` makes takes at most `64 * sizeOfMembers members` bytes. -/
theorem length_encodeItems_ofMembers_le : (members : List (String × Json)) →
    Json.sizeOfMembers members < 2 ^ 56 →
    (layouts.encodeItems (messagesField "fields" 1 "Entry") (ofMembers members)).length ≤
      64 * Json.sizeOfMembers members
  | [], _ => Nat.zero_le _
  | (key, json) :: rest, hsize => by
    rw [Json.sizeOfMembers] at hsize ⊢
    have hjson := length_encode_ofJson_le json (by omega)
    have hrest := length_encodeItems_ofMembers_le rest (by omega)
    have hentry := length_encode_entry_le (show key.length + 1 < 2 ^ 56 by omega)
      (show (layouts.encode value.layout (ofJson json)).length < 2 ^ 62 by omega)
    have hfield := length_encodeField_message_le_add (isPlain_messagesField (show 0 < 1 by decide)
      (show 1 < 2 ^ 29 by decide) "fields" "Entry").isWired rfl
      (show (layouts.encode entryLayout [(1, .string key), (2, .message (ofJson json))]).length < 2 ^ 64 by omega)
    rw [ofMembers, encodeItems, List.length_append]
    omega

/-- What `ofItems` makes takes at most `64 * sizeOfItems items` bytes. -/
theorem length_encodeItems_ofItems_le : (items : List Json) → Json.sizeOfItems items < 2 ^ 56 →
    (layouts.encodeItems (messagesField "values" 1 "Value") (ofItems items)).length ≤ 64 * Json.sizeOfItems items
  | [], _ => Nat.zero_le _
  | json :: rest, hsize => by
    rw [Json.sizeOfItems] at hsize ⊢
    have hjson := length_encode_ofJson_le json (by omega)
    have hrest := length_encodeItems_ofItems_le rest (by omega)
    have hfield := length_encodeField_message_le_add (isPlain_messagesField (show 0 < 1 by decide)
      (show 1 < 2 ^ 29 by decide) "values" "Value").isWired rfl
      (show (layouts.encode value.layout (ofJson json)).length < 2 ^ 64 by omega)
    rw [ofItems, encodeItems, List.length_append]
    omega

end

/-! ## What dynamic values show -/

mutual

/-- Is it a JSON value that `toJson?` can show of a dynamic value?  It has no integers in it, its floats are
finite, and the members of its objects are sorted by key. -/
def IsShown : Json → Prop
  | .null | .bool _ | .str _ => True
  | .int _ => False
  | .float x => x.isFinite = true
  | .obj members => Assoc.IsSorted members ∧ MembersAreShown members
  | .arr items => ItemsAreShown items

/-- Is the value of each member one that `toJson?` can show? -/
def MembersAreShown : List (String × Json) → Prop
  | [] => True
  | (_, json) :: rest => IsShown json ∧ MembersAreShown rest

/-- Is each item one that `toJson?` can show? -/
def ItemsAreShown : List Json → Prop
  | [] => True
  | json :: rest => IsShown json ∧ ItemsAreShown rest

end

/-- Members are shown exactly if the value of each one is. -/
theorem membersAreShown_iff {members : List (String × Json)} :
    MembersAreShown members ↔ ∀ m ∈ members, IsShown m.2 := by
  induction members with
  | nil => simp [MembersAreShown]
  | cons m rest ih =>
    obtain ⟨key, json⟩ := m
    rw [MembersAreShown, ih, List.forall_mem_cons]

/-- The object that `Json.ofMembers` makes of shown members is shown. -/
theorem isShown_ofMembers {members : List (String × Json)} (h : MembersAreShown members) :
    IsShown (.ofMembers members) := by
  refine ⟨Entries.isSorted_ofList members, membersAreShown_iff.mpr fun m hm => ?_⟩
  rw [Entries.ofList, Entries.insertAll_eq] at hm
  exact membersAreShown_iff.mp h m ((Assoc.mem_of_mem_insertAll hm).resolve_right List.not_mem_nil)

/-- The members that two successful readings make, a first value under `key` and others behind it, are shown if
both are. -/
theorem membersAreShown_of_bind {key : String} {first : Option Json} {rest : Option (List (String × Json))}
    {members : List (String × Json)} (hfirst : ∀ json, first = some json → IsShown json)
    (hrest : ∀ others, rest = some others → MembersAreShown others)
    (h : (first.bind fun json => rest.bind fun others => some ((key, json) :: others)) = some members) :
    MembersAreShown members := by
  obtain ⟨json, hjson, h⟩ := Option.bind_eq_some_iff.mp h
  obtain ⟨others, hothers, h⟩ := Option.bind_eq_some_iff.mp h
  cases h
  exact ⟨hfirst json hjson, hrest others hothers⟩

/-- The null that an entry without a value shows is shown. -/
theorem isShown_of_eq_null (json : Json) (h : some .null = some json) : IsShown json := by
  cases h
  trivial

/-- All that `toJson?`, `toItems?`, `itemsToJson?`, `toMembers?` and `entriesToMembers?` give is shown. -/
theorem isShown_spec : (∀ value json, toJson? value = some json → IsShown json) ∧
    (∀ fields items, toItems? fields = some items → ItemsAreShown items) ∧
    (∀ values items, itemsToJson? values = some items → ItemsAreShown items) ∧
    (∀ fields members, toMembers? fields = some members → MembersAreShown members) ∧
    ∀ entries members, entriesToMembers? entries = some members → MembersAreShown members := by
  -- One case for every equation of the functions.
  apply toJson?.mutual_induct
  case case1 | case2 =>
    intro x _ json h
    rw [toJson?] at h
    obtain ⟨hfinite, h⟩ := Option.ite_none_right_eq_some.mp h
    cases h
    exact hfinite
  case case3 | case4 =>
    intro x json h
    rw [toJson?] at h
    cases h
    trivial
  case case5 =>
    intro fields ih json h
    rw [toJson?] at h
    obtain ⟨members, hmembers, rfl⟩ := Option.map_eq_some_iff.mp h
    exact isShown_ofMembers (ih members hmembers)
  case case6 =>
    intro fields ih json h
    rw [toJson?] at h
    obtain ⟨items, hitems, rfl⟩ := Option.map_eq_some_iff.mp h
    exact ih items hitems
  case case7 =>
    intro value _ _ _ _ _ json h
    rw [toJson?] at h <;> try assumption
    exact isShown_of_eq_null json h
  case case8 =>
    intro entries ih items h
    rw [toItems?] at h
    exact ih items h
  case case9 =>
    intro fields _ items h
    rw [toItems?] at h <;> try assumption
    cases h
    trivial
  case case10 =>
    intro entries ih members h
    rw [toMembers?] at h
    exact ih members h
  case case11 =>
    intro fields _ members h
    rw [toMembers?] at h <;> try assumption
    cases h
    trivial
  case case12 | case14 =>
    intro shown h
    cases h
    trivial
  case case13 =>
    intro item rest ihItem ihRest items h
    rw [itemsToJson?] at h
    obtain ⟨json, hjson, h⟩ := Option.bind_eq_some_iff.mp h
    obtain ⟨jsons, hjsons, h⟩ := Option.bind_eq_some_iff.mp h
    cases h
    exact ⟨ihItem json hjson, ihRest jsons hjsons⟩
  case case15 =>
    intro key value rest ihValue ihRest members h
    rw [entriesToMembers?] at h
    exact membersAreShown_of_bind ihValue ihRest h
  case case16 =>
    intro value rest ihValue ihRest members h
    rw [entriesToMembers?] at h
    exact membersAreShown_of_bind ihValue ihRest h
  case case17 =>
    intro key rest ihRest members h
    rw [entriesToMembers?] at h
    exact membersAreShown_of_bind isShown_of_eq_null ihRest h
  case case18 =>
    intro entry rest _ _ _ ihRest members h
    rw [entriesToMembers?] at h <;> try assumption
    exact membersAreShown_of_bind isShown_of_eq_null ihRest h

/-! ## Shown again -/

/-- In a `Value`, `kept` leaves the field that is chosen, be it zero or not. -/
theorem kept_choice {number : Nat} {f : MessageField} (hf : value.layout.field? number = some f) (own : Value) :
    layouts.kept value.layout [(number, own)] = [(number, layouts.keptValue f.type own)] := by
  have hpresence : f.presence = true := by
    have hmem := List.mem_of_find?_eq_some hf
    simp only [layout, fields, List.mem_cons, List.not_mem_nil, or_false] at hmem
    obtain rfl | rfl | rfl | rfl | rfl | rfl := hmem <;> rfl
  have homits : f.omits own = false := by rw [MessageField.omits, hpresence]; rfl
  rw [kept, hf]
  dsimp only
  rw [homits, if_neg Bool.false_ne_true, kept]

/-- A message that names a layout keeps the fields that `kept` leaves of it. -/
theorem keptValue_layout {name : String} {type : MessageType} (h : layouts.message? name = some type)
    (fields : FieldValues) :
    layouts.keptValue (.message name) (.message fields) = .message (layouts.kept type fields) := by
  rw [keptValue]
  simp only [ValueType.name, h]

/-- Of a list of messages, `kept` leaves each item, and the field out if there is none. -/
theorem kept_messages {type : MessageType} {name target : String}
    (hf : type.field? 1 = some (messagesField name 1 target)) (items : List Value) :
    layouts.kept type [(1, .list items)] =
      if items.isEmpty then [] else [(1, .list (layouts.keptItems (.message target) items))] := by
  rw [kept, hf]
  dsimp only
  show (if items.isEmpty then layouts.kept type [] else _) = _
  rw [keptValue, kept]
  rfl

/-- Of an `Entry`, `kept` leaves the value, and the key unless it is empty. -/
theorem kept_entry (key : String) (fields : FieldValues) :
    layouts.kept entryLayout [(1, .string key), (2, .message fields)] =
      if key = "" then [(2, .message (layouts.kept value.layout fields))]
      else [(1, .string key), (2, .message (layouts.kept value.layout fields))] := by
  have hvalue : layouts.kept entryLayout [(2, .message fields)] =
      [(2, .message (layouts.kept value.layout fields))] := by
    rw [kept]
    show [(2, layouts.keptValue (.message "Value") (.message fields))] = _
    rw [keptValue_layout rfl]
  rw [kept, hvalue]
  by_cases hkey : key = ""
  · rw [hkey]
    rfl
  · have homits : (scalarField "key" 1 .string).omits (.string key) = false :=
      beq_eq_false_iff_ne.mpr (Ne.symm hkey)
    show (if (scalarField "key" 1 .string).omits (.string key) = true then _
      else (1, layouts.keptValue (.scalar .string) (.string key)) :: _) = _
    rw [homits, if_neg Bool.false_ne_true, if_neg hkey, keptValue_scalar _ rfl]

/-- A `Struct` shows the members that its kept entries show. -/
theorem toMembers?_kept {members : List (String × Json)}
    (h : entriesToMembers? (layouts.keptItems (.message "Entry") (ofMembers members)) = some members) :
    toMembers? (layouts.kept struct.layout [(1, .list (ofMembers members))]) = some members := by
  rw [kept_messages rfl]
  cases members with
  | nil => rfl
  | cons => exact h

/-- A `ListValue` shows the items that its kept items show. -/
theorem toItems?_kept {items : List Json}
    (h : itemsToJson? (layouts.keptItems (.message "Value") (ofItems items)) = some items) :
    toItems? (layouts.kept listValue.layout [(1, .list (ofItems items))]) = some items := by
  rw [kept_messages rfl]
  cases items with
  | nil => rfl
  | cons => exact h

mutual

/-- A JSON value that `IsShown` is what `toJson?` shows of the kept fields that `ofJson` makes of it. -/
theorem toJson?_kept : (json : Json) → IsShown json →
    toJson? (.message (layouts.kept value.layout (ofJson json))) = some json
  | .null, _ | .bool _, _ | .str _, _ => by
    rw [ofJson, kept_choice rfl, keptValue_scalar _ rfl]
    rfl
  | .int _, h => absurd h id
  | .float x, h => by
    have hfinite : x.isFinite = true := h
    rw [ofJson, kept_choice rfl, keptValue_scalar _ rfl, toJson?, if_pos hfinite]
  | .obj members, h => by
    rw [ofJson, kept_choice (f := choiceField "struct_value" 5 (.message "Struct")) rfl]
    show toJson? (.message [(5, layouts.keptValue (.message "Struct") _)]) = _
    rw [keptValue_layout rfl, toJson?, toMembers?_kept (entriesToMembers?_kept members h.2), Option.map_some,
      Json.ofMembers_of_isSorted h.1]
  | .arr items, h => by
    rw [ofJson, kept_choice (f := choiceField "list_value" 6 (.message "List")) rfl]
    show toJson? (.message [(6, layouts.keptValue (.message "List") _)]) = _
    rw [keptValue_layout rfl, toJson?, toItems?_kept (itemsToJson?_kept items h), Option.map_some]

/-- Members that are shown are what `entriesToMembers?` shows of the kept entries that `ofMembers` makes of
them. -/
theorem entriesToMembers?_kept : (members : List (String × Json)) → MembersAreShown members →
    entriesToMembers? (layouts.keptItems (.message "Entry") (ofMembers members)) = some members
  | [], _ => rfl
  | (key, json) :: rest, h => by
    have hjson := toJson?_kept json h.1
    have hrest := entriesToMembers?_kept rest h.2
    rw [ofMembers, keptItems, keptValue_layout rfl, kept_entry]
    split
    · rename_i hkey
      rw [hkey, entriesToMembers?, hjson, hrest]
      rfl
    · rw [entriesToMembers?, hjson, hrest]
      rfl

/-- Items that are shown are what `itemsToJson?` shows of the kept items that `ofItems` makes of them. -/
theorem itemsToJson?_kept : (items : List Json) → ItemsAreShown items →
    itemsToJson? (layouts.keptItems (.message "Value") (ofItems items)) = some items
  | [], _ => rfl
  | json :: rest, h => by
    rw [ofItems, keptItems, keptValue_layout rfl, itemsToJson?, toJson?_kept json h.1,
      itemsToJson?_kept rest h.2]
    rfl

end

end DynamicValue

/-! ## Read and shown -/

namespace SpecialForm

open DynamicValue

variable {g : Binary64 → Binary64} {values : FieldValues} {json : Json}

/-- What a `Value` shows is read as fields that show it again, if its size is below `2 ^ 56`. -/
theorem returns_value (hjson : value.toJson? values = some json) (hsize : json.size < 2 ^ 56) :
    value.Returns g json (ofJson json) where
  reads := by cases json <;> rfl
  holds := holds_ofJson json
  length := length_encode_ofJson_le json hsize
  shows := congrArg (Option.map (Json.mapFloats g)) (toJson?_kept json (isShown_spec.1 _ json hjson))

/-- What a `Struct` shows is read as fields that show it again, if its size is below `2 ^ 56`. -/
theorem returns_struct {members : Entries Json} (hjson : struct.toJson? values = some (.obj members))
    (hsize : (Json.obj members).size < 2 ^ 56) :
    struct.Returns g (.obj members) [(1, .list (ofMembers members))] := by
  obtain ⟨more, hmore, heq⟩ := Option.map_eq_some_iff.mp hjson
  have hshown : IsShown (.obj members) := heq ▸ isShown_ofMembers (isShown_spec.2.2.2.1 _ more hmore)
  rw [Json.size] at hsize
  refine ⟨rfl, ?_, ?_, ?_⟩
  · exact MessageType.holds_singleton (f := messagesField "fields" 1 "Entry") rfl
      (.list (holds_of_mem_ofMembers members))
  · have hlength := (length_encode_messages_le struct.layout
      (show _ = some (messagesField "fields" 1 "Entry") from rfl) (ofMembers members)).trans
        (length_encodeItems_ofMembers_le members (by omega))
    rw [Json.size]
    omega
  · rw [toJson?, toMembers?_kept (entriesToMembers?_kept members hshown.2), Option.map_some, Option.map_some,
      Json.ofMembers_of_isSorted hshown.1]

/-- What a `ListValue` shows is read as fields that show it again, if its size is below `2 ^ 56`. -/
theorem returns_listValue {items : List Json} (hjson : listValue.toJson? values = some (.arr items))
    (hsize : (Json.arr items).size < 2 ^ 56) :
    listValue.Returns g (.arr items) [(1, .list (ofItems items))] := by
  obtain ⟨more, hmore, heq⟩ := Option.map_eq_some_iff.mp hjson
  obtain rfl := Json.arr.inj heq
  have hshown : ItemsAreShown more := isShown_spec.2.1 _ more hmore
  rw [Json.size] at hsize
  refine ⟨rfl, ?_, ?_, ?_⟩
  · exact MessageType.holds_singleton (f := messagesField "values" 1 "Value") rfl
      (.list (holds_of_mem_ofItems more))
  · have hlength := (length_encode_messages_le listValue.layout
      (show _ = some (messagesField "values" 1 "Value") from rfl) (ofItems more)).trans
        (length_encodeItems_ofItems_le more (by omega))
    rw [Json.size]
    omega
  · rw [toJson?, toItems?_kept (itemsToJson?_kept more hshown), Option.map_some, Option.map_some]

end SpecialForm

end Tagwire
