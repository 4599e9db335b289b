import Tagwire.Proofs.Mapping.Fields
import Tagwire.Proofs.Record
import Tagwire.Proofs.Schema.Formed

/-!
# The member that sets the first field

Members set fields in the order of their keys, and where several address one field the last of them counts.
A first field with the name of the type is addressed by the member under its own record key and, unless that
is the record key of another field, by the member of the type.  So what a record has for its type reaches the
first field unless a member with a later key takes its place, or another field takes the member itself.
-/

set_option autoImplicit false

namespace Tagwire

namespace MessageField

/-- What a member with this JSON value sets a field of text to: the text itself, or the default of the field for
null. -/
def textOf? (field : MessageField) : Json → Option Value
  | .str text => some (.string text)
  | .null => some field.default
  | _ => none

/-- What `textOf?` gives for a formed field of text is a text. -/
theorem IsFormed.exists_of_textOf? {field : MessageField} (h : field.IsFormed) (hf : field.IsText)
    {json : Json} {value : Value} (hvalue : field.textOf? json = some value) :
    ∃ s, value = .string s := by
  cases json with
  | str s => exact ⟨s, (Option.some.inj hvalue).symm⟩
  | null =>
    obtain ⟨s, hdefault, -⟩ := h.default hf
    exact ⟨s, (Option.some.inj hvalue).symm.trans hdefault⟩
  | _ => cases hvalue

end MessageField

namespace MessageType

/-- The record puts `text` into the field number 1 as that of its type.  Either `type` addresses the field and
no member with a later key does, or the member under the record key of the field, which is not `type`, says
`text` as well. -/
def TakesType (type : MessageType) (record : Record) (text : String) : Prop :=
  ∃ f, type.field? 1 = some f ∧
    (type.member? typeField = some f ∧
        (f.jsonName ≤ typeField ∨ record.get? f.jsonName = none) ∨
      f.jsonName ≠ typeField ∧ ∃ json, record.get? f.jsonName = some json ∧
        f.textOf? json = some (.string text))

/-- The two cases of `TakesType` for the first field `f` that `field?` finds. -/
theorem takesType_iff {type : MessageType} {f : MessageField} (hfound : type.field? 1 = some f)
    {record : Record} {text : String} : type.TakesType record text ↔
      type.member? typeField = some f ∧ (f.jsonName ≤ typeField ∨ record.get? f.jsonName = none) ∨
        f.jsonName ≠ typeField ∧ ∃ json, record.get? f.jsonName = some json ∧
          f.textOf? json = some (.string text) := by
  rw [TakesType, hfound]
  exact ⟨fun ⟨g, hg, htakes⟩ => Option.some.inj hg ▸ htakes, fun htakes => ⟨f, rfl, htakes⟩⟩

namespace IsLinked

variable {type : MessageType} {f : MessageField}

/-- A first field named `type` is addressed by its record key, and by `type` unless another field has this
record key. -/
theorem member?_eq_some_iff (h : type.IsLinked) (hf : f ∈ type.fields) (hname : f.name = typeField)
    (key : String) : type.member? key = some f ↔
      key = f.jsonName ∨ key = typeField ∧ type.member? typeField = some f := by
  constructor
  · intro hmember
    rcases (of_member? hmember).2 with hkey | hkey
    · exact .inl hkey.symm
    · obtain rfl : typeField = key := hname.symm.trans hkey
      exact .inr ⟨rfl, hmember⟩
  · rintro (rfl | ⟨rfl, hmember⟩)
    · rw [member?, find?_eq_some_of_nodup (g := MessageField.jsonName) h.keys hf]
    · exact hmember

/-- A first field whose record key is `type` takes the text of every record. -/
theorem takesType (h : type.IsLinked)
    (hfound : type.field? 1 = some f) (hkey : f.jsonName = typeField) (record : Record) (text : String) :
    type.TakesType record text := by
  refine ⟨f, hfound, .inl ⟨?_, .inl hkey.le⟩⟩
  rw [← hkey, member?, find?_eq_some_of_nodup (g := MessageField.jsonName) h.keys
    (List.mem_of_find?_eq_some hfound)]

end IsLinked

end MessageType

namespace Schema

variable {schema : Schema} {strict : Bool} {type : MessageType} {f : MessageField}

/-- A member sets a field of text to what `textOf?` gives, with strictness and without. -/
theorem ofMember_text (hf : f.IsText) (json : Json) :
    schema.ofMember f json (schema.valueOfJson? strict f.shape f.type json) =
      (f.textOf? json).map some := by
  rw [hf.shape, hf.type]
  cases json with
  | null =>
    rw [ofMember, ofNull, hf.type]
    rfl
  | _ =>
    rw [valueOfJson?]
    rfl

/-- Where the fields set before are sorted by number, so are those that `fieldsOfJson?` sets. -/
theorem isSorted_of_fieldsOfJson? {members : List (String × Json)} {values result : FieldValues}
    (hs : Assoc.IsSorted values)
    (h : schema.fieldsOfJson? strict type false values members = some result) :
    Assoc.IsSorted result := by
  rw [fieldsOfJson?_eq_foldlM] at h
  refine of_foldlM_eq_some hs (fun m _ values next hs hnext => ?_) h
  rcases cases_of_setMember? hnext with ⟨-, rfl⟩ | ⟨g, set, -, -, rfl, -⟩
  · exact hs
  · cases set with
    | none => exact hs
    | some value =>
      show Assoc.IsSorted (FieldValues.set values g.number value)
      rw [FieldValues.set_eq]
      exact hs.insert _ _

/-- The field number 1 holds in the end what the last member that addresses it says, or what it held before if
none does. -/
theorem exists_last_of_fieldsOfJson? (hlinked : type.IsLinked) (hfound : type.field? 1 = some f)
    (hf : f.IsText) {members : List (String × Json)} {values result : FieldValues}
    (h : schema.fieldsOfJson? strict type false values members = some result) :
    (FieldValues.get? result 1 = FieldValues.get? values 1 ∧
        ∀ m ∈ members, type.member? m.1 ≠ some f) ∨
      ∃ before key json after value, members = before ++ (key, json) :: after ∧
        type.member? key = some f ∧ (∀ m ∈ after, type.member? m.1 ≠ some f) ∧
        f.textOf? json = some value ∧ FieldValues.get? result 1 = some value := by
  -- By the members from the first on: one of the rest that addresses the field is later.
  induction members generalizing values with
  | nil =>
    rw [fieldsOfJson?] at h
    cases h
    exact .inl ⟨rfl, by simp⟩
  | cons m rest ih =>
    obtain ⟨key, json⟩ := m
    rw [fieldsOfJson?_cons_eq_bind] at h
    obtain ⟨next, hnext, hrest⟩ := Option.bind_eq_some_iff.mp h
    rcases ih hrest with ⟨hkept, hothers⟩ | ⟨before, last, said, after, value, rfl, hlast⟩
    · rcases cases_of_setMember? hnext with ⟨hnone, rfl⟩ | ⟨g, set, hmember, hset, rfl, -⟩
      · exact .inl ⟨hkept, List.forall_mem_cons.mpr ⟨by simp [hnone], hothers⟩⟩
      · have hg := (MessageType.of_member? hmember).1
        by_cases hone : g.number = 1
        · obtain rfl : g = f := by
            rw [← hone, hlinked.field?_number hg] at hfound
            exact Option.some.inj hfound
          rw [ofMember_text hf] at hset
          obtain ⟨value, hvalue, rfl⟩ := Option.map_eq_some_iff.mp hset
          refine .inr ⟨[], key, json, rest, value, rfl, hmember, hothers, hvalue, hkept.trans ?_⟩
          rw [Option.map_some, Option.getD_some, FieldValues.get?_set, if_pos hone]
        · refine .inl ⟨hkept.trans ?_, List.forall_mem_cons.mpr ⟨?_, hothers⟩⟩
          · cases set with
            | none => rfl
            | some value =>
              rw [Option.map_some, Option.getD_some, FieldValues.get?_set, if_neg hone]
          · rw [hmember]
            rintro ⟨⟩
            exact hone (by simpa using List.find?_some hfound)
    · exact .inr ⟨(key, json) :: before, last, said, after, value, rfl, hlast⟩

/-- The field number 1 of a record holds what the member with the greatest key of those that address it says, or
nothing if none does. -/
theorem exists_greatest_of_fieldsOfJson? (hlinked : type.IsLinked) (hfound : type.field? 1 = some f)
    (hf : f.IsText) {record : Record} {values : FieldValues}
    (h : schema.fieldsOfJson? strict type false [] record.members = some values) :
    (FieldValues.get? values 1 = none ∧
        ∀ key json, record.get? key = some json → type.member? key ≠ some f) ∨
      ∃ key json value, record.get? key = some json ∧ type.member? key = some f ∧
        (∀ other said, record.get? other = some said → type.member? other = some f → other ≤ key) ∧
        f.textOf? json = some value ∧ FieldValues.get? values 1 = some value := by
  rcases exists_last_of_fieldsOfJson? hlinked hfound hf h with
    ⟨hnone, hothers⟩ | ⟨before, key, json, after, value, hmembers, hkey, hafter, hvalue, hset⟩
  · exact .inl ⟨hnone, fun key json hjson => hothers _ (Entries.mem_of_get?_eq_some hjson)⟩
  · have hmem : (key, json) ∈ record.members := by simp [hmembers]
    refine .inr ⟨key, json, value, Entries.get?_eq_some_of_mem record.sorted hmem, hkey, ?_, hvalue, hset⟩
    intro other said hsaid hother
    have hin := Entries.mem_of_get?_eq_some hsaid
    have hsorted : Assoc.IsSorted (before ++ (key, json) :: after) := hmembers ▸ record.sorted
    rw [Assoc.IsSorted, List.map_append, List.pairwise_append] at hsorted
    rw [hmembers] at hin
    rcases List.mem_append.mp hin with hin | hin
    · exact (hsorted.2.2 other (List.mem_map_of_mem hin) key (by simp)).le
    · rcases List.mem_cons.mp hin with heq | hin
      · exact (congrArg Prod.fst heq).le
      · exact absurd hother (hafter _ hin)

/-- Of a record with the type `text`, the member with the greatest key that addresses the first field says
`text` exactly if the record takes it there. -/
theorem takesType_iff_of_greatest (hlinked : type.IsLinked) (hfound : type.field? 1 = some f)
    (hname : f.name = typeField) {record : Record} {text key : String} {json : Json} {value : Value}
    (hjson : (record.withType text).get? key = some json) (hkey : type.member? key = some f)
    (hgreatest : ∀ other said, (record.withType text).get? other = some said →
      type.member? other = some f → other ≤ key)
    (hvalue : f.textOf? json = some value) : value = .string text ↔ type.TakesType record text := by
  have haddress := hlinked.member?_eq_some_iff (List.mem_of_find?_eq_some hfound) hname
  have hget := Record.get?_withType record text
  rw [MessageType.takesType_iff hfound]
  by_cases htype : typeField = key
  · -- The member of the type counts, so that none under a later key addresses the field.
    rw [hget, if_pos htype] at hjson
    obtain rfl := Option.some.inj hjson
    obtain rfl : Value.string text = value := Option.some.inj hvalue
    refine iff_of_true rfl (.inl ⟨htype ▸ hkey, ?_⟩)
    by_cases hown : f.jsonName = typeField
    · exact .inl hown.le
    · cases hother : record.get? f.jsonName with
      | none => exact .inr rfl
      | some said =>
        refine .inl (htype ▸ hgreatest _ said ?_ ((haddress _).mpr (.inl rfl)))
        rw [hget, if_neg (Ne.symm hown), hother]
  · -- The member under the record key counts, which is not that of the type.
    obtain rfl : key = f.jsonName :=
      ((haddress key).mp hkey).resolve_right fun hboth => htype hboth.1.symm
    rw [hget, if_neg htype] at hjson
    constructor
    · rintro rfl
      exact .inr ⟨Ne.symm htype, json, hjson, hvalue⟩
    · rintro (⟨haddressed, hle | hnone⟩ | ⟨-, said, hsaid, hsays⟩)
      · have hge := hgreatest typeField (.str text) (by rw [hget, if_pos rfl]) haddressed
        exact absurd (le_antisymm hge hle) htype
      · rw [hnone] at hjson
        cases hjson
      · rw [hjson] at hsaid
        rw [← Option.some.inj hsaid, hvalue] at hsays
        exact Option.some.inj hsays

/-- The field number 1 of a record with the type `text` holds `text` exactly if `TakesType`, and a text in any
case. -/
theorem get?_one_of_fieldsOfJson? (hlinked : type.IsLinked) (hfound : type.field? 1 = some f)
    (hf : f.IsText) (hformed : f.IsFormed) (hname : f.name = typeField) {record : Record}
    {text : String} {values : FieldValues}
    (h : schema.fieldsOfJson? strict type false [] (record.withType text).members = some values) :
    (FieldValues.get? values 1 = some (.string text) ↔ type.TakesType record text) ∧
      ∀ value, FieldValues.get? values 1 = some value → ∃ s, value = .string s := by
  have hget := Record.get?_withType record text
  rcases exists_greatest_of_fieldsOfJson? hlinked hfound hf h with
    ⟨hnone, habsent⟩ | ⟨key, json, value, hjson, hkey, hgreatest, hvalue, hset⟩
  · -- Nothing addresses the field, not even the member of the type.
    rw [hnone, MessageType.takesType_iff hfound]
    refine ⟨⟨fun hnothing => (by cases hnothing), ?_⟩, fun _ hnothing => (by cases hnothing)⟩
    rintro (⟨htype, -⟩ | ⟨hne, json, hjson, -⟩)
    · exact absurd htype (habsent typeField _ (by rw [hget, if_pos rfl]))
    · have hown := hlinked.member?_eq_some_iff (List.mem_of_find?_eq_some hfound) hname f.jsonName
      refine absurd (hown.mpr (.inl rfl)) (habsent _ json ?_)
      rw [hget, if_neg hne.symm, hjson]
  · rw [hset, Option.some.injEq, takesType_iff_of_greatest hlinked hfound hname hjson hkey hgreatest hvalue]
    exact ⟨Iff.rfl, fun _ hsame => Option.some.inj hsame ▸ hformed.exists_of_textOf? hf hvalue⟩

end Schema

end Tagwire
