import Tagwire.Proofs.Mapping.Fields

/-!
# Records in normal form come back

A record in normal form becomes a message, the message bytes, and the bytes a record again.  The members
of a record set the fields of its message; reading the bytes of the message leads to fields of which each
shows as the member it comes from; and the members that these fields show are those of the record.  The
levels of records within records are as many as the reader has depth for.
-/

set_option autoImplicit false

namespace Tagwire

open Schema

namespace RegisteredType

/-- The fields `read` of a message show exactly the given members: each member is shown for its field, and each
field that has been read has a member. -/
structure ShowsAs (schema : Schema) (unpack : Unpack) (type : RegisteredType) (members : Entries Json)
    (read : FieldValues) : Prop where
  shown : ∀ f ∈ type.fields, ∀ json, Entries.get? members f.name = some json →
    schema.Shows unpack f.linked json (FieldValues.get? read f.number)
  listed : ∀ e ∈ read, ∃ f ∈ type.fields, f.number = e.1 ∧
    ∃ json, Entries.get? members f.name = some json

variable {schema : Schema} {strict : Bool} {unpack : Unpack} {type : RegisteredType}
  {members : Entries Json}

/-- A message whose fields show the members of an object shows this object. -/
theorem ShowsAs.valueToJson?_eq (ht : type.IsLoaded schema) (hs : Assoc.IsSorted members)
    (hdeclared : ∀ key json, Entries.get? members key = some json → ∃ f ∈ type.fields, f.name = key)
    (hpresent : ∀ f ∈ type.fields, f.linked.presence = false →
      (Entries.get? members f.name).isSome = true)
    {read : FieldValues} (hr : Assoc.IsSorted read) (h : ShowsAs schema unpack type members read) :
    schema.valueToJson? unpack (.message type.name) (.message read) = some (.obj members) := by
  have hshow : ∀ e ∈ read, ∃ m : String × Json, ∃ f ∈ type.fields, f.number = e.1 ∧ f.name = m.1 ∧
      Entries.get? members m.1 = some m.2 ∧ schema.valueToJson? unpack f.linked.type e.2 = some m.2 := by
    intro e he
    obtain ⟨f, hf, hnumber, json, hjson⟩ := h.listed e he
    have hshown := h.shown f hf json hjson
    rw [hnumber, FieldValues.get?_eq_some_of_mem hr he] at hshown
    exact ⟨(f.name, json), f, hf, hnumber, rfl, hjson, hshown⟩
  obtain ⟨shown, hshown⟩ := exists_forall₂ hshow
  have hfields : schema.fieldsToJson? unpack type.linked read = some shown := by
    refine fieldsToJson?_eq_some (hshown.imp fun e m hm => ?_)
    obtain ⟨f, hf, hnumber, hname, -, hform⟩ := hm
    exact ⟨f.linked, hnumber ▸ ht.field?_linked hf, hform, (ht.jsonName_linked hf).trans hname⟩
  -- A member is shown by the field that was read for it, or else by the default of its field.
  have hmembers : Entries.ofList (schema.unsetMembers type.linked read ++ shown) = members := by
    apply Entries.ofList_eq_of_mem_iff hs
    intro key json
    rw [List.mem_append, ht.mem_unsetMembers_iff]
    constructor
    · rintro (⟨f, hf, rfl, hpresence, hnone, rfl⟩ | hmem)
      · obtain ⟨json, hjson⟩ := Option.isSome_iff_exists.mp (hpresent f hf hpresence)
        have hdefault := h.shown f hf json hjson
        rw [hnone] at hdefault
        rw [hjson, hdefault.2]
      · obtain ⟨e, -, -, -, -, -, hjson, -⟩ := exists_of_forall₂ hshown.flip hmem
        exact hjson
    · intro hjson
      obtain ⟨f, hf, rfl⟩ := hdeclared key json hjson
      have hform := h.shown f hf json hjson
      cases hvalue : FieldValues.get? read f.number with
      | none =>
        rw [hvalue] at hform
        exact .inl ⟨f, hf, rfl, hform.1, hvalue, hform.2⟩
      | some value =>
        obtain ⟨⟨name, other⟩, hmem, g, hg, hnumber, rfl, hother, -⟩ :=
          exists_of_forall₂ hshown (FieldValues.mem_of_get?_eq_some hvalue)
        obtain rfl := ht.eq_of_number_eq hg hf hnumber
        rw [hjson, Option.some.injEq] at hother
        exact .inr (hother ▸ hmem)
  rw [ht.valueToJson?_message, hfields, Option.map_some, Json.ofMembers, hmembers]

/-- If the bytes of a field with this value are fewer than `2 ^ 64`, either there are none and the field without
a value shows `json`, or reading them adds a value that shows `json`. -/
def WritesShown (schema : Schema) (unpack : Unpack) (depth : Nat) (type : RegisteredType)
    (f : RegisteredField) (json : Json) (value : Value) : Prop :=
  (schema.encodeField f.linked value).length < 2 ^ 64 →
    schema.encodeField f.linked value = [] ∧ schema.Shows unpack f.linked json none ∨
    ∃ read, Adds schema (schema.nestedReader depth) depth type.linked f.linked
        (schema.encodeField f.linked value) read ∧
      schema.Shows unpack f.linked json (some read)

/-- Members that return, each for its field, set the fields of a message in order of number, each to a value
with `WritesShown`. -/
theorem IsLoaded.exists_fieldsOfJson (ht : type.IsLoaded schema) (hs : Assoc.IsSorted members)
    {depth : Nat}
    (hmember : ∀ key json, Entries.get? members key = some json → ∃ f ∈ type.fields, f.name = key ∧
      FieldReturns schema strict unpack (schema.nestedReader depth) depth type.linked f.linked json) :
    ∃ values, schema.fieldsOfJson? strict type.linked false [] members = some values ∧
      Assoc.IsSorted values ∧
      (∀ f ∈ type.fields, (Entries.get? members f.name).isSome = true →
        f.number ∈ values.map Prod.fst) ∧
      ∀ e ∈ values, ∃ f ∈ type.fields, f.number = e.1 ∧ ∃ json,
        Entries.get? members f.name = some json ∧ WritesShown schema unpack depth type f json e.2 := by
  have hset : ∀ m ∈ members, ∃ e : Nat × Value, ∃ f ∈ type.fields, f.name = m.1 ∧ f.number = e.1 ∧
      m.2 ≠ .null ∧ schema.valueOfJson? strict f.linked.shape f.linked.type m.2 = some e.2 ∧
      WritesShown schema unpack depth type f m.2 e.2 := by
    intro m hm
    have hget := Entries.get?_eq_some_of_mem hs hm
    obtain ⟨f, hf, hname, hne, value, hvalue, hback⟩ := hmember m.1 m.2 hget
    exact ⟨(f.number, value), f, hf, hname, rfl, hne, hvalue, hback⟩
  obtain ⟨entries, hentries⟩ := exists_forall₂ hset
  refine ⟨Assoc.insertAll [] entries, ?_, ?_, fun f hf hsome => ?_, fun e he => ?_⟩
  · refine fieldsOfJson?_eq_some (hentries.imp fun m e hm => ?_) []
    obtain ⟨f, hf, hname, hnumber, hne, hvalue, -⟩ := hm
    refine ⟨f.linked, hname ▸ ht.member?_linked hf, rfl, ?_, hnumber⟩
    rw [ofMember_of_ne_null hne, hvalue, Option.map_some]
  · exact Assoc.IsSorted.insertAll (show Assoc.IsSorted [] from .nil) entries
  · obtain ⟨json, hjson⟩ := Option.isSome_iff_exists.mp hsome
    obtain ⟨e, he, g, hg, hname, hnumber, -⟩ :=
      exists_of_forall₂ hentries (Entries.mem_of_get?_eq_some hjson)
    obtain rfl := ht.eq_of_name_eq hg hf hname
    rw [Assoc.mem_keys_insertAll, hnumber]
    exact .inl (List.mem_map_of_mem he)
  · obtain ⟨m, hm, f, hf, hname, hnumber, -, -, hback⟩ :=
      exists_of_forall₂ hentries.flip ((Assoc.mem_of_mem_insertAll he).resolve_right (by simp))
    refine ⟨f, hf, hnumber, m.2, ?_, hback⟩
    rw [hname]
    exact Entries.get?_eq_some_of_mem hs hm

/-- The value read for the number of an entry, if there is one, shows as the member under the key of its
field. -/
def ShowsMember (schema : Schema) (unpack : Unpack) (type : RegisteredType) (members : Entries Json)
    (e : Nat × Value) (read : Option Value) : Prop :=
  ∃ f ∈ type.fields, f.number = e.1 ∧ ∃ json,
    Entries.get? members f.name = some json ∧ schema.Shows unpack f.linked json read

/-- From the bytes of fields with `WritesShown`, `readMessage` reads fields that show the members. -/
theorem IsLoaded.exists_showsAs (ht : type.IsLoaded schema) {depth : Nat} {values : FieldValues}
    (hs : Assoc.IsSorted values)
    (hset : ∀ f ∈ type.fields, (Entries.get? members f.name).isSome = true →
      f.number ∈ values.map Prod.fst)
    (hvalues : ∀ e ∈ values, ∃ f ∈ type.fields, f.number = e.1 ∧ ∃ json,
      Entries.get? members f.name = some json ∧ WritesShown schema unpack depth type f json e.2)
    (hlength : (schema.encode type.linked values).length < 2 ^ 64) :
    ∃ read, schema.readMessage depth type.linked none [] (schema.encode type.linked values) =
        some (read, []) ∧ Assoc.IsSorted read ∧ ShowsAs schema unpack type members read := by
  have hadds : ∀ e ∈ values, ∃ f, EntryAdds schema (schema.nestedReader depth) depth type.linked
      (ShowsMember schema unpack type members) (values.map Prod.fst) e f := by
    intro e he
    obtain ⟨f, hf, hnumber, json, hjson, hback⟩ := hvalues e he
    have hfound : type.linked.field? e.1 = some f.linked := hnumber ▸ ht.field?_linked hf
    have hle : (schema.encodeField f.linked e.2).length ≤ _ := length_encodeField_le he hfound
    refine ⟨f.linked, hfound, hnumber, by simp [(ht.declares hf).rivals_eq_nil], ?_⟩
    rcases hback (by omega) with ⟨hempty, hform⟩ | ⟨read, hadds, hform⟩
    · exact .inl ⟨hempty, f, hf, hnumber, json, hjson, hform⟩
    · exact .inr ⟨read, hadds, f, hf, hnumber, json, hjson, hform⟩
  obtain ⟨read, hread, hsorted, hshown, hkept⟩ :=
    exists_fieldsRead hs.nodup hadds (show Assoc.IsSorted [] from .nil) fun _ _ _ _ _ _ _ => rfl
  refine ⟨read, ?_, hsorted, fun f hf json hjson => ?_, fun e he => ?_⟩
  · rw [readMessage_eq]
    exact readFields_eq_of_forall hread (Nat.le_refl _)
  · obtain ⟨e, he, heq⟩ := List.mem_map.mp (hset f hf (by rw [hjson]; rfl))
    obtain ⟨g, hg, hnumber, other, hother, hform⟩ := hshown e he
    obtain rfl := ht.eq_of_number_eq hg hf (hnumber.trans heq)
    rw [hjson, Option.some.injEq] at hother
    rw [← heq, hother]
    exact hform
  · have hget := FieldValues.get?_eq_some_of_mem hsorted he
    by_cases hkey : e.1 ∈ values.map Prod.fst
    · obtain ⟨e', he', heq⟩ := List.mem_map.mp hkey
      obtain ⟨f, hf, hnumber, json, hjson, -⟩ := hshown e' he'
      exact ⟨f, hf, hnumber.trans heq, json, hjson⟩
    · rw [hkept e.1 hkey] at hget
      cases hget

/-- A record returns if each of its members does and no field without presence lacks one. -/
theorem IsLoaded.recordReturns (ht : type.IsLoaded schema) (hs : Assoc.IsSorted members) {depth : Nat}
    (hmember : ∀ key json, Entries.get? members key = some json → ∃ f ∈ type.fields, f.name = key ∧
      FieldReturns schema strict unpack (schema.nestedReader depth) depth type.linked f.linked json)
    (hpresent : ∀ f ∈ type.fields, f.linked.presence = false →
      (Entries.get? members f.name).isSome = true) :
    RecordReturns schema strict unpack (schema.readMessage depth) type.name (.obj members) := by
  obtain ⟨values, hfields, hsorted, hset, hvalues⟩ := ht.exists_fieldsOfJson hs hmember
  refine ⟨type.linked, values, ht.linked, by simp, ?_, fun hlength => ?_⟩
  · rw [ht.valueOfJson?_obj, hfields, Option.map_some]
  · obtain ⟨read, hread, hreadSorted, hshown⟩ := ht.exists_showsAs hsorted hset hvalues hlength
    refine ⟨read, hread, hshown.valueToJson?_eq ht hs (fun key json hjson => ?_) hpresent hreadSorted⟩
    obtain ⟨f, hf, hname, -⟩ := hmember key json hjson
    exact ⟨f, hf, hname⟩

end RegisteredType

end Tagwire
