import Tagwire.Proofs.Mapping.Fields

/-!
# What a message shows

A message is written as the object of the fields that are set and of those without presence.  Whichever
way these are gathered, each field of the type contributes one member or none, under its own record key; so
the object is the one that the fields of the type make in their order.
-/

set_option autoImplicit false

namespace Tagwire

namespace Schema

variable {schema : Schema} {unpack : Unpack} {type : MessageType} {values : FieldValues}

/-- The member that a field of a message shows: its value under its record key, or else the default if it has no
presence, or else nothing. -/
def memberToJson? (schema : Schema) (unpack : Unpack) (values : FieldValues) (f : MessageField) :
    Option (List (String × Json)) :=
  match FieldValues.get? values f.number with
  | some value => (schema.valueToJson? unpack f.type value).map fun json => [(f.jsonName, json)]
  | none => some (if f.presence then [] else [(f.jsonName, schema.defaultToJson f)])

/-- The members that `fieldsToJson?` shows are those of the fields that are set, one for each and in their
order. -/
theorem forall₂_of_fieldsToJson? (hfound : ∀ e ∈ values, (type.field? e.1).isSome = true)
    {members : List (String × Json)} (h : schema.fieldsToJson? unpack type values = some members) :
    List.Forall₂ (fun e m => ∃ f, type.field? e.1 = some f ∧
      schema.valueToJson? unpack f.type e.2 = some m.2 ∧ f.jsonName = m.1) values members := by
  induction values generalizing members with
  | nil =>
    cases h
    exact .nil
  | cons e rest ih =>
    obtain ⟨number, value⟩ := e
    rw [List.forall_mem_cons] at hfound
    obtain ⟨f, hf⟩ := Option.isSome_iff_exists.mp hfound.1
    rw [fieldsToJson?, hf] at h
    simp only [Option.bind_eq_bind, Option.bind_eq_some_iff, Option.pure_def, Option.some.injEq] at h
    obtain ⟨json, hjson, more, hmore, rfl⟩ := h
    exact .cons ⟨f, hf, hjson, rfl⟩ (ih hfound.2 hmore)

/-- A field that is not set shows its default if it has no presence, and nothing otherwise. -/
theorem memberToJson?_of_unset {f : MessageField} (h : FieldValues.get? values f.number = none) :
    schema.memberToJson? unpack values f =
      some (if f.presence then [] else [(f.jsonName, schema.defaultToJson f)]) := by
  rw [memberToJson?, h]

/-- A field that is set shows its value. -/
theorem memberToJson?_of_get? {f : MessageField} {value : Value}
    (h : FieldValues.get? values f.number = some value) : schema.memberToJson? unpack values f =
      (schema.valueToJson? unpack f.type value).map fun json => [(f.jsonName, json)] := by
  rw [memberToJson?, h]

/-- A field shows one member under its record key, or none. -/
theorem eq_nil_or_singleton_of_memberToJson? {f : MessageField} {own : List (String × Json)}
    (h : schema.memberToJson? unpack values f = some own) : own = [] ∨ ∃ json, own = [(f.jsonName, json)] := by
  cases hvalue : FieldValues.get? values f.number with
  | some value =>
    rw [memberToJson?_of_get? hvalue] at h
    obtain ⟨json, -, rfl⟩ := Option.map_eq_some_iff.mp h
    exact .inr ⟨json, rfl⟩
  | none =>
    rw [memberToJson?_of_unset hvalue] at h
    cases h
    split
    · exact .inl rfl
    · exact .inr ⟨_, rfl⟩

/-- The key of the member that a field shows is its record key. -/
theorem key_eq_of_memberToJson? {f : MessageField} {m : String × Json}
    (h : schema.memberToJson? unpack values f = some [m]) : m.1 = f.jsonName := by
  obtain hnil | ⟨json, hown⟩ := eq_nil_or_singleton_of_memberToJson? h
  · cases hnil
  · rw [List.singleton_inj.mp hown]

/-- The members that all fields show are exactly those that one of them shows. -/
theorem mem_flatten_iff_of_mapM {fields : List MessageField} {shown : List (List (String × Json))}
    (h : fields.mapM (schema.memberToJson? unpack values) = some shown) {m : String × Json} :
    m ∈ shown.flatten ↔ ∃ f ∈ fields, schema.memberToJson? unpack values f = some [m] := by
  rw [List.mem_flatten]
  constructor
  · rintro ⟨own, hmem, hm⟩
    obtain ⟨f, hf, hown⟩ := exists_of_mem_mapM h hmem
    obtain rfl | ⟨json, rfl⟩ := eq_nil_or_singleton_of_memberToJson? hown
    · cases hm
    · rw [List.mem_singleton] at hm
      exact ⟨f, hf, hm ▸ hown⟩
  · rintro ⟨f, hf, hm⟩
    obtain ⟨own, hmem, hown⟩ := exists_mem_of_mapM h hf
    rw [hm, Option.some.injEq] at hown
    exact ⟨own, hmem, hown ▸ List.mem_singleton_self m⟩

/-- The keys of the members that fields show are among their record keys, in their order. -/
theorem keys_sublist_of_mapM {fields : List MessageField} {shown : List (List (String × Json))}
    (h : fields.mapM (schema.memberToJson? unpack values) = some shown) :
    (shown.flatten.map Prod.fst).Sublist (fields.map MessageField.jsonName) := by
  induction fields generalizing shown with
  | nil =>
    cases h
    exact .slnil
  | cons f rest ih =>
    rw [List.mapM_cons] at h
    simp only [Option.bind_eq_bind, Option.bind_eq_some_iff, Option.pure_def, Option.some.injEq] at h
    obtain ⟨own, hown, others, hothers, rfl⟩ := h
    have hkeys : (own.map Prod.fst).Sublist [f.jsonName] := by
      obtain rfl | ⟨json, rfl⟩ := eq_nil_or_singleton_of_memberToJson? hown
      · exact List.nil_sublist _
      · exact List.Sublist.refl _
    rw [List.flatten_cons, List.map_append, List.map_cons]
    exact hkeys.append (ih hothers)

/-- The members of `unsetMembers` are exactly those that fields which are not set show. -/
theorem mem_unsetMembers_iff {m : String × Json} : m ∈ schema.unsetMembers type values ↔
    ∃ f ∈ type.fields, FieldValues.get? values f.number = none ∧
      schema.memberToJson? unpack values f = some [m] := by
  rw [unsetMembers, List.mem_map]
  constructor
  · rintro ⟨f, hf, rfl⟩
    obtain ⟨hf, hcond⟩ := List.mem_filter.mp hf
    simp only [Bool.and_eq_true, Bool.not_eq_true', FieldValues.contains,
      Option.isSome_eq_false_iff, Option.isNone_iff_eq_none] at hcond
    exact ⟨f, hf, hcond.2, by rw [memberToJson?_of_unset hcond.2, hcond.1, if_neg Bool.false_ne_true]⟩
  · rintro ⟨f, hf, hunset, hm⟩
    rw [memberToJson?_of_unset hunset, Option.some.injEq] at hm
    split at hm
    · cases hm
    · rename_i hpresence
      refine ⟨f, List.mem_filter.mpr ⟨hf, ?_⟩, List.singleton_inj.mp hm⟩
      rw [FieldValues.contains, hunset, Bool.eq_false_iff.mpr hpresence]
      rfl

end Schema

namespace MessageType.IsOrdinary

open Schema

variable {schema : Schema} {unpack : Unpack} {type : MessageType} {values : FieldValues}

/-- If `memberToJson?` shows all fields, `fieldsToJson?` shows those that are set. -/
theorem exists_fieldsToJson?_of_mapM (hs : Assoc.IsSorted values)
    (hfound : ∀ e ∈ values, (type.field? e.1).isSome = true) {shown : List (List (String × Json))}
    (h : type.fields.mapM (schema.memberToJson? unpack values) = some shown) :
    ∃ members, schema.fieldsToJson? unpack type values = some members := by
  have hforms : ∀ e ∈ values, ∃ m : String × Json, ∃ f, type.field? e.1 = some f ∧
      schema.valueToJson? unpack f.type e.2 = some m.2 ∧ f.jsonName = m.1 := by
    intro e he
    obtain ⟨f, hfield⟩ := Option.isSome_iff_exists.mp (hfound e he)
    obtain ⟨own, -, hown⟩ := exists_mem_of_mapM h (List.mem_of_find?_eq_some hfield)
    have hvalue : FieldValues.get? values f.number = some e.2 := by
      rw [number_of_field? hfield, FieldValues.get?_eq_some_of_mem hs he]
    rw [memberToJson?_of_get? hvalue] at hown
    obtain ⟨json, hjson, -⟩ := Option.map_eq_some_iff.mp hown
    exact ⟨(f.jsonName, json), f, hfield, hjson, rfl⟩
  obtain ⟨members, hmembers⟩ := exists_forall₂ hforms
  exact ⟨members, fieldsToJson?_eq_some hmembers⟩

/-- The members that `fieldsToJson?` shows are exactly those that fields which are set show. -/
theorem mem_iff_of_fieldsToJson? (ht : type.IsOrdinary schema) (hs : Assoc.IsSorted values)
    (hfound : ∀ e ∈ values, (type.field? e.1).isSome = true) {members : List (String × Json)}
    (h : schema.fieldsToJson? unpack type values = some members) {m : String × Json} :
    m ∈ members ↔ ∃ f ∈ type.fields, (FieldValues.get? values f.number).isSome = true ∧
      schema.memberToJson? unpack values f = some [m] := by
  have hforms := forall₂_of_fieldsToJson? hfound h
  constructor
  · intro hm
    obtain ⟨e, he, f, hfield, hjson, hname⟩ := exists_of_forall₂ hforms.flip hm
    have hvalue : FieldValues.get? values f.number = some e.2 := by
      rw [number_of_field? hfield, FieldValues.get?_eq_some_of_mem hs he]
    refine ⟨f, List.mem_of_find?_eq_some hfield, by rw [hvalue]; rfl, ?_⟩
    rw [memberToJson?_of_get? hvalue, hjson, hname]
    rfl
  · rintro ⟨f, hf, hset, hm⟩
    obtain ⟨value, hvalue⟩ := Option.isSome_iff_exists.mp hset
    obtain ⟨⟨key, json⟩, hmem, g, hg, hjson, rfl⟩ :=
      exists_of_forall₂ hforms (FieldValues.mem_of_get?_eq_some hvalue)
    rw [ht.field?_number hf, Option.some.injEq] at hg
    subst hg
    rw [memberToJson?_of_get? hvalue, hjson, Option.map_some, Option.some.injEq] at hm
    exact List.singleton_inj.mp hm ▸ hmem

/-- If `fieldsToJson?` shows the fields that are set, `memberToJson?` shows all fields. -/
theorem exists_mapM_of_fieldsToJson? (ht : type.IsOrdinary schema)
    (hfound : ∀ e ∈ values, (type.field? e.1).isSome = true) {members : List (String × Json)}
    (h : schema.fieldsToJson? unpack type values = some members) :
    ∃ shown, type.fields.mapM (schema.memberToJson? unpack values) = some shown := by
  refine exists_mapM_eq_some fun f hf => ?_
  cases hvalue : FieldValues.get? values f.number with
  | none => exact ⟨_, memberToJson?_of_unset hvalue⟩
  | some value =>
    obtain ⟨m, -, g, hg, hjson, -⟩ :=
      exists_of_forall₂ (forall₂_of_fieldsToJson? hfound h) (FieldValues.mem_of_get?_eq_some hvalue)
    rw [ht.field?_number hf, Option.some.injEq] at hg
    subst hg
    exact ⟨_, by rw [memberToJson?_of_get? hvalue, hjson]; rfl⟩

/-- A message of an ordinary type shows the object of the members that its fields show. -/
theorem valueToJson?_eq_mapM (ht : type.IsOrdinary schema) (hs : Assoc.IsSorted values)
    (hfound : ∀ e ∈ values, (type.field? e.1).isSome = true) :
    schema.valueToJson? unpack (.message type.name) (.message values) =
      (type.fields.mapM (schema.memberToJson? unpack values)).map fun shown => .ofMembers shown.flatten := by
  rw [ht.valueToJson?_message]
  cases hfields : schema.fieldsToJson? unpack type values with
  | none =>
    cases hshown : type.fields.mapM (schema.memberToJson? unpack values) with
    | none => rfl
    | some shown =>
      obtain ⟨members, hmembers⟩ := exists_fieldsToJson?_of_mapM hs hfound hshown
      rw [hmembers] at hfields
      cases hfields
  | some members =>
    obtain ⟨shown, hshown⟩ := ht.exists_mapM_of_fieldsToJson? hfound hfields
    have hnodup : (shown.flatten.map Prod.fst).Nodup := (keys_sublist_of_mapM hshown).nodup ht.keys
    rw [hshown, Option.map_some, Option.map_some]
    refine congrArg some (congrArg Json.obj ?_)
    apply Entries.ofList_eq_of_mem_iff (Entries.isSorted_ofList _)
    intro key json
    have hget : (Entries.ofList shown.flatten).get? key = some json ↔ (key, json) ∈ shown.flatten := by
      rw [Entries.get?_ofList hnodup]
      exact ⟨Assoc.mem_of_get?_eq_some, Assoc.get?_eq_some_of_mem hnodup⟩
    -- The members of the fields that are not set and of those that are make up those of all.
    rw [hget, mem_flatten_iff_of_mapM hshown, List.mem_append, mem_unsetMembers_iff,
      ht.mem_iff_of_fieldsToJson? hs hfound hfields]
    constructor
    · rintro (⟨f, hf, -, hm⟩ | ⟨f, hf, -, hm⟩)
      · exact ⟨f, hf, hm⟩
      · exact ⟨f, hf, hm⟩
    · rintro ⟨f, hf, hm⟩
      cases hvalue : FieldValues.get? values f.number with
      | none => exact .inl ⟨f, hf, hvalue, hm⟩
      | some value => exact .inr ⟨f, hf, by rw [hvalue]; rfl, hm⟩

/-- A message of an ordinary type that is shown at all is shown as an object whose members, sorted by key, are
exactly those that its fields show. -/
theorem exists_members (ht : type.IsOrdinary schema) (hs : Assoc.IsSorted values)
    (hfound : ∀ e ∈ values, (type.field? e.1).isSome = true) {json : Json}
    (h : schema.valueToJson? unpack (.message type.name) (.message values) = some json) :
    ∃ members : Entries Json, json = .obj members ∧ Assoc.IsSorted members ∧
      (∀ m ∈ members, ∃ f ∈ type.fields, f.jsonName = m.1) ∧
      ∀ f ∈ type.fields, schema.memberToJson? unpack values f =
        some ((Entries.get? members f.jsonName).toList.map fun json => (f.jsonName, json)) := by
  rw [ht.valueToJson?_eq_mapM hs hfound] at h
  obtain ⟨shown, hshown, rfl⟩ := Option.map_eq_some_iff.mp h
  have hnodup : (shown.flatten.map Prod.fst).Nodup := (keys_sublist_of_mapM hshown).nodup ht.keys
  refine ⟨Entries.ofList shown.flatten, rfl, Entries.isSorted_ofList _, fun m hm => ?_, fun f hf => ?_⟩
  · have hget := Entries.get?_eq_some_of_mem (Entries.isSorted_ofList _) hm
    rw [Entries.get?_ofList hnodup] at hget
    obtain ⟨f, hf, hown⟩ := (mem_flatten_iff_of_mapM hshown).mp (Assoc.mem_of_get?_eq_some hget)
    exact ⟨f, hf, (key_eq_of_memberToJson? hown).symm⟩
  · obtain ⟨own, -, hown⟩ := exists_mem_of_mapM hshown hf
    rw [hown, Option.some.injEq, Entries.get?_ofList hnodup]
    obtain rfl | ⟨json, rfl⟩ := eq_nil_or_singleton_of_memberToJson? hown
    · -- No other field has a member under the key of this one.
      have hnone : Assoc.get? shown.flatten f.jsonName = none := by
        rw [Assoc.get?_eq_none_iff, List.mem_map]
        rintro ⟨m, hm, hkey⟩
        obtain ⟨g, hg, hmember⟩ := (mem_flatten_iff_of_mapM hshown).mp hm
        obtain rfl := List.inj_on_of_nodup_map ht.keys hg hf ((key_eq_of_memberToJson? hmember).symm.trans hkey)
        rw [hown] at hmember
        cases hmember
      rw [hnone]
      rfl
    · have hmem : (f.jsonName, json) ∈ shown.flatten := (mem_flatten_iff_of_mapM hshown).mpr ⟨f, hf, hown⟩
      have hsome : Assoc.get? shown.flatten f.jsonName = some json := Assoc.get?_eq_some_of_mem hnodup hmem
      rw [hsome]
      rfl

end MessageType.IsOrdinary

end Tagwire
