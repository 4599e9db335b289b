import Tagwire.Proofs.Mapping.Flat
import Tagwire.Proofs.Mapping.Members
import Tagwire.Proofs.Schema.Forms
import Tagwire.Proofs.Wire.Depth

/-!
# Messages in an `Any`

An `Any` is shown as the message in it, beside the address of its type.  What is unpacked from it is shorter than
the message that it stands in, so that bytes are unpacked the same way however deep they stand; and the type that
is found under an address for showing a message is the one that is found for reading it.
-/

set_option autoImplicit false

namespace Tagwire

open Schema

/-! ## Addresses -/

/-- A name without a slash that `nameInTypeAddress?` finds in an address is found by `nameOfTypeAddress?`
too. -/
theorem nameOfTypeAddress?_eq {address name : String} (h : nameInTypeAddress? address = some name)
    (hslash : '/' ∉ name.toList) : nameOfTypeAddress? address = some name := by
  unfold nameInTypeAddress? at h
  obtain ⟨hstart, hname⟩ := Option.ite_none_right_eq_some.mp h
  obtain ⟨rest, hrest⟩ := List.isPrefixOf_iff_prefix.mp hstart
  obtain rfl : name = String.ofList rest := by
    rw [← hrest, List.drop_left, Option.some.injEq] at hname
    exact hname.symm
  rw [String.toList_ofList] at hslash
  have hlast : (address.toList.reverse.takeWhile (· != '/')).reverse = rest := by
    have hall : ∀ c ∈ rest.reverse, (c != '/') = true := by
      intro c hc
      rw [List.mem_reverse] at hc
      exact bne_iff_ne.mpr fun heq => hslash (heq ▸ hc)
    rw [← hrest, List.reverse_append, List.takeWhile_append_of_pos hall]
    show (rest.reverse ++ []).reverse = rest
    rw [List.append_nil, List.reverse_reverse]
  unfold nameOfTypeAddress?
  rw [if_pos, hlast]
  rw [← hrest]
  exact List.contains_iff_mem.mpr (List.mem_append_left _ (by decide))

namespace Schema

variable {schema : Schema} {type : MessageType} {values : FieldValues} {u v : Unpack} {limit : Nat}

/-- A name under which `lookup?` finds a type has no slash. -/
theorem IsCompiled.slash_not_mem_of_lookup? (hs : schema.IsCompiled) {name : String}
    (h : schema.lookup? name = some type) : '/' ∉ name.toList := by
  unfold lookup? at h
  split at h
  · rename_i rest hname
    have hrest := hs.slash_not_mem h
    rw [String.toList_ofList] at hrest
    rw [hname, List.mem_cons, not_or]
    exact ⟨by decide, hrest⟩
  · exact hs.slash_not_mem h

/-- The type that is found under an address when an `Any` is shown is found when it is read. -/
theorem IsCompiled.lookup?_address (hs : schema.IsCompiled) {address : String}
    (h : (nameInTypeAddress? address).bind schema.lookup? = some type) :
    (nameOfTypeAddress? address).bind schema.lookup? = some type := by
  obtain ⟨name, hname, hlookup⟩ := Option.bind_eq_some_iff.mp h
  rw [nameOfTypeAddress?_eq hname (hs.slash_not_mem_of_lookup? hlookup), Option.bind_some, hlookup]

/-- A type that `lookup?` finds is found by `message?` under its own name. -/
theorem IsLinked.message?_of_lookup? (hs : schema.IsLinked) {name : String}
    (h : schema.lookup? name = some type) : schema.message? type.name = some type := by
  have hnamed : ∀ {name}, schema.message? name = some type → schema.message? type.name = some type := by
    intro name hm
    have heq : type.name = name := hs.named (name, type) (Entries.mem_of_get?_eq_some hm)
    rw [heq, hm]
  unfold lookup? at h
  split at h
  · exact hnamed h
  · exact hnamed h

/-! ## What is unpacked -/

/-- Of each `Any` message that takes at most `limit` bytes, `v` unpacks the members that `u` unpacks of it, if
`u` does. -/
def UnpacksLess (schema : Schema) (limit : Nat) (u v : Unpack) : Prop :=
  ∀ type values laidOut members, schema.message? type.name = some type →
    SpecialForm.ofTypeName? type.name = some .any → type.Holds schema values →
    (schema.encode type values).length ≤ limit → SpecialForm.any.load? schema type values = some laidOut →
    u (SpecialForm.textAt laidOut 1) (SpecialForm.bytesAt laidOut 2) = some members →
    v (SpecialForm.textAt laidOut 1) (SpecialForm.bytesAt laidOut 2) = some members

/-- A message of at most `limit` bytes that shows an object with `u` shows the same with `v`, if its fields
do. -/
theorem UnpacksLess.message (hu : schema.UnpacksLess limit u v) (hw : type.IsWired schema)
    (hm : schema.message? type.name = some type) (h : type.Holds schema values)
    (hsize : (schema.encode type values).length ≤ limit)
    (hfields : SpecialForm.ofTypeName? type.name = none →
      ∀ e ∈ values, ∀ f, type.field? e.1 = some f → ∀ json,
      schema.valueToJson? u f.type e.2 = some json → schema.valueToJson? v f.type e.2 = some json)
    {json : Json} (hjson : schema.valueToJson? u (.message type.name) (.message values) = some json) :
    schema.valueToJson? v (.message type.name) (.message values) = some json := by
  cases hform : SpecialForm.ofTypeName? type.name with
  | none =>
    have ht : type.IsOrdinary schema := ⟨hw.toIsLinked, hm, hform⟩
    rw [ht.valueToJson?_message] at hjson ⊢
    obtain ⟨members, hmembers, rfl⟩ := Option.map_eq_some_iff.mp hjson
    have hshown :=
      (List.forall₂_and_left _ _).mpr ⟨hfields hform, forall₂_of_fieldsToJson? h.found hmembers⟩
    rw [fieldsToJson?_eq_some (hshown.imp ?_), Option.map_some]
    rintro e m ⟨hmono, f, hf, hvalue, hname⟩
    exact ⟨f, hf, hmono f hf m.2 hvalue, hname⟩
  | some form =>
    rw [valueToJson?] at hjson ⊢
    simp only [ValueType.name, hm, hform, specialToJson?, Option.bind_eq_bind, Option.bind_eq_some_iff]
      at hjson ⊢
    obtain ⟨laidOut, hload, hjson⟩ := hjson
    refine ⟨laidOut, hload, ?_⟩
    cases form with
    | any =>
      obtain ⟨members, hmembers, hjson⟩ := Option.bind_eq_some_iff.mp hjson
      exact Option.bind_eq_some_iff.mpr
        ⟨members, hu type values laidOut members hm hform h hsize hload hmembers, hjson⟩
    | _ => exact hjson

/-- A value that takes at most `limit` bytes in a field and shows a JSON value with `u` shows the same with
`v`. -/
theorem UnpacksLess.value (hu : schema.UnpacksLess limit u v) (hs : schema.IsCompiled) {shape : FieldShape}
    {valueType : ValueType} {value : Value} (h : schema.Holds shape valueType value) (hshape : shape ≠ .map)
    {f : MessageField} (hw : f.IsWired) (htype : f.type = valueType)
    (hsize : (schema.encodeField f value).length ≤ limit) {json : Json}
    (hjson : schema.valueToJson? u valueType value = some json) :
    schema.valueToJson? v valueType value = some json := by
  induction h generalizing f json with
  | scalar hk h =>
    rw [valueToJson?_of_isScalar _ (Scalar.isScalar_of_holds h)] at hjson ⊢
    exact hjson
  | @list valueType items h ih =>
    obtain ⟨jsons, hjsons, rfl⟩ := Option.map_eq_some_iff.mp hjson
    rw [valueToJson?]
    refine Option.map_eq_some_iff.mpr ⟨jsons, ?_, rfl⟩
    rw [itemsToJson?_eq_mapM] at hjsons ⊢
    refine mapM_eq_some_mono (fun item hitem json hjson => ?_) hjsons
    cases hpacked : f.packed with
    | true =>
      -- Only scalars are packed.
      obtain ⟨kind, hk⟩ := ValueType.exists_scalar?_of_isPackable (hw.packed hpacked).2
      have hscalar := Scalar.isScalar_of_holds ((h item hitem).of_scalar? (htype ▸ hk))
      rw [valueToJson?_of_isScalar _ hscalar] at hjson ⊢
      exact hjson
    | false =>
      rw [encodeField_list hpacked] at hsize
      have hle := @length_encodeField_le_encodeItems schema f _ _ hitem
      exact ih item hitem (by intro h; cases h) hw htype (hle.trans hsize) hjson
  | map => exact absurd rfl hshape
  | @message name type values hm hsorted hfound halone hfields ih =>
    have hname : type.name = name := hs.named (name, type) (Entries.mem_of_get?_eq_some hm)
    subst hname
    have hwired := hs.types _ type hm
    have hinner : (schema.encode type values).length ≤ limit := by
      rw [encodeField_message type (f.omits_message values) (htype ▸ hm)] at hsize
      exact (f.length_le_length_encodeBody _).trans hsize
    refine hu.message hwired hm ⟨hsorted, hfound, halone, hfields⟩ hinner (fun hform e he g hg json => ?_) hjson
    have hmem := List.mem_of_find?_eq_some hg
    exact ih e he g hg (hs.ordinary hm hform g hmem).1 (hwired.wired g hmem) rfl
      ((length_encodeField_le he hg).trans hinner)
/-- A message of at most `limit` bytes that shows a JSON value with `u` shows the same with `v`. -/
theorem UnpacksLess.message_of_holds (hu : schema.UnpacksLess limit u v) (hs : schema.IsCompiled)
    (hm : schema.message? type.name = some type) (h : type.Holds schema values)
    (hsize : (schema.encode type values).length ≤ limit) {json : Json}
    (hjson : schema.valueToJson? u (.message type.name) (.message values) = some json) :
    schema.valueToJson? v (.message type.name) (.message values) = some json := by
  have hw := hs.types _ type hm
  refine hu.message hw hm h hsize (fun hform e he f hf json => ?_) hjson
  have hmem := List.mem_of_find?_eq_some hf
  exact hu.value hs (h.fields e he f hf) (hs.ordinary hm hform f hmem).1 (hw.wired f hmem) rfl
    ((length_encodeField_le he hf).trans hsize)

end Schema

/-! ## What an `Any` holds -/

namespace SpecialForm

/-- A text or bytes in an `Any` are shorter than its bytes, unless they are empty and the field is left out. -/
theorem length_lt_length_encode_any {laidOut : FieldValues} {number : Nat} {own : Value}
    (hmem : (number, own) ∈ laidOut) {f : MessageField} (hf : any.layout.field? number = some f) {kind : Scalar}
    (hk : f.type.scalar? = some kind) (hown : own.isScalar = true) (homits : f.omits own = false) {body : Bytes}
    (hbody : kind.encode own = lengthPrefixed body) :
    body.length < (layouts.encode any.layout laidOut).length := by
  have hle := @length_encodeField_le layouts _ _ _ _ hmem hf
  have hprefixed := length_lt_lengthPrefixed body
  rw [encodeField_scalar hk hown, homits, if_neg Bool.false_ne_true, List.length_append, hbody] at hle
  omega

/-- A packed message whose address is not empty is shorter than the bytes of its `Any`. -/
theorem length_bytesAt_lt {laidOut : FieldValues} (hne : textAt laidOut 1 ≠ "") :
    (bytesAt laidOut 2).length < (layouts.encode any.layout laidOut).length := by
  have haddress : 0 < (layouts.encode any.layout laidOut).length := by
    unfold textAt at hne
    split at hne
    · rename_i address hget
      exact Nat.zero_lt_of_lt (length_lt_length_encode_any (FieldValues.mem_of_get?_eq_some hget)
        (f := scalarField "type_url" 1 .string) rfl rfl rfl (beq_eq_false_iff_ne.mpr (Ne.symm hne)) rfl)
    · exact absurd rfl hne
  unfold bytesAt
  split
  · rename_i bytes hget
    by_cases hempty : bytes = []
    · exact hempty ▸ haddress
    · exact length_lt_length_encode_any (FieldValues.mem_of_get?_eq_some hget)
        (f := scalarField "value" 2 .bytes) rfl rfl rfl (beq_eq_false_iff_ne.mpr (Ne.symm hempty)) rfl
  · exact haddress

end SpecialForm

namespace Schema

variable {schema : Schema} {type : MessageType} {values : FieldValues}

/-- Unpacks as `unpackAny?` does, but only messages of fewer than `limit` bytes. -/
def unpackWithin (schema : Schema) (limit : Nat) : Unpack := fun address bytes =>
  if bytes.length < limit then schema.unpackAny? address bytes else none

/-- The members that stand for a message in an `Any`, whose own form is `json`: `json` under `value` for a
special form, and the members of the object `json` otherwise. -/
def membersInAny? (name : String) (json : Json) : Option (List (String × Json)) :=
  if (SpecialForm.ofTypeName? name).isSome then some [(anyValueKey, json)]
  else
    match json with
    | .obj members => some members
    | _ => none

/-- A message in an `Any` is decoded as the type at its address, shown with `unpackWithin` its own length, and
put in as `membersInAny?` says. -/
theorem unpackAny?_eq (schema : Schema) (address : String) (bytes : Bytes) :
    schema.unpackAny? address bytes =
      ((nameInTypeAddress? address).bind schema.lookup?).bind fun payload =>
        (schema.decode? payload bytes).bind fun inner =>
          (schema.valueToJson? (schema.unpackWithin bytes.length) (.message payload.name)
            (.message inner)).bind (membersInAny? payload.name) := by
  rw [unpackAny?]
  rfl

/-- Nothing is unpacked under the empty address. -/
theorem unpackAny?_empty (bytes : Bytes) : schema.unpackAny? "" bytes = none := by
  rw [unpackAny?_eq]
  rfl

/-- What `unpackWithin` unpacks `unpackAny?` unpacks. -/
theorem unpacksLess_unpackWithin (schema : Schema) (limit size : Nat) :
    schema.UnpacksLess limit (schema.unpackWithin size) schema.unpackAny? := by
  intro type values laidOut members _ _ _ _ _ h
  exact (Option.ite_none_right_eq_some.mp h).2

/-- A message of type `Any` has the bytes of the fields in the layout that `load?` loads it as. -/
theorem IsCompiled.encode_eq_of_load?_any (hs : schema.IsCompiled) (hm : schema.message? type.name = some type)
    (hform : SpecialForm.ofTypeName? type.name = some .any) (h : type.Holds schema values)
    (hlength : (schema.encode type values).length < 2 ^ 64) {laidOut : FieldValues}
    (hload : SpecialForm.any.load? schema type values = some laidOut) :
    schema.encode type values = SpecialForm.layouts.encode SpecialForm.any.layout laidOut := by
  have hl := hs.isAlike hm hform rfl
  have hflat : SpecialForm.any.layout.IsFlat := SpecialForm.isFlat_layout rfl
  have hsame : schema.encode type values = SpecialForm.layouts.encode SpecialForm.any.layout values :=
    encode_eq_of_isAlike (hs.plain _ type hm) SpecialForm.any.isPlain_layout (hl.isFlat hflat) hl h
  have hlaid : SpecialForm.any.layout.Holds SpecialForm.layouts values := hl.symm.holds hflat h
  have hdepth : FieldValues.nesting values ≤ maxNesting := hlaid.nesting_eq_zero hflat ▸ Nat.zero_le _
  rw [SpecialForm.load?, hsame, SpecialForm.isWired_layouts.decode?_encode SpecialForm.any.isWired_layout hlaid
    hdepth (hsame ▸ hlength), Option.some.injEq] at hload
  rw [hsame, ← hload, encode_kept]

/-- What `unpackAny?` unpacks of an `Any` of at most `limit` bytes, a limit below `2 ^ 64`, `unpackWithin limit`
unpacks. -/
theorem IsCompiled.unpacksLess_unpackAny? (hs : schema.IsCompiled) {limit : Nat} (hlimit : limit < 2 ^ 64) :
    schema.UnpacksLess limit schema.unpackAny? (schema.unpackWithin limit) := by
  intro type values laidOut members hm hform h hsize hload hunpack
  have hbytes := hs.encode_eq_of_load?_any hm hform h (hsize.trans_lt hlimit) hload
  have hne : SpecialForm.textAt laidOut 1 ≠ "" := by
    intro heq
    rw [heq, unpackAny?_empty] at hunpack
    cases hunpack
  have hlt := SpecialForm.length_bytesAt_lt hne
  rw [← hbytes] at hlt
  rw [unpackWithin, if_pos (hlt.trans_le hsize), hunpack]

/-! ## What comes back -/

/-- A message that an object is read back as takes at most 64 bytes for each unit of the size of the object. -/
theorem ReadsBack.length_encode_le {g : Binary64 → Binary64} {levels : Nat}
    (hm : schema.message? type.name = some type) {json : Json}
    (h : schema.ReadsBack g levels .single (.message type.name) json (.message values)) :
    (schema.encode type values).length ≤ 64 * json.size := by
  -- A field for the message alone.
  let f : MessageField :=
    { name := "", jsonName := "", number := 1, type := .message type.name, presence := true
      default := .message [] }
  have hf : f.IsPlain := ⟨Nat.one_pos, show 1 < 2 ^ 29 by decide, rfl, rfl, rfl, rfl, fun h => absurd rfl h⟩
  have hlength := h.length f hf.isWired rfl
  rw [encodeField_message type (f.omits_message values) hm] at hlength
  exact (f.length_le_length_encodeBody _).trans hlength

/-- The members `packed` of an `Any` stand for a message of type `payload` with the form `json` at `address`:
the address is among them, they are larger than it and `json` by 7 at least, and whatever message `json` is read
as, `payloadFields?` reads from them. -/
structure IsPacked (schema : Schema) (payload : MessageType) (json : Json) (address : String)
    (packed : Entries Json) : Prop where
  addressed : Entries.get? packed anyTypeKey = some (.str address)
  size : address.length + json.size + 7 ≤ (Json.obj packed).size
  reads : ∀ values, schema.valueOfJson? true .single (.message payload.name) json = some (.message values) →
    schema.payloadFields? true payload packed = some values

/-- A special form is packed under `value`, next to the address. -/
theorem isPacked_form {payload : MessageType} {form : SpecialForm}
    (hform : SpecialForm.ofTypeName? payload.name = some form) (json : Json) (address : String) :
    schema.IsPacked payload json address [(anyTypeKey, .str address), (anyValueKey, json)] := by
  refine ⟨rfl, ?_, fun values hread => ?_⟩
  · have haddress : anyTypeKey.length = 5 := by decide
    have hvalue : anyValueKey.length = 5 := by decide
    simp only [Json.size, Json.sizeOfMembers, haddress, hvalue]
    omega
  · have hother : ¬ anyTypeKey = anyValueKey := by decide
    simp only [payloadFields?, hform, Option.isSome_some, if_true]
    rw [payloadOfJson?, if_neg hother, payloadOfJson?, if_pos rfl, hread]
    rfl

/-- The members of an ordinary message are packed with the address put in, if none of them has its key. -/
theorem isPacked_insert {payload : MessageType} (hm : schema.message? payload.name = some payload)
    (hform : SpecialForm.ofTypeName? payload.name = none) {own : Entries Json} (hsorted : Assoc.IsSorted own)
    (hnew : anyTypeKey ∉ own.map Prod.fst) (address : String) :
    schema.IsPacked payload (.obj own) address (Assoc.insert own anyTypeKey (.str address)) := by
  refine ⟨?_, ?_, fun values hread => ?_⟩
  · rw [Entries.get?_eq, Assoc.get?_insert, if_pos rfl]
  · have hperm := ((Assoc.insert_perm hnew (.str address)).map fun m => m.1.length + 1 + m.2.size).sum_eq
    have haddress : anyTypeKey.length = 5 := by decide
    rw [List.map_cons, List.sum_cons, ← Json.sizeOfMembers_eq, ← Json.sizeOfMembers_eq, haddress, Json.size]
      at hperm
    rw [Json.size, Json.size]
    omega
  · have hkept : own.filter (fun m => m.1 != anyTypeKey) = own :=
      List.filter_eq_self.mpr fun m hm' => bne_iff_ne.mpr fun heq =>
        hnew (heq ▸ List.mem_map_of_mem hm')
    have hfilter := hsorted.filter_insert (fun key => key != anyTypeKey) anyTypeKey (.str address)
    rw [bne_self_eq_false, if_neg Bool.false_ne_true, hkept] at hfilter
    simp only [payloadFields?, hform, Option.isSome_none, Bool.false_eq_true, if_false]
    rw [fieldsOfJson?_inAny, hfilter]
    rw [valueOfJson?_ordinary hm hform] at hread
    obtain ⟨fields, hfields, heq⟩ := Option.map_eq_some_iff.mp hread
    cases heq
    exact hfields

/-- The members that `membersInAny?` gives of a message that has been shown are packed with the address put
in. -/
theorem IsCompiled.exists_packed (hs : schema.IsCompiled) {payload : MessageType}
    (hm : schema.message? payload.name = some payload) {json : Json} {inner : FieldValues} {u : Unpack}
    (hinner : payload.Holds schema inner)
    (hjson : schema.valueToJson? u (.message payload.name) (.message inner) = some json)
    {members : List (String × Json)} (hmembers : membersInAny? payload.name json = some members)
    (address : String) :
    ∃ packed : Entries Json, Json.ofMembers ((anyTypeKey, .str address) :: members) = .obj packed ∧
      schema.IsPacked payload json address packed := by
  unfold membersInAny? at hmembers
  cases hform : SpecialForm.ofTypeName? payload.name with
  | some form =>
    rw [hform, Option.isSome_some, if_pos rfl, Option.some.injEq] at hmembers
    subst hmembers
    exact ⟨_, Json.ofMembers_of_isSorted (show [anyTypeKey, anyValueKey].Pairwise (· < ·) by decide),
      isPacked_form hform json address⟩
  | none =>
    rw [hform, Option.isSome_none, if_neg Bool.false_ne_true] at hmembers
    have ht : payload.IsOrdinary schema := ⟨(hs.types _ payload hm).toIsLinked, hm, hform⟩
    obtain ⟨own, rfl, hsorted, hdeclared, -⟩ := ht.exists_members hinner.sorted hinner.found hjson
    obtain rfl : own = members := Option.some.inj hmembers
    have hnew : anyTypeKey ∉ own.map Prod.fst := by
      intro hmem
      obtain ⟨m, hm', heq⟩ := List.mem_map.mp hmem
      obtain ⟨f, hf, hkey⟩ := hdeclared m hm'
      exact hs.jsonName_ne hm hf (hkey.trans heq)
    have hinsert := hsorted.insert anyTypeKey (.str address)
    refine ⟨_, congrArg Json.obj (Entries.ofList_eq_of_mem_iff hinsert fun key value => ?_),
      isPacked_insert hm hform hsorted hnew address⟩
    rw [← (Assoc.insert_perm hnew _).mem_iff]
    exact ⟨fun hmem => Entries.get?_eq_some_of_mem hinsert hmem, Entries.mem_of_get?_eq_some⟩

/-- Two forms of a message that are the same up to `g` give the same members in an `Any` up to `g`. -/
theorem map_membersInAny? {g : Binary64 → Binary64} (name : String) {json other : Json}
    (h : json.mapFloats g = other.mapFloats g) :
    (membersInAny? name json).map (List.map (Prod.map id (Json.mapFloats g))) =
      (membersInAny? name other).map (List.map (Prod.map id (Json.mapFloats g))) := by
  have hmap : ∀ json : Json, (membersInAny? name json).map (List.map (Prod.map id (Json.mapFloats g))) =
      membersInAny? name (json.mapFloats g) := by
    intro json
    unfold membersInAny?
    cases (SpecialForm.ofTypeName? name).isSome with
    | true => rfl
    | false => cases json <;> simp [Json.mapFloats, Json.mapFloatsOfMembers_eq]
  rw [hmap, hmap, h]

/-- A message that its form is read back as is unpacked from its bytes with the same members up to `g`. -/
theorem ReadsBack.exists_unpackAny? (hs : schema.IsCompiled) {g : Binary64 → Binary64}
    (hzero : g Binary64.zero.neg = g Binary64.zero) {payload : MessageType}
    (hm : schema.message? payload.name = some payload) {address : String}
    (haddress : (nameInTypeAddress? address).bind schema.lookup? = some payload) {json : Json}
    (h : schema.ReadsBack g (maxNesting + 1) .single (.message payload.name) json (.message values))
    (hsize : json.size < 2 ^ 56) {members : List (String × Json)}
    (hmembers : membersInAny? payload.name json = some members) :
    ∃ again, schema.unpackAny? address (schema.encode payload values) = some again ∧
      again.map (Prod.map id (Json.mapFloats g)) = members.map (Prod.map id (Json.mapFloats g)) := by
  have hw := hs.types _ payload hm
  have hvalue := holds_of_valueOfJson? hs.toIsTyped json (admits_message hm) h.reads
  have hown : payload.Holds schema values := (hvalue.of_message hm).2
  have hlength : (schema.encode payload values).length < 2 ^ 64 := by
    have := h.length_encode_le hm
    omega
  have hdepth : FieldValues.nesting values ≤ maxNesting := Nat.le_of_succ_le_succ h.nesting
  have hdecode := hs.types.decode?_encode hw hown hdepth hlength
  -- What the message shows, it shows with what is unpacked from fewer bytes.
  obtain ⟨shown, hshown, hsame⟩ := Option.map_eq_some_iff.mp h.shows
  have hless := hs.unpacksLess_unpackAny? hlength
  have hwithin := hless.message_of_holds hs hm hown (Nat.le_refl _) hshown
  have hkept := hvalue.map_valueToJson?_keptValue hs.toIsPlain
    (schema.unpackWithin (schema.encode payload values).length) (by intro h; cases h) (.inl hzero)
  rw [keptValue_message hm, hwithin, Option.map_some, hsame] at hkept
  obtain ⟨again, hagain, hsame⟩ := Option.map_eq_some_iff.mp hkept
  have hmapped := map_membersInAny? payload.name hsame
  rw [hmembers, Option.map_some] at hmapped
  obtain ⟨unpacked, hunpacked, heq⟩ := Option.map_eq_some_iff.mp hmapped
  refine ⟨unpacked, ?_, heq⟩
  rw [unpackAny?_eq, haddress, Option.bind_some, hdecode, Option.bind_some, hagain, Option.bind_some, hunpacked]

/-- What is kept of an `Any` in its layout has the address under number 1 and the bytes under number 2. -/
theorem at_kept_any (address : String) (bytes : Bytes) :
    let kept := SpecialForm.layouts.kept SpecialForm.any.layout [(1, .string address), (2, .bytes bytes)]
    SpecialForm.textAt kept 1 = address ∧ SpecialForm.bytesAt kept 2 = bytes := by
  have hn : (([(1, .string address), (2, .bytes bytes)] : FieldValues).map Prod.fst).Nodup := by simp
  constructor
  · have hget : FieldValues.get? _ 1 = if "" == address then none else some (.string address) :=
      @get?_kept SpecialForm.layouts SpecialForm.any.layout _ hn 1
    rw [SpecialForm.textAt, hget]
    by_cases hempty : "" = address
    · rw [if_pos (beq_iff_eq.mpr hempty)]
      exact hempty
    · rw [beq_false_of_ne hempty]
      rfl
  · have hget : FieldValues.get? _ 2 = if [] == bytes then none else some (.bytes bytes) :=
      @get?_kept SpecialForm.layouts SpecialForm.any.layout _ hn 2
    rw [SpecialForm.bytesAt, hget]
    by_cases hempty : [] = bytes
    · rw [if_pos (beq_iff_eq.mpr hempty)]
      exact hempty
    · rw [beq_false_of_ne hempty]
      rfl

/-- An `Any` takes at most 44 bytes more than its packed bytes and four for each character of its address. -/
theorem length_encode_any_le {address : String} {bytes : Bytes} (haddress : address.length + 1 < 2 ^ 56)
    (hbytes : bytes.length < 2 ^ 64) :
    (SpecialForm.layouts.encode SpecialForm.any.layout [(1, .string address), (2, .bytes bytes)]).length ≤
      4 * address.length + bytes.length + 44 := by
  have htext : (Scalar.string.encode (.string address)).length ≤ 4 * (address.length + 1) + 10 :=
    Scalar.length_encode_le ⟨address, rfl⟩ haddress
  have hprefixed : (Scalar.bytes.encode (.bytes bytes)).length ≤ bytes.length + 10 :=
    length_lengthPrefixed_le hbytes
  have hpair : (SpecialForm.layouts.encode SpecialForm.any.layout
      [(1, .string address), (2, .bytes bytes)]).length ≤
        (Scalar.string.encode (.string address)).length + (Scalar.bytes.encode (.bytes bytes)).length + 20 :=
    SpecialForm.length_encode_pair_le rfl rfl
  omega

/-- What an `Any` shows is read back, if what the message in its bytes shows is. -/
theorem IsCompiled.comesBack_any (hs : schema.IsCompiled) {g : Binary64 → Binary64}
    (hzero : g Binary64.zero.neg = g Binary64.zero) {levels : Nat} (hlevels : 0 < levels)
    (hm : schema.message? type.name = some type) (hform : SpecialForm.ofTypeName? type.name = some .any)
    {payload : MessageType} (hp : schema.message? payload.name = some payload) {address : String}
    (haddress : (nameInTypeAddress? address).bind schema.lookup? = some payload) {inner : FieldValues}
    (hinner : payload.Holds schema inner) {u : Unpack} {json : Json}
    (hjson : schema.valueToJson? u (.message payload.name) (.message inner) = some json)
    {members : List (String × Json)} (hmembers : membersInAny? payload.name json = some members)
    (hback : schema.ComesBack g (maxNesting + 1) .single (.message payload.name) json)
    (hsize : (Json.ofMembers ((anyTypeKey, .str address) :: members)).size < 2 ^ 56) :
    schema.ComesBack g levels .single (.message type.name)
      (.ofMembers ((anyTypeKey, .str address) :: members)) := by
  obtain ⟨value, hread⟩ := hback
  obtain ⟨values, rfl, -⟩ := exists_message_of_valueOfJson? hs.toIsTyped hp hread.reads
  obtain ⟨packed, hobject, hpacked⟩ := hs.exists_packed hp hinner hjson hmembers address
  rw [hobject] at hsize
  have hbytes := hread.length_encode_le hp
  have hpackedSize := hpacked.size
  obtain ⟨again, hagain, hsame⟩ := hread.exists_unpackAny? hs hzero hp haddress (by omega) hmembers
  generalize hpayload : schema.encode payload values = bytes at hbytes hagain
  have hlaid : SpecialForm.any.layout.Holds SpecialForm.layouts [(1, .string address), (2, .bytes bytes)] :=
    SpecialForm.holds_pair (show Scalar.string.Holds _ from ⟨address, rfl⟩)
      (show Scalar.bytes.Holds _ from ⟨bytes, rfl⟩)
  have hfew : (SpecialForm.layouts.encode SpecialForm.any.layout
      [(1, .string address), (2, .bytes bytes)]).length + 20 ≤ 64 * (Json.obj packed).size := by
    have := length_encode_any_le (show address.length + 1 < 2 ^ 56 by omega)
      (show bytes.length < 2 ^ 64 by omega)
    omega
  have hw := hs.types _ type hm
  have hl := hs.isAlike hm hform rfl
  obtain ⟨hown, hnesting, hencode⟩ := SpecialForm.same_of_isFlat (hs.plain _ type hm) hl
    (hl.isFlat (SpecialForm.isFlat_layout rfl)) hlaid
  have hlength : (schema.encode type [(1, .string address), (2, .bytes bytes)]).length < 2 ^ 64 := by
    rw [hencode]
    omega
  have hdepth : FieldValues.nesting [(1, .string address), (2, .bytes bytes)] ≤ maxNesting := by
    rw [hnesting]
    exact Nat.zero_le _
  have hstore := SpecialForm.store?_eq hs.types hw hown hdepth hlength hencode
  have hload := SpecialForm.load?_kept_eq hlaid hdepth hlength hencode
  obtain ⟨htext, hinside⟩ := at_kept_any address bytes
  refine ⟨.message (schema.kept type [(1, .string address), (2, .bytes bytes)]), ?_, ?_,
    fun f hwired hf => ?_, ?_⟩
  · rw [hobject, valueOfJson?_any hm hform, hpacked.addressed, Option.bind_some, Json.str?, Option.bind_some,
      hs.lookup?_address haddress, Option.bind_some, hpacked.reads values hread.reads, Option.bind_some, hpayload,
      hstore, Option.map_some]
  · have hkept := nesting_kept_le schema type [(1, .string address), (2, .bytes bytes)]
    rw [Value.nesting]
    omega
  · rw [hobject]
    refine length_encodeField_message_le hm hwired hf hsize ?_
    rw [encode_kept, hencode]
    exact hfew
  · rw [valueToJson?]
    simp only [ValueType.name, hm, hform, specialToJson?, hload, htext, hinside, hagain, Option.bind_eq_bind,
      Option.bind_some, Option.pure_def, Option.map_some, Json.mapFloats_ofMembers, List.map_cons, hsame]

end Schema

end Tagwire
