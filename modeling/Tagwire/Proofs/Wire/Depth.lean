import Tagwire.Proofs.Wire.Length
import Tagwire.Proofs.Wire.Passage

/-!
# What nests too deep is not read

The writer nests messages as deep as they are, the reader only so deep.  Of a message with more levels than the
reader has depth for, it reads the fields in front of the first one that is too deep, with the items or entries in
front of the first one of these; and there it stops.  So bytes that have been written are read exactly when what
they write nests no deeper than bytes may.
-/

set_option autoImplicit false

namespace Tagwire

/-- In a list that nests deeper than `depth` there is a first element that does. -/
theorem exists_first_deep {α : Type} {nesting : α → Nat} {l : List α} {depth levels : Nat}
    (hlevels : levels ≤ depth ↔ ∀ a ∈ l, nesting a ≤ depth) (h : depth < levels) :
    ∃ before a after, l = before ++ a :: after ∧ depth < nesting a ∧ ∀ b ∈ before, nesting b ≤ depth := by
  cases hfound : l.find? fun a => decide (depth < nesting a) with
  | none =>
    rw [List.find?_eq_none] at hfound
    refine absurd (hlevels.mpr fun a ha => ?_) (Nat.not_le_of_lt h)
    simpa using hfound a ha
  | some a =>
    obtain ⟨ha, before, after, rfl, hbefore⟩ := List.find?_eq_some_iff_append.mp hfound
    exact ⟨before, a, after, rfl, of_decide_eq_true ha, fun b hb => by simpa using hbefore b hb⟩

/-! ## Readers that stop -/

/-- Where fields are read up to a key behind which the field cannot be read, `readFields` fails. -/
theorem FieldsRead.readFields_eq_none {field : FieldReader} {tail bytes : Bytes} {values result : FieldValues}
    (h : FieldsRead field tail values bytes result) {key : WireKey} {rest : Bytes}
    (hkey : WireKey.decode? tail = some (key, rest)) (hopen : key.type ≠ .endGroup)
    (hfield : field key result rest = none) (group : Option Nat) (fuel : Nat) :
    readFields field group fuel values bytes = none := by
  have hpos : ∀ {bytes : Bytes} {key rest}, WireKey.decode? bytes = some (key, rest) →
      ∃ b more, bytes = b :: more := by
    intro bytes key rest hkey
    cases bytes with
    | nil => exact absurd (WireKey.length_lt_of_decode? hkey) (Nat.not_lt_zero _)
    | cons b more => exact ⟨b, more, rfl⟩
  induction h generalizing fuel with
  | done values =>
    obtain ⟨b, more, rfl⟩ := hpos hkey
    cases fuel with
    | zero => rfl
    | succ fuel =>
      rw [readFields_cons, hkey, Option.bind_some]
      dsimp only
      rw [if_neg fun hend => hopen hend.2, hfield, Option.bind_none]
  | step hown hopen' hread hmore _ ih =>
    cases fuel with
    | zero =>
      obtain ⟨b, more, rfl⟩ := hpos hown
      rfl
    | succ fuel =>
      rw [readFields_step hown (fun _ => hopen') hread]
      exact ih hfield fuel

namespace Schema

variable {schema : Schema} {nested : NestedReader} {depth : Nat} {type : MessageType} {f : MessageField}

/-- The bytes of the value in its field are a key and a body that `readValue` does not read, whatever stands
behind. -/
def Refuses (schema : Schema) (nested : NestedReader) (f : MessageField) (value : Value) : Prop :=
  ∃ wire body, schema.encodeField f value = f.key wire ++ body ∧ wire ≠ .endGroup ∧
    ∀ rest, schema.readValue nested f wire none (body ++ rest) = none

/-- Of each message that nests at least `depth` levels, `nestedReader depth` reads the bytes neither to their
end nor to the end of a group. -/
def RefusesNested (schema : Schema) (depth : Nat) : Prop :=
  ∀ target values, target.IsWired schema → target.Holds schema values → depth ≤ FieldValues.nesting values →
    (schema.encode target values).length < 2 ^ 64 →
    schema.nestedReader depth target none [] (schema.encode target values) = none ∧
      ∀ number, 0 < number → number < 2 ^ 29 → ∀ rest,
        schema.nestedReader depth target (some number) []
          (schema.encode target values ++ (WireKey.encode ⟨number, .endGroup⟩ ++ rest)) = none

/-- A single value that nests deeper than `depth` is refused. -/
theorem Holds.refuses (hs : schema.IsWired) (hr : schema.RefusesNested depth) (hw : f.IsWired) {value : Value}
    (h : schema.Holds .single f.type value) (hd : depth < value.nesting)
    (hlength : (schema.encodeField f value).length < 2 ^ 64) :
    Refuses schema (schema.nestedReader depth) f value := by
  generalize ht : f.type = type at h
  cases h with
  | scalar hk h =>
    rw [Value.nesting_of_isScalar (Scalar.isScalar_of_holds h)] at hd
    exact absurd hd (Nat.not_lt_zero _)
  | @message name target values hm hsorted hfound halone hfields =>
    have hname : f.type.name = name := by rw [ht]; rfl
    have hscalar : f.type.scalar? = none := by rw [ht]; rfl
    have hchunk := encodeField_message target (f.omits_message values) (hname ▸ hm)
    rw [hchunk, MessageField.encodeBody] at hlength
    rw [Value.nesting] at hd
    have hread := hr target values (hs name target hm) ⟨hsorted, hfound, halone, hfields⟩ (Nat.le_of_lt_succ hd)
    unfold Refuses
    rw [hchunk, MessageField.encodeBody]
    cases hg : f.grouped with
    | true =>
      rw [hg, if_pos rfl, List.length_append, List.length_append] at hlength
      refine ⟨.startGroup, schema.encode target values ++ f.key .endGroup, ?_, by decide, fun rest => ?_⟩
      · rw [if_pos rfl, List.append_assoc]
      · unfold readValue
        rw [hscalar]
        dsimp only
        rw [hname, hm, hg, List.append_assoc]
        simp only [Option.bind_eq_bind, Option.bind_some, if_true, MessageField.key,
          (hread (by omega)).2 f.number hw.pos hw.lt, Option.bind_none]
    | false =>
      have hbody := length_lt_lengthPrefixed (schema.encode target values)
      rw [hg, if_neg Bool.false_ne_true, List.length_append] at hlength
      refine ⟨.lengthDelimited, lengthPrefixed (schema.encode target values), ?_, by decide, fun rest => ?_⟩
      · rw [if_neg Bool.false_ne_true]
      · unfold readValue
        rw [hscalar]
        dsimp only
        rw [hname, hm, hg]
        simp only [Option.bind_eq_bind, Option.bind_some, Bool.false_eq_true, if_false, if_true,
          readLengthPrefixed?_append (show (schema.encode target values).length < 2 ^ 64 by omega),
          (hread (by omega)).1, Option.bind_none]

/-! ## Entries -/

section

variable {entryType : MessageType} {kind : Scalar} {keyField valueField : MessageField}

/-- An entry whose value is refused is not read by `readEntry`. -/
theorem readEntry_entryBody_eq_none (he : entryType.IsEntry kind keyField valueField)
    (hstart : valueField.StartsEmpty) {key : MapKey} (hholds : kind.Holds key.toValue) {value : Value}
    (h : Refuses schema nested valueField value)
    (hlength : (schema.entryBody keyField valueField (key, value)).length < 2 ^ 64) (fuel : Nat) :
    schema.readEntry nested depth keyField valueField fuel (keyField.default, valueField.default)
      (schema.entryBody keyField valueField (key, value)) = none := by
  have hvalueNumber : valueField.number = 2 := MessageType.number_of_field? he.value
  obtain ⟨wire, body, hchunk, -, hrefuses⟩ := h
  have hvalueKey : WireKey.decode? (schema.encodeField valueField value) = some (⟨2, wire⟩, body) := by
    have := WireKey.decode?_encode ⟨2, wire⟩ Nat.two_pos (show 2 < 2 ^ 29 by decide) body
    rwa [hchunk, MessageField.key, hvalueNumber]
  -- Whatever key has been read, the value behind it stops the reader.
  have hvalue : ∀ fuel own, schema.readEntry nested depth keyField valueField fuel (own, valueField.default)
      (schema.encodeField valueField value) = none := by
    intro fuel own
    cases fuel with
    | zero =>
      cases hbytes : schema.encodeField valueField value with
      | nil => exact absurd (hbytes ▸ WireKey.length_lt_of_decode? hvalueKey) (Nat.not_lt_zero _)
      | cons => rfl
    | succ fuel =>
      have hread := hrefuses []
      rw [List.append_nil] at hread
      rw [readEntry_step hvalueKey, if_neg (by simp), if_pos rfl, readValue_default hstart, hread, Option.bind_none]
  obtain ⟨-, hbody⟩ | ⟨hless, hstep⟩ := entryBody_cases he hholds hlength
  · rw [hbody]
    exact hvalue fuel _
  · cases fuel with
    | zero =>
      cases hbytes : schema.entryBody keyField valueField (key, value) with
      | nil => exact absurd (hbytes ▸ hless) (Nat.not_lt_zero _)
      | cons => rfl
    | succ fuel =>
      rw [hstep]
      exact hvalue fuel _

end

/-! ## Messages -/

/-- The bytes of fields behind others are those of both, one after the other. -/
theorem encode_append (a b : FieldValues) :
    schema.encode type (a ++ b) = schema.encode type a ++ schema.encode type b := by
  rw [encode_eq_flatMap, encode_eq_flatMap, encode_eq_flatMap, List.flatMap_append]

/-- The bytes of items behind others are those of both, one after the other. -/
theorem encodeItems_append (a b : List Value) :
    schema.encodeItems f (a ++ b) = schema.encodeItems f a ++ schema.encodeItems f b := by
  rw [encodeItems_eq_flatMap, encodeItems_eq_flatMap, encodeItems_eq_flatMap, List.flatMap_append]

/-- The bytes of entries behind others are those of both, one after the other. -/
theorem encodeEntries_append (keyField valueField : MessageField) (a b : List (MapKey × Value)) :
    schema.encodeEntries f (some keyField) (some valueField) (a ++ b) =
      schema.encodeEntries f (some keyField) (some valueField) a ++
        schema.encodeEntries f (some keyField) (some valueField) b := by
  induction a with
  | nil => rfl
  | cons e rest ih =>
    rw [List.cons_append, encodeEntries_cons, ih, encodeEntries_cons]
    simp only [List.append_assoc]

/-! ## Fields -/

/-- The bytes of the value in its field are those of `part`, if any, then a key, and then a body that
`readField` does not read. -/
def StopsBehind (schema : Schema) (depth : Nat) (type : MessageType) (f : MessageField) (value : Value)
    (part : Option Value) : Prop :=
  ∃ wire body, schema.encodeField f value = (part.map (schema.encodeField f)).getD [] ++ (f.key wire ++ body) ∧
    wire ≠ .endGroup ∧ ∀ values rest, (part = none → FieldValues.get? values f.number = none) →
      schema.readField (schema.nestedReader depth) depth type ⟨f.number, wire⟩ values (body ++ rest) = none

/-- The reader stops at the beginning of a single value that is refused. -/
theorem Refuses.stopsBehind_none {value : Value} (h : Refuses schema (schema.nestedReader depth) f value)
    (hf : type.Finds f) (hshape : f.shape = .single) : StopsBehind schema depth type f value none := by
  obtain ⟨wire, body, hchunk, hopen, hread⟩ := h
  refine ⟨wire, body, hchunk, hopen, fun values rest hnone => ?_⟩
  rw [readField_eq_of_field? hf.found, readOver, hshape, hnone rfl]
  dsimp only
  rw [hread, Option.map_none]

/-- A list in a field that is not packed is written with `encodeItems`. -/
theorem encodeField_list (hp : f.packed = false) (items : List Value) :
    schema.encodeField f (.list items) = schema.encodeItems f items := by
  rw [encodeField, hp]
  split
  · rename_i homits
    rw [MessageField.eq_nil_of_omits_list homits]
    rfl
  · rfl

/-- The reader stops in a list behind the items before one that is refused. -/
theorem Refuses.stopsBehind_list {item : Value} (h : Refuses schema (schema.nestedReader depth) f item)
    (hf : type.Finds f) (hshape : f.shape = .list) (hpackable : f.type.isPackable = false)
    (hpacked : f.packed = false) (before after : List Value) :
    StopsBehind schema depth type f (.list (before ++ item :: after)) (some (.list before)) := by
  obtain ⟨wire, body, hchunk, hopen, hread⟩ := h
  refine ⟨wire, body ++ schema.encodeItems f after, ?_, hopen, fun values rest _ => ?_⟩
  · rw [Option.map_some, Option.getD_some, encodeField_list hpacked, encodeField_list hpacked, encodeItems_append,
      encodeItems, hchunk, List.append_assoc]
  · have hitems : schema.readItems (schema.nestedReader depth) f wire (body ++ schema.encodeItems f after ++ rest) =
        none := by
      unfold readItems
      rw [hpackable, List.append_assoc]
      split
      · contradiction
      · rw [hread, Option.map_none]
    rw [readField_eq_of_field? hf.found, readOver, hshape]
    dsimp only
    rw [hitems, Option.map_none, Option.map_none]

/-- A map is written with `encodeEntries` for the two fields of its entries. -/
theorem encodeField_map {entryType : MessageType} {kind : Scalar} {keyField valueField : MessageField}
    (ht : schema.message? f.type.name = some entryType) (he : entryType.IsEntry kind keyField valueField)
    (entries : List (MapKey × Value)) : schema.encodeField f (.map entries) =
      schema.encodeEntries f (some keyField) (some valueField) entries := by
  rw [encodeField, ht]
  dsimp only
  rw [he.key, he.value]
  split
  · rename_i homits
    rw [MessageField.eq_nil_of_omits_map homits]
    rfl
  · rfl

/-- The reader stops in a map behind the entries before one whose value is refused. -/
theorem Refuses.stopsBehind_map {entryType : MessageType} {kind : Scalar} {keyField valueField : MessageField}
    {e : MapKey × Value} (h : Refuses schema (schema.nestedReader depth) valueField e.2) (hf : type.Finds f)
    (hshape : f.shape = .map) (ht : schema.message? f.type.name = some entryType)
    (he : entryType.IsEntry kind keyField valueField) (hstart : valueField.StartsEmpty)
    (hholds : kind.Holds e.1.toValue) (hlength : (schema.entryBody keyField valueField e).length < 2 ^ 64)
    (before after : List (MapKey × Value)) :
    StopsBehind schema depth type f (.map (before ++ e :: after)) (some (.map before)) := by
  refine ⟨.lengthDelimited, lengthPrefixed (schema.entryBody keyField valueField e) ++
    schema.encodeEntries f (some keyField) (some valueField) after, ?_, by decide, fun values rest _ => ?_⟩
  · rw [Option.map_some, Option.getD_some, encodeField_map ht he, encodeField_map ht he, encodeEntries_append,
      encodeEntries_cons, List.append_assoc]
  · have hentry : schema.readMapEntry (schema.nestedReader depth) depth f
        (lengthPrefixed (schema.entryBody keyField valueField e) ++
          schema.encodeEntries f (some keyField) (some valueField) after ++ rest) = none := by
      unfold readMapEntry
      simp only [ht, he.key, he.value, List.append_assoc, readLengthPrefixed?_append hlength, Option.bind_eq_bind,
        Option.bind_some, readEntry_entryBody_eq_none he hstart hholds h hlength, Option.bind_none]
    rw [readField_eq_of_field? hf.found, readOver, hshape]
    dsimp only
    rw [hentry, Option.map_none, Option.map_none]

end Schema

/-- Fields under some of the numbers of a message, each with a value of its shape and type, are a message of the
type. -/
theorem MessageType.Holds.of_sublist {schema : Schema} {type : MessageType} {values less : FieldValues}
    (h : type.Holds schema values) (hsub : (less.map Prod.fst).Sublist (values.map Prod.fst))
    (hfields : ∀ e ∈ less, ∀ f, type.field? e.1 = some f → schema.Holds f.shape f.type e.2) :
    type.Holds schema less := by
  have hmem : ∀ e ∈ less, ∃ own ∈ values, own.1 = e.1 := fun e he =>
    List.mem_map.mp (hsub.subset (List.mem_map_of_mem he))
  refine ⟨h.sorted.sublist hsub, fun e he => ?_, fun e he f hf number hrival hnumber => ?_, hfields⟩
  · obtain ⟨own, hown, heq⟩ := hmem e he
    exact heq ▸ h.found own hown
  · obtain ⟨own, hown, heq⟩ := hmem e he
    exact (h.alone own hown f (heq ▸ hf) number hrival (hsub.subset hnumber)).trans heq

/-- The fields of a message before one of them, and this with a part of its value, are a message of the type. -/
theorem MessageType.Holds.of_part {schema : Schema} {type : MessageType} {before after : FieldValues}
    {f : MessageField} {value : Value} (h : type.Holds schema (before ++ (f.number, value) :: after))
    (hf : type.field? f.number = some f) {part : Option Value}
    (hpart : ∀ v ∈ part, schema.Holds f.shape f.type v) :
    type.Holds schema (before ++ part.toList.map fun v => (f.number, v)) := by
  refine h.of_sublist ?_ fun e he g hg => ?_
  · rw [List.map_append, List.map_append, List.map_cons]
    refine (List.Sublist.refl _).append ?_
    cases part with
    | none => exact List.nil_sublist _
    | some v => exact (List.nil_sublist _).cons_cons _
  · rcases List.mem_append.mp he with he | he
    · exact h.fields e (List.mem_append_left _ he) g hg
    · obtain ⟨v, hv, rfl⟩ := List.mem_map.mp he
      rw [hf, Option.some.injEq] at hg
      exact hg ▸ hpart v (Option.mem_toList.mp hv)

namespace Schema

variable {schema : Schema} {depth : Nat} {type : MessageType}

/-- A value that nests at all is a message, whose type is not packable. -/
theorem Holds.isPackable_eq_false {type : ValueType} {value : Value} (h : schema.Holds .single type value)
    (hd : depth < value.nesting) : type.isPackable = false := by
  cases h with
  | scalar hk h =>
    rw [Value.nesting_of_isScalar (Scalar.isScalar_of_holds h)] at hd
    exact absurd hd (Nat.not_lt_zero _)
  | message => rfl

/-- The reader stops in a list one of whose items nests deeper than `depth`. -/
theorem exists_stopsBehind_list (hs : schema.IsWired) (hr : schema.RefusesNested depth) {f : MessageField}
    (hfinds : type.Finds f) (hfield : f.IsWired) (hshape : f.shape = .list) {items : List Value}
    (h : ∀ item ∈ items, schema.Holds .single f.type item) (hd : depth < (Value.list items).nesting)
    (hlength : (schema.encodeField f (.list items)).length < 2 ^ 64) :
    ∃ before, StopsBehind schema depth type f (.list items) (some (.list before)) ∧
      schema.Holds .list f.type (.list before) ∧ (Value.list before).nesting ≤ depth := by
  obtain ⟨before, item, after, rfl, hitem, hshallow⟩ := exists_first_deep Value.nestingOfItems_le_iff hd
  have hholds := h item (by simp)
  have hpackable := hholds.isPackable_eq_false hitem
  have hpacked : f.packed = false := by
    by_contra hpacked
    rw [(hfield.packed (by simpa using hpacked)).2] at hpackable
    cases hpackable
  rw [encodeField_list hpacked] at hlength
  have hmem : item ∈ before ++ item :: after := List.mem_append_right _ List.mem_cons_self
  have hle := @length_encodeField_le_encodeItems schema f _ _ hmem
  have hrefuses := hholds.refuses hs hr hfield hitem (by omega)
  refine ⟨before, hrefuses.stopsBehind_list hfinds hshape hpackable hpacked before after, ?_, ?_⟩
  · exact .list fun other hother => h other (List.mem_append_left _ hother)
  · rw [Value.nesting]
    exact Value.nestingOfItems_le_iff.mpr hshallow

/-- The reader stops in a map one of whose values nests deeper than `depth`. -/
theorem exists_stopsBehind_map (hs : schema.IsWired) (hr : schema.RefusesNested depth) {f : MessageField}
    (hfinds : type.Finds f) (hshape : f.shape = .map) {entries : List (MapKey × Value)}
    (h : schema.Holds .map f.type (.map entries)) (hd : depth < (Value.map entries).nesting)
    (hlength : (schema.encodeField f (.map entries)).length < 2 ^ 64) :
    ∃ before, StopsBehind schema depth type f (.map entries) (some (.map before)) ∧
      schema.Holds .map f.type (.map before) ∧ (Value.map before).nesting ≤ depth := by
  generalize htype : f.type = fieldType at h
  cases h with
  | @map name target kind keyField valueField entries hm he hn hkeys hvalues =>
    obtain ⟨before, e, after, rfl, hentry, hshallow⟩ := exists_first_deep Value.nestingOfEntries_le_iff hd
    have hname : schema.message? f.type.name = some target := by rw [htype]; exact hm
    have hvalueField := (hs name target hm).wired valueField (List.mem_of_find?_eq_some he.value)
    rw [encodeField_map hname he, encodeEntries_append, encodeEntries_cons] at hlength
    simp only [List.length_append] at hlength
    have hbody := length_lt_lengthPrefixed (schema.entryBody keyField valueField e)
    have hle : (schema.encodeField valueField e.2).length ≤ (schema.entryBody keyField valueField e).length := by
      rw [entryBody, List.length_append]
      exact Nat.le_add_left _ _
    have hrefuses := (hvalues e (by simp)).refuses hs hr hvalueField hentry (by omega)
    refine ⟨before, hrefuses.stopsBehind_map hfinds hshape hname he (he.startsEmpty (hs name target hm))
      (hkeys e (by simp)) (by omega) before after, ?_, ?_⟩
    · rw [List.map_append] at hn
      exact .map hm he hn.of_append_left (fun other hother => hkeys other (List.mem_append_left _ hother))
        fun other hother => hvalues other (List.mem_append_left _ hother)
    · rw [Value.nesting]
      exact Value.nestingOfEntries_le_iff.mpr hshallow

/-- The reader stops in a field whose value nests deeper than `depth`. -/
theorem Holds.exists_stopsBehind (hs : schema.IsWired) (hr : schema.RefusesNested depth) (hw : type.IsWired schema)
    {f : MessageField} (hf : type.field? f.number = some f) {value : Value} (h : schema.Holds f.shape f.type value)
    (hd : depth < value.nesting) (hlength : (schema.encodeField f value).length < 2 ^ 64) :
    ∃ part, StopsBehind schema depth type f value part ∧
      ∀ v ∈ part, schema.Holds f.shape f.type v ∧ v.nesting ≤ depth := by
  have hfield := hw.wired f (List.mem_of_find?_eq_some hf)
  have hfinds := (hw.finds hf).1
  cases hshape : f.shape with
  | single =>
    rw [hshape] at h
    exact ⟨none, (h.refuses hs hr hfield hd hlength).stopsBehind_none hfinds hshape, by intro v hv; cases hv⟩
  | list =>
    rw [hshape] at h
    cases h with
    | list hitems =>
      obtain ⟨before, hstops, hbefore⟩ := exists_stopsBehind_list hs hr hfinds hfield hshape hitems hd hlength
      exact ⟨some (.list before), hstops, by rintro _ ⟨⟩; exact hbefore⟩
  | map =>
    rw [hshape] at h
    obtain ⟨entries, rfl⟩ : ∃ entries, value = .map entries := by
      generalize f.type = fieldType at h
      cases h with
      | map => exact ⟨_, rfl⟩
    obtain ⟨before, hstops, hbefore⟩ := exists_stopsBehind_map hs hr hfinds hshape h hd hlength
    exact ⟨some (.map before), hstops, by rintro _ ⟨⟩; exact hbefore⟩

/-- The reader fails on the bytes of a message that nests deeper than `depth`. -/
theorem RefusesNested.readFields_eq_none (hr : schema.RefusesNested depth) (hs : schema.IsWired)
    (hw : type.IsWired schema) {values : FieldValues} (h : type.Holds schema values)
    (hd : depth < FieldValues.nesting values) (hlength : (schema.encode type values).length < 2 ^ 64)
    (group : Option Nat) (tail : Bytes) (fuel : Nat) :
    readFields (schema.readField (schema.nestedReader depth) depth type) group fuel []
      (schema.encode type values ++ tail) = none := by
  obtain ⟨before, ⟨number, value⟩, after, rfl, hvalue, hshallow⟩ := exists_first_deep FieldValues.nesting_le_iff hd
  obtain ⟨f, hf⟩ := Option.isSome_iff_exists.mp (h.found (number, value) (by simp))
  have hholds : schema.Holds f.shape f.type value := h.fields (number, value) (by simp) f hf
  replace hvalue : depth < value.nesting := hvalue
  obtain ⟨hfinds, rfl⟩ := hw.finds hf
  have hbytes : schema.encode type (before ++ (f.number, value) :: after) =
      schema.encode type before ++ (schema.encodeField f value ++ schema.encode type after) := by
    rw [encode_append, encode, hf]
  rw [hbytes, List.length_append, List.length_append] at hlength
  obtain ⟨part, ⟨wire, body, hchunk, hopen, hread⟩, hpart⟩ :=
    hholds.exists_stopsBehind hs hr hw hf hvalue (by omega)
  -- What is read in front of the key where the reader stops.
  let read := before ++ part.toList.map fun v => (f.number, v)
  have hreadBytes : schema.encode type read =
      schema.encode type before ++ (part.map (schema.encodeField f)).getD [] := by
    rw [encode_append]
    cases part with
    | none => rfl
    | some v => rw [Option.toList_some, List.map_singleton, encode_singleton hf]; rfl
  have hreadHolds : type.Holds schema read := h.of_part hf fun v hv => (hpart v hv).1
  have hreadNesting : FieldValues.nesting read ≤ depth := by
    refine FieldValues.nesting_le_iff.mpr fun e he => ?_
    rcases List.mem_append.mp he with he | he
    · exact hshallow e he
    · obtain ⟨v, hv, rfl⟩ := List.mem_map.mp he
      exact (hpart v (Option.mem_toList.mp hv)).2
  have hreadLength : (schema.encode type read).length < 2 ^ 64 := by
    rw [hchunk, List.length_append] at hlength
    rw [hreadBytes, List.length_append]
    omega
  have hnew : part = none → FieldValues.get? (schema.kept type read) f.number = none := by
    rintro rfl
    have hnodup := h.sorted.nodup
    rw [List.map_append, List.map_cons] at hnodup
    rw [FieldValues.get?_eq, Assoc.get?_eq_none_iff]
    intro hmem
    have hbefore := (keys_kept_sublist type read).subset hmem
    rw [List.map_append, Option.toList_none, List.map_nil, List.map_nil, List.append_nil] at hbefore
    exact (List.disjoint_of_nodup_append hnodup) hbefore List.mem_cons_self
  have hstop := ((hs.readsNested depth).fieldsRead hs hw hreadHolds hreadNesting hreadLength
    (f.key wire ++ (body ++ (schema.encode type after ++ tail)))).readFields_eq_none
      (hfinds.decode?_key wire _) hopen (hread _ _ hnew) group fuel
  rw [hreadBytes] at hstop
  rw [hbytes, hchunk]
  simpa only [List.append_assoc] using hstop

/-- A wired schema refuses nested messages at each depth. -/
theorem IsWired.refusesNested (hs : schema.IsWired) (depth : Nat) : schema.RefusesNested depth := by
  induction depth with
  | zero => exact fun _ _ _ _ _ _ => ⟨rfl, fun _ _ _ _ => rfl⟩
  | succ depth ih =>
    intro target values hw h hd hlength
    have hstop := ih.readFields_eq_none hs hw h hd hlength
    refine ⟨?_, fun number _ _ rest => ?_⟩
    · have hnone := hstop none [] (schema.encode target values).length
      rw [List.append_nil] at hnone
      rw [nestedReader, readMessage_eq, hnone]
    · rw [nestedReader, readMessage_eq, hstop]

/-- The bytes of a message are decoded exactly if it nests at most `maxNesting` levels, and then to what `kept`
leaves of it. -/
theorem IsWired.decode?_encode_eq (hs : schema.IsWired) (hw : type.IsWired schema) {values : FieldValues}
    (h : type.Holds schema values) (hlength : (schema.encode type values).length < 2 ^ 64) :
    schema.decode? type (schema.encode type values) =
      if FieldValues.nesting values ≤ maxNesting then some (schema.kept type values) else none := by
  split
  · rename_i hd
    exact hs.decode?_encode hw h hd hlength
  · rename_i hd
    have hnone := ((hs.refusesNested (maxNesting + 1)) type values hw h (Nat.lt_of_not_le hd) hlength).1
    rw [nestedReader] at hnone
    rw [decode?, hnone, Option.map_none]

end Schema

end Tagwire
