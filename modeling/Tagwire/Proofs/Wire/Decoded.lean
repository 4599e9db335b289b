import Tagwire.Proofs.Wire.Typing

/-!
# What is read is of its type

Whatever bytes a message is read from, its fields are those of its type, and it nests hardly deeper than the
reader had depth for: only the entry of a map that comes without its value has an empty message for it, which
takes a level that was not read.  Every field that is read keeps both, so that the loop over the fields does,
and with it the reader of the next depth.
-/

set_option autoImplicit false

namespace Tagwire

namespace MessageType

variable {schema : Schema} {type : MessageType} {f : MessageField} {values : FieldValues}

/-- The message without fields is of every type. -/
theorem holds_nil (type : MessageType) (schema : Schema) : type.Holds schema [] :=
  ⟨.nil, by simp, by simp, by simp⟩

/-- If the number of `f` is among the `rivals` of `g`, that of `g` is among those of `f`. -/
theorem mem_rivals_comm (hl : type.IsLinked) {g : MessageField} (hf : f ∈ type.fields)
    (hg : g ∈ type.fields) (h : f.number ∈ type.rivals g) : g.number ∈ type.rivals f := by
  unfold rivals at h ⊢
  cases hone : g.oneof with
  | none =>
    rw [hone] at h
    cases h
  | some name =>
    rw [hone] at h
    obtain ⟨f', hf', hnumber⟩ := List.mem_map.mp h
    obtain ⟨hmem, hname⟩ := List.mem_filter.mp hf'
    obtain rfl := List.inj_on_of_nodup_map hl.numbers hmem hf hnumber
    rw [beq_iff_eq.mp hname]
    exact List.mem_map_of_mem (List.mem_filter.mpr ⟨hg, by rw [hone]; simp⟩)

/-- A message stays one of its type when `setField` sets a field to a value of its shape and type. -/
theorem Holds.setField (h : type.Holds schema values) (hl : type.IsLinked)
    (hf : type.field? f.number = some f) {value : Value} (hv : schema.Holds f.shape f.type value) :
    type.Holds schema (type.setField f value values) := by
  have hmem := List.mem_of_find?_eq_some hf
  -- What is left beside the field that is set are fields of other oneofs.
  have hof : ∀ e ∈ type.setField f value values, e = (f.number, value) ∨
      e ∈ values ∧ (e.1 ∈ type.rivals f → e.1 = f.number) := by
    intro e he
    rw [MessageType.setField, FieldValues.set_eq] at he
    refine (Assoc.mem_of_mem_insert he).imp_right fun he => ?_
    rw [List.mem_filter, Bool.not_eq_true', ← Bool.not_eq_true, List.contains_iff_mem, List.mem_filter] at he
    refine ⟨he.1, fun hrival => ?_⟩
    by_contra hne
    exact he.2 ⟨hrival, by simpa using hne⟩
  constructor
  · rw [MessageType.setField, FieldValues.set_eq]
    exact (h.sorted.filter _).insert _ _
  · intro e he
    rcases hof e he with rfl | ⟨he, -⟩
    · rw [hf]
      rfl
    · exact h.found e he
  · intro e he g hg number hrival hnumber
    obtain ⟨e', he', rfl⟩ := List.mem_map.mp hnumber
    have hgmem := List.mem_of_find?_eq_some hg
    have hgnumber : g.number = e.1 := MessageType.number_of_field? hg
    rcases hof e' he' with rfl | ⟨hin', hrivals'⟩
    · have hback := mem_rivals_comm hl hmem hgmem hrival
      rcases hof e he with rfl | ⟨-, hrivals⟩
      · rfl
      · exact (hrivals (hgnumber ▸ hback)).symm
    · rcases hof e he with rfl | ⟨hin, -⟩
      · rw [hf, Option.some.injEq] at hg
        exact hrivals' (hg ▸ hrival)
      · exact h.alone e hin g hg e'.1 hrival (List.mem_map_of_mem hin')
  · intro e he g hg
    rcases hof e he with rfl | ⟨he, -⟩
    · rw [hf, Option.some.injEq] at hg
      exact hg ▸ hv
    · exact h.fields e he g hg

/-- A field that is set to a value within `levels` keeps a message within `levels`. -/
theorem nesting_setField_le {levels : Nat} (h : FieldValues.nesting values ≤ levels) {value : Value}
    (hv : value.nesting ≤ levels) : FieldValues.nesting (type.setField f value values) ≤ levels := by
  rw [FieldValues.nesting_le_iff] at h ⊢
  intro e he
  rw [setField, FieldValues.set_eq] at he
  rcases Assoc.mem_of_mem_insert he with rfl | he
  · exact hv
  · exact h e (List.mem_filter.mp he).1

end MessageType

namespace Schema

/-! ## Single values -/

/-- The value is of this shape and type and nests at most `levels` deep. -/
def HoldsWithin (schema : Schema) (levels : Nat) (shape : FieldShape) (type : ValueType)
    (value : Value) : Prop :=
  schema.Holds shape type value ∧ value.nesting ≤ levels

/-- The fields are a message of the type and nest at most `levels` deep. -/
def HoldsFields (schema : Schema) (levels : Nat) (type : MessageType) (values : FieldValues) : Prop :=
  type.Holds schema values ∧ FieldValues.nesting values ≤ levels

/-- A message within a message that `nestedReader depth` reads is of its type and nests fewer than
`depth + extra` levels, if what it is read over does. -/
def KeepsNested (schema : Schema) (extra depth : Nat) : Prop :=
  ∀ name target group values bytes result rest, schema.message? name = some target →
    target.Holds schema values → FieldValues.nesting values < depth + extra →
    schema.nestedReader depth target group values bytes = some (result, rest) →
    target.Holds schema result ∧ FieldValues.nesting result < depth + extra

/-- Either `extra` is positive or the type has no maps.  A map entry without a value has the default, which may
be a message and then takes a level that nothing was read for. -/
def HasRoom (extra : Nat) (type : MessageType) : Prop :=
  0 < extra ∨ ∀ f ∈ type.fields, f.shape ≠ .map

variable {schema : Schema} {extra depth levels : Nat} {type : MessageType} {f : MessageField}

/-- A scalar is within any number of levels. -/
theorem holdsWithin_of_scalar {type : ValueType} {kind : Scalar} (hk : type.scalar? = some kind)
    {value : Value} (h : kind.Holds value) : schema.HoldsWithin (depth + extra) .single type value := by
  refine ⟨.scalar hk h, ?_⟩
  rw [Value.nesting_of_isScalar (Scalar.isScalar_of_holds h)]
  exact Nat.zero_le _

/-- The message that a field holds so far, or the empty one, is of its type and nests fewer than `depth + extra`
levels. -/
theorem holdsWithin_sofar {name : String} {target : MessageType} (hm : schema.message? name = some target)
    (htype : f.type = .message name) {current : Option Value}
    (hc : ∀ value, current = some value → schema.HoldsWithin (depth + extra) .single f.type value)
    {values : FieldValues} (hvalues : current = some (.message values) ∨ values = []) (hpos : 0 < depth) :
    target.Holds schema values ∧ FieldValues.nesting values < depth + extra := by
  rcases hvalues with hcurrent | rfl
  · obtain ⟨hbefore, hnesting⟩ := hc _ hcurrent
    rw [htype, holds_message_iff] at hbefore
    obtain ⟨found, fields, hfound, heq, hbefore⟩ := hbefore
    obtain rfl := Option.some.inj (hm.symm.trans hfound)
    cases heq
    rw [Value.nesting] at hnesting
    exact ⟨hbefore, hnesting⟩
  · exact ⟨target.holds_nil schema, Nat.add_pos_left hpos extra⟩

/-- A message that `nestedReader` reads for a field is of its type, within `depth + extra`. -/
theorem holdsWithin_of_nestedReader (hk : schema.KeepsNested extra depth) {name : String} {target : MessageType}
    (hm : schema.message? name = some target) (htype : f.type = .message name) {current : Option Value}
    (hc : ∀ value, current = some value → schema.HoldsWithin (depth + extra) .single f.type value)
    {values : FieldValues} (hvalues : current = some (.message values) ∨ values = []) {group : Option Nat}
    {body rest : Bytes} {result : FieldValues}
    (h : schema.nestedReader depth target group values body = some (result, rest)) :
    schema.HoldsWithin (depth + extra) .single f.type (.message result) := by
  have hpos : 0 < depth := by
    rcases Nat.eq_zero_or_pos depth with rfl | hpos
    · cases h
    · exact hpos
  obtain ⟨hbefore, hnesting⟩ := holdsWithin_sofar hm htype hc hvalues hpos
  obtain ⟨hholds, hresult⟩ := hk name target group values body result rest hm hbefore hnesting h
  rw [htype]
  exact ⟨holds_message_iff.mpr ⟨target, result, hm, rfl, hholds⟩, hresult⟩

/-- A value that `readValue` reads for a field is of its type, within `depth + extra`. -/
theorem holdsWithin_of_readValue (hk : schema.KeepsNested extra depth)
    {wire : WireType} {current : Option Value}
    (hc : ∀ value, current = some value → schema.HoldsWithin (depth + extra) .single f.type value)
    {bytes rest : Bytes} {value : Value}
    (h : schema.readValue (schema.nestedReader depth) f wire current bytes = some (value, rest)) :
    schema.HoldsWithin (depth + extra) .single f.type value := by
  unfold readValue at h
  split at h
  · rename_i kind hkind
    split at h
    · exact holdsWithin_of_scalar hkind (Scalar.holds_of_decode? h)
    · cases h
  · rename_i hnone
    obtain ⟨name, htype⟩ : ∃ name, f.type = .message name := by
      cases htype : f.type with
      | message name => exact ⟨name, rfl⟩
      | _ =>
        rw [htype] at hnone
        cases hnone
    simp only [Option.bind_eq_bind, Option.bind_eq_some_iff, htype, ValueType.name] at h
    obtain ⟨target, hm, h⟩ := h
    split at h
    · split at h
      · obtain ⟨⟨result, behind⟩, hread, hresult⟩ := Option.bind_eq_some_iff.mp h
        cases hresult
        exact holdsWithin_of_nestedReader hk hm htype hc (by split <;> simp) hread
      · cases h
    · split at h
      · obtain ⟨⟨body, behind⟩, -, h⟩ := Option.bind_eq_some_iff.mp h
        obtain ⟨⟨result, more⟩, hread, hresult⟩ := Option.bind_eq_some_iff.mp h
        cases hresult
        exact holdsWithin_of_nestedReader hk hm htype hc (by split <;> simp) hread
      · cases h

/-! ## Lists -/

/-- The items that `readPacked` reads are scalars of the kind. -/
theorem holds_of_readPacked {kind : Scalar} {fuel : Nat} {bytes : Bytes} {items : List Value}
    (h : readPacked kind fuel bytes = some items) : ∀ item ∈ items, kind.Holds item := by
  induction fuel generalizing bytes items with
  | zero =>
    cases bytes with
    | nil =>
      cases h
      simp
    | cons b bytes => cases h
  | succ fuel ih =>
    cases bytes with
    | nil =>
      cases h
      simp
    | cons b bytes =>
      rw [readPacked.eq_def] at h
      dsimp only at h
      split at h
      · cases h
      · rename_i item rest hitem
        obtain ⟨more, hmore, rfl⟩ := Option.map_eq_some_iff.mp h
        exact List.forall_mem_cons.mpr ⟨Scalar.holds_of_decode? hitem, ih hmore⟩

/-- The items that `readItems` reads for a field are of its type, within `depth + extra`. -/
theorem holdsWithin_of_readItems (hk : schema.KeepsNested extra depth)
    {wire : WireType} {bytes rest : Bytes} {items : List Value}
    (h : schema.readItems (schema.nestedReader depth) f wire bytes = some (items, rest)) :
    ∀ item ∈ items, schema.HoldsWithin (depth + extra) .single f.type item := by
  unfold readItems at h
  split at h
  · rename_i kind hkind _
    simp only [Option.bind_eq_bind, Option.bind_eq_some_iff] at h
    obtain ⟨⟨body, more⟩, -, items', hitems, hresult⟩ := h
    cases hresult
    intro item hitem
    exact holdsWithin_of_scalar hkind (holds_of_readPacked hitems item hitem)
  · obtain ⟨⟨item, more⟩, hitem, hresult⟩ := Option.map_eq_some_iff.mp h
    cases hresult
    rw [List.forall_mem_singleton]
    exact holdsWithin_of_readValue hk (by simp) hitem

/-! ## Maps -/

/-- The key and the value that `readEntry` reads are of their types, if those before are. -/
theorem of_readEntry (hk : schema.KeepsNested extra depth) {keyField valueField : MessageField}
    {kind : Scalar} (hkey : keyField.type = .scalar kind) {fuel : Nat} {keyBefore before : Value}
    (hk' : kind.Holds keyBefore) (hb : schema.HoldsWithin (depth + extra) .single valueField.type before)
    {bytes : Bytes} {key value : Value}
    (h : schema.readEntry (schema.nestedReader depth) depth keyField valueField fuel (keyBefore, before)
      bytes = some (key, value)) :
    kind.Holds key ∧ schema.HoldsWithin (depth + extra) .single valueField.type value := by
  induction fuel generalizing keyBefore before bytes with
  | zero =>
    cases bytes with
    | nil =>
      cases h
      exact ⟨hk', hb⟩
    | cons b bytes => cases h
  | succ fuel ih =>
    cases bytes with
    | nil =>
      cases h
      exact ⟨hk', hb⟩
    | cons b bytes =>
      obtain ⟨⟨wireKey, rest⟩, hwire⟩ : ∃ found, WireKey.decode? (b :: bytes) = some found := by
        cases hwire : WireKey.decode? (b :: bytes) with
        | some found => exact ⟨found, rfl⟩
        | none =>
          rw [readEntry.eq_def] at h
          dsimp only at h
          rw [hwire] at h
          cases h
      rw [readEntry_step hwire] at h
      split at h
      · obtain ⟨⟨read, more⟩, hread, h⟩ := Option.bind_eq_some_iff.mp h
        have hholds := (holdsWithin_of_readValue hk (by simp) hread).1
        rw [hkey] at hholds
        exact ih (hholds.of_scalar? rfl) hb h
      · split at h
        · obtain ⟨⟨read, more⟩, hread, h⟩ := Option.bind_eq_some_iff.mp h
          refine ih hk' (holdsWithin_of_readValue hk ?_ hread) h
          intro value hvalue
          cases hvalue
          exact hb
        · obtain ⟨more, -, h⟩ := Option.bind_eq_some_iff.mp h
          exact ih hk' hb h

/-- The key and the value that `readMapEntry` reads are of their types, where there is a level for a default. -/
theorem of_readMapEntry (hk : schema.KeepsNested extra depth) {target : MessageType}
    (ht : schema.message? f.type.name = some target) {kind : Scalar} {keyField valueField : MessageField}
    (he : target.IsEntry kind keyField valueField)
    (hdefault : kind.Holds keyField.default ∧
      schema.HoldsWithin (depth + extra) .single valueField.type valueField.default)
    {bytes rest : Bytes} {key : MapKey} {value : Value}
    (h : schema.readMapEntry (schema.nestedReader depth) depth f bytes = some ((key, value), rest)) :
    kind.Holds key.toValue ∧ schema.HoldsWithin (depth + extra) .single valueField.type value := by
  unfold readMapEntry at h
  simp only [ht, he.key, he.value, Option.bind_eq_bind, Option.bind_some, Option.bind_eq_some_iff] at h
  obtain ⟨⟨body, more⟩, -, ⟨keyRead, valueRead⟩, hentry, mapKey, hmapKey, hresult⟩ := h
  cases hresult
  rw [MapKey.toValue_of_ofValue? hmapKey]
  exact of_readEntry hk he.keyType hdefault.1 hdefault.2 hentry

/-! ## Messages -/

/-- The value under the number of a field is of its shape and type, within the same levels. -/
theorem HoldsFields.get? {values : FieldValues} (h : schema.HoldsFields levels type values)
    {number : Nat} (hf : type.field? number = some f) {value : Value}
    (hget : FieldValues.get? values number = some value) :
    schema.HoldsWithin levels f.shape f.type value := by
  have hmem := FieldValues.mem_of_get?_eq_some hget
  exact ⟨h.1.fields _ hmem f hf, FieldValues.nesting_le_iff.mp h.2 _ hmem⟩

/-- A message stays `HoldsFields` when `setField` sets a field to a value with `HoldsWithin`. -/
theorem HoldsFields.setField {values : FieldValues} (h : schema.HoldsFields levels type values)
    (hw : type.IsWired schema) {number : Nat} (hf : type.field? number = some f) {value : Value}
    (hv : schema.HoldsWithin levels f.shape f.type value) :
    schema.HoldsFields levels type (type.setField f value values) :=
  ⟨h.1.setField hw.toIsLinked (hw.finds hf).1.found hv.1, MessageType.nesting_setField_le h.2 hv.2⟩

/-- A list with more items of its type behind it is a list of this type. -/
theorem holdsWithin_append {valueType : ValueType} {items more : List Value}
    (h : schema.HoldsWithin levels .list valueType (.list items))
    (hmore : ∀ item ∈ more, schema.HoldsWithin levels .single valueType item) :
    schema.HoldsWithin levels .list valueType (.list (items ++ more)) := by
  obtain ⟨hitems, hnesting⟩ := h
  cases hitems with
  | list hitems =>
    rw [Value.nesting, Value.nestingOfItems_le_iff] at hnesting
    refine ⟨.list fun item hitem => ?_, ?_⟩
    · exact (List.mem_append.mp hitem).elim (hitems item) fun h => (hmore item h).1
    · rw [Value.nesting, Value.nestingOfItems_le_iff]
      exact fun item hitem => (List.mem_append.mp hitem).elim (hnesting item) fun h => (hmore item h).2

/-- A map stays one of its type when `setEntry` puts in a key and a value of their types. -/
theorem holdsWithin_setEntry {name : String} {target : MessageType} {kind : Scalar}
    {keyField valueField : MessageField} (hm : schema.message? name = some target)
    (he : target.IsEntry kind keyField valueField) {entries : List (MapKey × Value)}
    (h : schema.HoldsWithin levels .map (.message name) (.map entries)) {key : MapKey} {value : Value}
    (hkey : kind.Holds key.toValue) (hvalue : schema.HoldsWithin levels .single valueField.type value) :
    schema.HoldsWithin levels .map (.message name) (.map (Value.setEntry entries key value)) := by
  obtain ⟨hentries, hnesting⟩ := h
  cases hentries with
  | @map name target' kind' keyField' valueField' entries hm' he' hn hkeys hvalues =>
    rw [hm, Option.some.injEq] at hm'
    subst hm'
    obtain rfl := Option.some.inj (he.value.symm.trans he'.value)
    obtain rfl := Option.some.inj (he.key.symm.trans he'.key)
    obtain rfl : kind = kind' := ValueType.scalar.inj (he.keyType.symm.trans he'.keyType)
    rw [Value.nesting, Value.nestingOfEntries_le_iff] at hnesting
    refine ⟨.map hm he (Value.nodup_setEntry hn _ _) (fun e hmem => ?_) fun e hmem => ?_, ?_⟩
    · rcases Value.mem_of_mem_setEntry hmem with rfl | hmem
      · exact hkey
      · exact hkeys e hmem
    · rcases Value.mem_of_mem_setEntry hmem with rfl | hmem
      · exact hvalue.1
      · exact hvalues e hmem
    · rw [Value.nesting, Value.nestingOfEntries_le_iff]
      intro e hmem
      rcases Value.mem_of_mem_setEntry hmem with rfl | hmem
      · exact hvalue.2
      · exact hnesting e hmem

/-- The default of a single field is a value of its type, within one level. -/
theorem holdsWithin_default (hw : type.IsWired schema) (hf : f ∈ type.fields) (hshape : f.shape = .single)
    (hl : 0 < levels) : schema.HoldsWithin levels .single f.type f.default := by
  have hfield := hw.wired f hf
  cases htype : f.type with
  | message name =>
    obtain ⟨target, hm, -⟩ := hw.messages f hf name htype
    rw [hfield.message hshape name htype]
    exact ⟨holds_message_iff.mpr ⟨target, [], hm, rfl, target.holds_nil schema⟩, hl⟩
  | scalar kind =>
    have hholds := hfield.scalar hshape kind (by rw [htype]; rfl)
    exact ⟨.scalar rfl hholds, by rw [Value.nesting_of_isScalar (Scalar.isScalar_of_holds hholds)]; omega⟩
  | enum name =>
    have hholds := hfield.scalar hshape .int32 (by rw [htype]; rfl)
    exact ⟨.scalar rfl hholds, by rw [Value.nesting_of_isScalar (Scalar.isScalar_of_holds hholds)]; omega⟩

/-- A value that `readOver` reads over one of the shape and type of the field is of them, if the type
`HasRoom`. -/
theorem holdsWithin_of_readOver (hs : schema.IsWired) (hk : schema.KeepsNested extra depth)
    (hw : type.IsWired schema) (hroom : HasRoom extra type) {number : Nat} {f : MessageField}
    (hf : type.field? number = some f) {wire : WireType} {current : Option Value} {bytes rest : Bytes}
    {value : Value} (hcurrent : ∀ own, current = some own → schema.HoldsWithin (depth + extra) f.shape f.type own)
    (h : schema.readOver (schema.nestedReader depth) depth f wire current bytes = some (value, rest)) :
    schema.HoldsWithin (depth + extra) f.shape f.type value := by
  have hmem := List.mem_of_find?_eq_some hf
  unfold readOver at h
  cases hshape : f.shape with
  | single =>
    rw [hshape] at h hcurrent
    exact holdsWithin_of_readValue hk hcurrent h
  | list =>
    rw [hshape] at h hcurrent
    obtain ⟨⟨items, more⟩, hitems, hresult⟩ := Option.map_eq_some_iff.mp h
    cases hresult
    refine holdsWithin_append ?_ (holdsWithin_of_readItems hk hitems)
    unfold itemsOf
    split
    · exact hcurrent _ rfl
    · exact ⟨.list (by simp), Nat.zero_le _⟩
  | map =>
    rw [hshape] at h hcurrent
    obtain ⟨⟨⟨mapKey, own⟩, more⟩, hentry, hresult⟩ := Option.map_eq_some_iff.mp h
    cases hresult
    obtain ⟨name, htype⟩ : ∃ name, f.type = .message name := by
      cases htype : f.type with
      | scalar kind => exact absurd hshape (hw.scalars f hmem kind htype)
      | enum name => exact absurd hshape (hw.enums f hmem name htype).1
      | message name => exact ⟨name, rfl⟩
    obtain ⟨target, hm, hentryType⟩ := hw.messages f hmem name htype
    obtain ⟨kind, keyField, valueField, he⟩ := hentryType hshape
    have hextra : 0 < depth + extra :=
      Nat.add_pos_right depth (hroom.resolve_right fun hplain => hplain f hmem hshape)
    have hkeyField := (hs name target hm).wired keyField (List.mem_of_find?_eq_some he.key)
    have hkeyDefault : kind.Holds keyField.default :=
      hkeyField.scalar he.keyShape kind (by rw [he.keyType]; rfl)
    have hvalueDefault := holdsWithin_default (hs name target hm) (List.mem_of_find?_eq_some he.value)
      he.valueShape hextra
    obtain ⟨hkey, hvalue⟩ := of_readMapEntry hk (by rw [htype]; exact hm) he ⟨hkeyDefault, hvalueDefault⟩
      hentry
    rw [htype] at hcurrent ⊢
    refine holdsWithin_setEntry hm he ?_ hkey hvalue
    unfold entriesOf
    split
    · exact hcurrent _ rfl
    · exact ⟨.map hm he .nil (by simp) (by simp), Nat.zero_le _⟩

/-- A message stays `HoldsFields` when `readField` reads a field, if the type `HasRoom`. -/
theorem holdsFields_of_readField (hs : schema.IsWired) (hk : schema.KeepsNested extra depth)
    (hw : type.IsWired schema) (hroom : HasRoom extra type) {key : WireKey} {values next : FieldValues}
    {bytes rest : Bytes}
    (hv : schema.HoldsFields (depth + extra) type values)
    (h : schema.readField (schema.nestedReader depth) depth type key values bytes = some (next, rest)) :
    schema.HoldsFields (depth + extra) type next := by
  cases hf : type.field? key.number with
  | none =>
    rw [readField_eq_of_unknown hf] at h
    obtain ⟨more, -, hresult⟩ := Option.map_eq_some_iff.mp h
    cases hresult
    exact hv
  | some f =>
    rw [readField_eq_of_field? hf, (hw.finds hf).2] at h
    obtain ⟨⟨value, more⟩, hread, hresult⟩ := Option.map_eq_some_iff.mp h
    cases hresult
    exact hv.setField hw hf (holdsWithin_of_readOver hs hk hw hroom hf (fun value => hv.get? hf) hread)

/-- A message stays `HoldsFields` when `readMessage` reads over it, if the type `HasRoom`. -/
theorem KeepsNested.of_readMessage (hk : schema.KeepsNested extra depth) (hs : schema.IsWired)
    (hw : type.IsWired schema) (hroom : HasRoom extra type) {group : Option Nat}
    {values result : FieldValues} {bytes rest : Bytes}
    (hv : schema.HoldsFields (depth + extra) type values)
    (h : schema.readMessage depth type group values bytes = some (result, rest)) :
    schema.HoldsFields (depth + extra) type result := by
  rw [readMessage_eq] at h
  refine of_readFields (P := fun values _ => schema.HoldsFields (depth + extra) type values)
    (fun _ _ _ _ hv _ => hv) (fun _ _ _ _ _ hv hfield => ?_) hv h
  exact holdsFields_of_readField hs hk hw hroom hv hfield

/-- In a wired schema all of whose types have room, `nestedReader` has `KeepsNested`. -/
theorem IsWired.keepsNested (hs : schema.IsWired)
    (hroom : ∀ name target, schema.message? name = some target → HasRoom extra target) (depth : Nat) :
    schema.KeepsNested extra depth := by
  induction depth with
  | zero =>
    intro _ _ _ _ _ _ _ _ _ _ hnone
    cases hnone
  | succ depth ih =>
    intro name target group values bytes result rest hm hv hnesting h
    obtain ⟨hholds, hresult⟩ := ih.of_readMessage hs (hs name target hm) (hroom name target hm)
      ⟨hv, by omega⟩ h
    exact ⟨hholds, by omega⟩

/-- The fields that `decode?` reads are a message of the type and nest at most `maxNesting + 1` levels. -/
theorem IsWired.holdsFields_of_decode? (hs : schema.IsWired) (hw : type.IsWired schema) {bytes : Bytes}
    {values : FieldValues} (h : schema.decode? type bytes = some values) :
    schema.HoldsFields (maxNesting + 1) type values := by
  obtain ⟨⟨result, rest⟩, hread, rfl⟩ := Option.map_eq_some_iff.mp h
  exact (hs.keepsNested (fun _ _ _ => .inl Nat.one_pos) maxNesting).of_readMessage hs hw
    (.inl Nat.one_pos) ⟨type.holds_nil schema, Nat.zero_le _⟩ hread

/-- In a schema without maps the fields that `decode?` reads nest at most `maxNesting` levels. -/
theorem IsWired.holdsFields_of_decode?_of_forall_ne (hs : schema.IsWired) (hw : type.IsWired schema)
    (hplain : ∀ name target, schema.message? name = some target → ∀ f ∈ target.fields, f.shape ≠ .map)
    (hown : ∀ f ∈ type.fields, f.shape ≠ .map) {bytes : Bytes} {values : FieldValues}
    (h : schema.decode? type bytes = some values) : schema.HoldsFields maxNesting type values := by
  obtain ⟨⟨result, rest⟩, hread, rfl⟩ := Option.map_eq_some_iff.mp h
  have hk : schema.KeepsNested 0 maxNesting :=
    hs.keepsNested (fun name target hm => .inr (hplain name target hm)) maxNesting
  exact hk.of_readMessage hs hw (.inr hown) ⟨type.holds_nil schema, Nat.zero_le _⟩ hread

end Schema

end Tagwire
