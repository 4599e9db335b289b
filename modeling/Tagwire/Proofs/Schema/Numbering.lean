import Tagwire.Proofs.Layout.Messages
import Tagwire.Proofs.Schema.Compiled

/-!
# The field numbers of a document

The fields of a message have the numbers from one on, in their order, however many there are.  So they reach
the numbers that are set aside exactly when there are enough fields for it: the nineteen thousandth field of
a message is the first one that cannot be loaded, and with it the whole document.
-/

set_option autoImplicit false

namespace Tagwire

/-- The greatest number of fields of a message whose numbers, counted from 1, are all permitted: 18999. -/
def maxFields : Nat := 18999

/-- The numbers from 1 to `count` are all permitted exactly if `count` is at most `maxFields`. -/
theorem forall_isPermitted_range'_iff (count : Nat) :
    (∀ n ∈ List.range' 1 count, IsPermitted n) ↔ count ≤ maxFields := by
  simp only [List.mem_range'_1, IsPermitted, maxFields]
  constructor
  · intro h
    by_contra hmany
    exact (h 19000 (by omega)).2.2 (by omega)
  · intro hfew n hn
    omega

/-- The numbers of the fields of a lineage are those from 1 to one more than its declared keys. -/
theorem map_number_messageFields (chain : List RecordDefinition) :
    (messageFields chain).map RegisteredField.number =
      List.range' 1 ((declaredKeys chain).length + 1) := by
  have hlength : (declaredFields chain).length = (declaredKeys chain).length := by
    simp [declaredFields, declaredKeys]
  have hplaces : ((declaredFields chain).mapIdx fun i f => placedField (i + 2) f).map
      RegisteredField.number = List.range' 2 (declaredFields chain).length := by
    apply List.ext_getElem (by simp)
    intro i hi hi'
    simp [placedField, Nat.add_comm]
  rw [messageFields, List.map_cons, hplaces, ← hlength, List.range'_succ]
  rfl

namespace MessageBlock.IsLaidOutFor

variable {definitions : List RecordDefinition} {registry : Registry} {d : RecordDefinition}
  {block : MessageBlock} {type : RegisteredType} {chain : List RecordDefinition}

/-- The numbers of a block are those from 1 to one more than the declared keys of its lineage. -/
theorem map_number (h : block.IsLaidOutFor definitions registry d type chain) :
    block.fields.map SchemaField.number = List.range' 1 ((declaredKeys chain).length + 1) := by
  rw [h.lines, List.map_map, ← map_number_messageFields, ← h.fields]
  rfl

end MessageBlock.IsLaidOutFor

namespace CompiledSchema

variable {definitions : List RecordDefinition} {compiled : CompiledSchema}

/-- The text of a compilation with a number that is not permitted is not loaded. -/
theorem loadText_ne_ok (h : compile definitions = .ok compiled) {f : SchemaField}
    (hf : f ∈ compiled.document.fields) (hnumber : ¬ IsPermitted f.number) (store : SchemaStore) :
    SchemaStore.loadText {} compiled.document.text ≠ .ok store := by
  obtain ⟨schema, -, hload⟩ := exists_isLoaded h
  exact fun hstore => hnumber (((hload store).mp hstore).1.numbers f hf)

/-- The numbers of a document are permitted exactly if those of each block are. -/
theorem forall_fields_isPermitted_iff (document : SchemaDocument) :
    (∀ f ∈ document.fields, IsPermitted f.number) ↔
      ∀ block ∈ document.messages, ∀ n ∈ block.fields.map SchemaField.number, IsPermitted n := by
  simp only [SchemaDocument.fields, List.mem_flatMap, List.forall_mem_map]
  exact ⟨fun h block hblock f hf => h f ⟨block, hblock, hf⟩, fun h f ⟨block, hblock, hf⟩ =>
    h block hblock f hf⟩

/-- The block of each definition has the numbers from 1 on without a gap, one for `type` and one for each record
key that its lineage declares.  All of them are permitted exactly if every lineage declares fewer than
`maxFields` keys, which is 18999, the reserved range being from 19000 on; and a document with a number that is
not permitted does not load. -/
theorem numbers_isPermitted_iff (h : compile definitions = .ok compiled) :
    List.Forall₂ (fun d block => ∃ chain, Lineage definitions d chain ∧
        (MessageBlock.fields block).map SchemaField.number =
          List.range' 1 ((declaredKeys chain).length + 1))
      definitions compiled.document.messages ∧
    ((∀ f ∈ compiled.document.fields, IsPermitted f.number) ↔
      ∀ d ∈ definitions, ∀ chain, Lineage definitions d chain →
        (declaredKeys chain).length < maxFields) ∧
    ((∃ f ∈ compiled.document.fields, ¬ IsPermitted f.number) →
      ∀ store, SchemaStore.loadText {} compiled.document.text ≠ .ok store) := by
  have ha := Compilation.admissible_of_compile h
  have hblocks := Compilation.blocks_of_compile h
  refine ⟨?_, ?_, fun ⟨f, hf, hnumber⟩ => loadText_ne_ok h hf hnumber⟩
  · exact hblocks.imp fun d block ⟨type, chain, hb⟩ => ⟨chain, hb.lineage, hb.map_number⟩
  rw [forall_fields_isPermitted_iff]
  constructor
  · intro hpermitted d hd chain hchain
    obtain ⟨block, hmem, type, own, hb⟩ := exists_of_forall₂ hblocks hd
    obtain rfl := hchain.unique ha.ids_nodup hb.lineage
    have hnumbers := hpermitted block hmem
    rwa [hb.map_number, forall_isPermitted_range'_iff] at hnumbers
  · intro hfew block hmem
    obtain ⟨d, hd, type, chain, hb⟩ := exists_of_forall₂ hblocks.flip hmem
    rw [hb.map_number, forall_isPermitted_range'_iff]
    exact hfew d hd chain hb.lineage

/-- A definition with the keys `fooBar` and `foo` has the numbers 1 to 3, which are permitted. -/
theorem numbers_isPermitted_twoKeys : ∃ compiled,
    compile [textRecord "X" ["fooBar", "foo"]] = .ok compiled ∧
      ∀ f ∈ compiled.document.fields, IsPermitted f.number := by
  have hcompiles : (compile [textRecord "X" ["fooBar", "foo"]]).toOption.isSome = true := by decide
  obtain ⟨compiled, h⟩ := Option.isSome_iff_exists.mp hcompiles
  have hc := toOption_eq_some_iff.mp h
  obtain ⟨-, hiff, -⟩ := numbers_isPermitted_iff hc
  refine ⟨compiled, hc, hiff.mpr fun d hd chain hchain => ?_⟩
  obtain rfl := List.mem_singleton.mp hd
  rw [lineage_textRecord_iff.mp hchain, declaredKeys_textRecord]
  decide

end CompiledSchema

/-! ## A message with too many fields -/

/-- The record key `f` with a number, such as `f7`. -/
def numberedKey (number : Nat) : String := "f" ++ toString number

/-- The record keys `f0`, `f1` and so on, `count` of them. -/
def numberedKeys (count : Nat) : List String := (List.range count).map numberedKey

/-- The characters of a `numberedKey` are the letter `f` and the decimal digits of the number. -/
theorem toList_numberedKey (number : Nat) : (numberedKey number).toList = 'f' :: Nat.toDigits 10 number := by
  rw [numberedKey, String.toList_append, Nat.toString_eq_repr, Nat.toList_repr]
  rfl

/-- Each `numberedKey` is a record key. -/
theorem isRecordKey_numberedKey (number : Nat) : isRecordKey (numberedKey number) = true := by
  unfold isRecordKey
  rw [toList_numberedKey, isRecordKeyChars, Bool.and_eq_true, List.all_eq_true]
  refine ⟨by decide, fun c hc => ?_⟩
  rw [Char.isAlphanum, isDigit_of_mem_toDigits hc, Bool.or_true]

/-- Different numbers have different keys. -/
theorem numberedKey_injective : Function.Injective numberedKey := by
  intro m n h
  rw [← String.toList_inj, toList_numberedKey, toList_numberedKey, List.cons.injEq] at h
  rw [← digitsValue_toDigits m, h.2, digitsValue_toDigits]

/-- The `numberedKeys` and `type` are distinct. -/
theorem nodup_numberedKeys (count : Nat) : (typeField :: numberedKeys count).Nodup := by
  rw [List.nodup_cons]
  constructor
  · intro hmem
    obtain ⟨number, -, hkey⟩ := List.mem_map.mp hmem
    -- They begin with another letter.
    have hletters := congrArg (fun key => key.toList.head?) hkey
    rw [toList_numberedKey, List.head?_cons] at hletters
    exact absurd hletters (by decide)
  · exact List.Nodup.map numberedKey_injective List.nodup_range

/-- A single `textRecord` is admissible if its stem is an identifier of at most `maxStemBytes` bytes and its
keys are distinct record keys other than `type`, at least one. -/
theorem admissible_textRecord {id : RecordId} {keys : List String}
    (hstem : isIdentifier (MessageName.stem id) = true ∧ (MessageName.stem id).utf8ByteSize ≤ maxStemBytes)
    (hkeys : ∀ key ∈ keys, isRecordKey key = true) (hne : keys ≠ []) (hn : (typeField :: keys).Nodup) :
    Admissible [textRecord id keys] := by
  have hreferences : (textRecord id keys).references = [] := by
    simp [RecordDefinition.references, textRecord]
  have hnone : ∀ a b, ¬ Refers [textRecord id keys] a b := by
    rintro a b ⟨d, hd, -, hb⟩
    rw [List.mem_singleton.mp hd, hreferences] at hb
    cases hb
  constructor
  case ids_nodup => exact List.nodup_singleton _
  case stems =>
    intro d hd
    obtain rfl := List.mem_singleton.mp hd
    exact hstem
  case names_nodup => exact List.nodup_singleton _
  case fields_nonempty => simpa [textRecord] using hne
  case references_listed => simp [hreferences]
  case keys_valid => simpa [textRecord] using hkeys
  case acyclic =>
    intro a ha
    cases ha with
    | single h => exact hnone _ _ h
    | tail _ h => exact hnone _ _ h
  case keys_nodup =>
    intro d hd chain hchain
    obtain rfl := List.mem_singleton.mp hd
    rwa [lineage_textRecord_iff.mp hchain, declaredKeys_textRecord]

/-- A definition with `maxFields` keys compiles, but its last field has the number 19000, which is not
permitted, and its document does not load. -/
theorem CompiledSchema.numbers_not_isPermitted_numberedKeys : ∃ compiled,
    compile [textRecord "X" (numberedKeys maxFields)] = .ok compiled ∧
      (∃ f ∈ compiled.document.fields, f.number = 19000 ∧ ¬ IsPermitted f.number) ∧
      ∀ store, SchemaStore.loadText {} compiled.document.text ≠ .ok store := by
  have ha : Admissible [textRecord "X" (numberedKeys maxFields)] := by
    refine admissible_textRecord (by decide) (fun key hkey => ?_) ?_ (nodup_numberedKeys _)
    · obtain ⟨number, -, rfl⟩ := List.mem_map.mp hkey
      exact isRecordKey_numberedKey number
    · rw [← List.length_pos_iff, numberedKeys, List.length_map, List.length_range]
      decide
  obtain ⟨compiled, h⟩ := Compilation.exists_compile_of_admissible ha
  obtain ⟨block, hblock, type, chain, hb⟩ :=
    exists_of_forall₂ (Compilation.blocks_of_compile h) List.mem_cons_self
  have hnumbers := hb.map_number
  rw [lineage_textRecord_iff.mp hb.lineage, declaredKeys_textRecord, numberedKeys, List.length_map,
    List.length_range] at hnumbers
  have hlast : 19000 ∈ block.fields.map SchemaField.number := by
    rw [hnumbers, List.mem_range'_1, maxFields]
    omega
  obtain ⟨f, hf, hnumber⟩ := List.mem_map.mp hlast
  have hmem : f ∈ compiled.document.fields := List.mem_flatMap.mpr ⟨block, hblock, hf⟩
  have hrefused : ¬ IsPermitted f.number := by
    rw [hnumber]
    decide
  exact ⟨compiled, h, ⟨f, hmem, hnumber, hrefused⟩, loadText_ne_ok h hmem hrefused⟩

end Tagwire
