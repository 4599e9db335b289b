import Mathlib.Data.String.Basic
import Tagwire.Proofs.Layout.Messages
import Tagwire.Proofs.Mapping.Pruned
import Tagwire.Proofs.Mapping.Settings
import Tagwire.Proofs.Record

/-!
# Two spellings of one field

A member addresses a field by its record key, in lower camel case, or by its name in a document, in snake
case.  Where the two differ, a record may have a member under each, and the one that is set last counts: in
the order of keys this is the one in snake case, since an underscore comes behind all upper-case letters.  It
gives way only if it sets nothing, which null does for a field of records.
-/

set_option autoImplicit false

namespace Tagwire

/-! ## The order of the spellings -/

/-- The upper-case letters `A` to `Z` come before the underscore. -/
theorem lt_underscore_of_isUpper {c : Char} (h : c.isUpper = true) : c < '_' := by
  rw [isUpper_eq, decide_eq_true_eq] at h
  exact lt_of_le_of_lt (show c.val ≤ 'Z'.val from h.2) (by decide)

/-- Characters do not come behind what `underscored` makes of them. -/
theorem not_underscored_lt (cs : List Char) : ¬ underscored cs < cs := by
  induction cs with
  | nil => exact List.not_lt_nil _
  | cons c rest ih =>
    rw [underscored]
    split
    · rename_i hupper
      have hlt := lt_underscore_of_isUpper hupper
      rw [List.cons_lt_cons_iff, not_or, not_and]
      exact ⟨lt_asymm hlt, fun heq => absurd heq (ne_of_gt hlt)⟩
    · rw [List.cons_lt_cons_iff, not_or, not_and]
      exact ⟨lt_irrefl c, fun _ => ih⟩

/-- A record key does not come behind its snake case. -/
theorem le_snakeCase {key : String} (h : isRecordKey key = true) : key ≤ snakeCase key := by
  unfold isRecordKey at h
  rw [← not_lt, String.lt_iff_toList_lt, snakeCase, String.toList_ofList]
  cases hk : key.toList with
  | nil => exact List.not_lt_nil _
  | cons c rest =>
    simp only [hk, isRecordKeyChars, Bool.and_eq_true] at h
    rw [snakeCaseChars, toLower_eq_of_not_isUpper (isUpper_eq_false_of_isLower h.1),
      List.cons_lt_cons_iff, not_or, not_and]
    exact ⟨lt_irrefl c, fun _ => not_underscored_lt rest⟩

namespace RegisteredType.IsLaidOut

variable {type : RegisteredType} {f : RegisteredField} {key : String}

/-- The record key of a field does not come behind its `protoName`. -/
theorem name_le_protoName (h : type.IsLaidOut) (hf : f ∈ type.fields) : f.name ≤ f.protoName :=
  h.protoNames f hf ▸ le_snakeCase (h.keys f hf)

/-- A key addresses a field of the type exactly if it is its record key or its `protoName`. -/
theorem member?_eq_some_iff (h : type.IsLaidOut) :
    type.member? key = some f ↔ f ∈ type.fields ∧ (f.name = key ∨ f.protoName = key) := by
  constructor
  · intro hmember
    refine ⟨mem_of_member? hmember, ?_⟩
    unfold member? at hmember
    split at hmember
    · rename_i field hfield
      exact .inl (Option.some.inj hmember ▸ by simpa using List.find?_some hfield)
    · exact .inr (by simpa using List.find?_some hmember)
  · rintro ⟨hf, hkey⟩
    unfold member?
    split
    · rename_i g hg
      have hmem := List.mem_of_find?_eq_some hg
      have hname : g.name = key := by simpa using List.find?_some hg
      rcases hkey with hkey | hkey
      · rw [h.eq_of_name_eq hmem hf (hname.trans hkey.symm)]
      · -- The name of one field is the record key of another only if it is its own.
        have hsame : f.name = g.name := eq_of_snakeCase_eq (h.keys f hf) (h.keys g hmem)
          ((h.protoNames f hf).symm.trans (hkey.trans hname.symm))
        rw [h.eq_of_name_eq hmem hf hsame.symm]
    · rename_i hnone
      simp only [List.find?_eq_none, beq_iff_eq] at hnone
      obtain rfl := hkey.resolve_left (hnone f hf)
      exact find?_eq_some_of_nodup (g := RegisteredField.protoName) h.protoNames_nodup hf

end RegisteredType.IsLaidOut

/-- The record overrides the member under `key`, which addresses `f`: it has another member, under the
`protoName` of `f`, which sets the field too.  A null sets it only if it holds scalars. -/
def Record.IsOverridden (record : Record) (f : RegisteredField) (key : String) : Prop :=
  f.protoName ≠ key ∧ ∃ json, record.get? f.protoName = some json ∧
    (json = .null → ∃ kind, Scalar.ofKeyword? f.typeName = some kind)

/-! ## What is set in the end -/

namespace RegisteredType.IsLoaded

open Schema

variable {schema : Schema} {strict : Bool} {type : RegisteredType} {f : RegisteredField} {key : String}
  {json : Json}

/-- What `memberSetting?` gives for a member that addresses `f`: the number of `f` with what `ofMember` makes of
the value. -/
theorem memberSetting?_eq (ht : type.IsLoaded schema) (hf : f ∈ type.fields)
    (hkey : f.name = key ∨ f.protoName = key) : schema.memberSetting? strict type.linked (key, json) =
      (schema.ofMember f.linked json (schema.valueOfJson? strict f.linked.shape f.linked.type json)).map
        fun set => set.map fun value => (f.number, value) := by
  rw [memberSetting?, ht.member?_linked_eq, ht.member?_eq_some_iff.mpr ⟨hf, hkey⟩]
  rfl

/-- A member that sets a field addresses it. -/
theorem of_memberSetting? (ht : type.IsLoaded schema) (hf : f ∈ type.fields) {value : Value}
    (h : schema.memberSetting? strict type.linked (key, json) = some (some (f.number, value))) :
    f.name = key ∨ f.protoName = key := by
  rw [memberSetting?, ht.member?_linked_eq] at h
  cases hmember : type.member? key with
  | none =>
    rw [hmember] at h
    cases strict <;> cases h
  | some g =>
    obtain ⟨hg, hkey⟩ := ht.member?_eq_some_iff.mp hmember
    rw [hmember] at h
    obtain ⟨set, -, hset⟩ := Option.map_eq_some_iff.mp h
    obtain ⟨value, -, heq⟩ := Option.map_eq_some_iff.mp hset
    rwa [ht.eq_of_number_eq hf hg (Prod.mk.inj heq).1.symm]

/-- A member that can be read sets the field that it addresses, unless it is null and the field holds
records. -/
theorem exists_memberSetting? (ht : type.IsLoaded schema) (hf : f ∈ type.fields)
    (hkey : f.name = key ∨ f.protoName = key) {setting : Option (Nat × Value)}
    (h : schema.memberSetting? strict type.linked (key, json) = some setting)
    (hsets : json = .null → ∃ kind, Scalar.ofKeyword? f.typeName = some kind) :
    ∃ value, setting = some (f.number, value) := by
  rw [ht.memberSetting?_eq hf hkey] at h
  obtain ⟨set, hset, rfl⟩ := Option.map_eq_some_iff.mp h
  by_cases hnull : json = .null
  · obtain ⟨kind, hkind⟩ := hsets hnull
    subst hnull
    have htype : f.linked.type = .scalar kind := by
      rw [RegisteredField.type_linked, linkedType, hkind]
    have hdefault : schema.ofNull f.linked = some (some f.linked.default) := by
      rw [ofNull, htype]
    obtain rfl := Option.some.inj (hdefault.symm.trans hset)
    exact ⟨_, rfl⟩
  · rw [ofMember_of_ne_null hnull] at hset
    obtain ⟨value, -, rfl⟩ := Option.map_eq_some_iff.mp hset
    exact ⟨value, rfl⟩

/-- A null sets nothing in a field that holds records. -/
theorem memberSetting?_null (ht : type.IsLoaded schema) (hf : f ∈ type.fields)
    (hkey : f.name = key ∨ f.protoName = key) {target : RegisteredType} (htarget : target.IsLoaded schema)
    (hname : target.name = f.typeName) :
    schema.memberSetting? strict type.linked (key, .null) = some none := by
  have htype : f.linked.type = .message target.name := by
    rw [RegisteredField.type_linked, ← hname, htarget.linkedType_name]
  have hother : ¬ (target.name = WellKnown.value.typeName ∧ f.linked.shape = .single) := by
    rintro ⟨hvalue, -⟩
    have hform := htarget.ofTypeName?_eq_none
    rw [hvalue] at hform
    exact absurd hform (by decide)
  have hnull : schema.ofNull f.linked = some none := by
    rw [ofNull, htype]
    exact if_neg hother
  rw [ht.memberSetting?_eq hf hkey, ofMember, hnull]
  rfl

end RegisteredType.IsLoaded

namespace CompiledSchema.IsLoaded

open Schema

variable {compiled : CompiledSchema} {schema : Schema} {strict : Bool} {type : RegisteredType}
  {f : RegisteredField} {key name : String} {json : Json} {record : Record} {values : FieldValues}

/-- A field holds in the end what a member that addresses it sets, unless the record overrides this member. -/
theorem exists_get?_of_not_isOverridden (hl : compiled.IsLoaded schema) (hc : compiled.registry.IsClosed)
    (htype : compiled.registry.get? name = some type)
    (h : schema.fieldsOfJson? strict type.linked false [] record.members = some values)
    (hf : f ∈ type.fields) (hkey : f.name = key ∨ f.protoName = key) (hget : record.get? key = some json)
    (hsets : json = .null → ∃ kind, Scalar.ofKeyword? f.typeName = some kind)
    (hnot : ¬ record.IsOverridden f key) :
    ∃ value, schema.memberSetting? strict type.linked (key, json) = some (some (f.number, value)) ∧
      FieldValues.get? values f.number = some value := by
  obtain ⟨-, ht⟩ := hl.of_get? htype
  have hmem : (key, json) ∈ record.members := Entries.mem_of_get?_eq_some hget
  obtain ⟨setting, hsetting⟩ := (exists_fieldsOfJson?_iff type.oneof_eq_none [] _).mp ⟨values, h⟩ _ hmem
  obtain ⟨value, rfl⟩ := ht.exists_memberSetting? hf hkey hsetting hsets
  obtain ⟨before, after, hsplit⟩ := List.append_of_mem hmem
  refine ⟨value, hsetting, ?_⟩
  rw [hsplit] at h
  refine get?_of_fieldsOfJson?_append type.oneof_eq_none h hsetting ?_
  rintro ⟨other, own⟩ ha v hv
  have hbehind : key < other := by
    have hsorted := record.sorted
    rw [hsplit, Assoc.IsSorted, List.map_append, List.map_cons, List.pairwise_append,
      List.pairwise_cons] at hsorted
    exact hsorted.2.1.1 other (List.mem_map_of_mem (f := Prod.fst) ha)
  -- A member behind this one that addresses the field has its name in a document for its key.
  have hother : f.protoName = other := by
    refine (ht.of_memberSetting? hf hv).resolve_left fun hname => ?_
    rcases hkey with rfl | rfl
    · exact absurd hbehind (hname ▸ lt_irrefl _)
    · exact absurd hbehind (not_lt.mpr (hname ▸ ht.name_le_protoName hf))
  subst hother
  have hown : record.get? f.protoName = some own := by
    refine Entries.get?_eq_some_of_mem record.sorted (e := (f.protoName, own)) ?_
    rw [hsplit]
    exact List.mem_append_right _ (List.mem_cons_of_mem _ ha)
  by_cases hnull : own = .null → ∃ kind, Scalar.ofKeyword? f.typeName = some kind
  · exact hnot ⟨hbehind.ne', own, hown, hnull⟩
  · rw [Classical.not_imp] at hnull
    obtain ⟨rfl, hkind⟩ := hnull
    obtain ⟨target, htarget, hname, hloaded⟩ := hl.types _ ((hc _ type htype f hf).resolve_left hkind)
    rw [ht.memberSetting?_null hf (.inr rfl) hloaded hname] at hv
    cases hv

end CompiledSchema.IsLoaded

end Tagwire
