import Tagwire.Proofs.Naming

/-!
# Message names that identities share

The stem of an identity is what is left of it without the ending of definitions, which is taken off once even if it is
there twice.  An identity has a message name exactly when its stem is an identifier of at most twenty-five bytes.  As all
message names have one ending, two identities share a message name exactly when they share their stem.  This happens in
one way only: one of the two does not have the ending of definitions, and the other one is the same text with it.
-/

set_option autoImplicit false

namespace Tagwire

/-- Does the identity end in `SchemaDefinition`, that is `definitionSuffix`? -/
def EndsInDefinition (id : RecordId) : Prop := ∃ shorter, id = shorter ++ definitionSuffix

/-- `stem` is what is left of `id` without one `definitionSuffix` at its end, or all of it if it does not end
so. -/
def IsStem (id : RecordId) (stem : String) : Prop :=
  id = stem ++ definitionSuffix ∨ id = stem ∧ ¬ EndsInDefinition id

/-- An identity ends in `definitionSuffix` exactly if the characters of it are a suffix of its own. -/
theorem endsInDefinition_iff {id : RecordId} :
    EndsInDefinition id ↔ definitionSuffix.toList.isSuffixOf id.toList = true := by
  rw [List.isSuffixOf_iff_suffix]
  constructor
  · rintro ⟨shorter, rfl⟩
    exact ⟨shorter.toList, String.toList_append.symm⟩
  · rintro ⟨shorter, hshorter⟩
    refine ⟨String.ofList shorter, ?_⟩
    rw [← String.toList_inj, String.toList_append, String.toList_ofList, hshorter]

/-- Whether an identity ends in `SchemaDefinition` is decided by `endsInDefinition_iff`. -/
instance (id : RecordId) : Decidable (EndsInDefinition id) := decidable_of_iff _ endsInDefinition_iff.symm

/-- `isIdentifier` in terms of the characters: a letter or underscore, and letters, digits and underscores
behind it. -/
theorem isIdentifier_iff {text : String} : isIdentifier text = true ↔ ∃ first rest, text.toList = first :: rest ∧
    (first.isAlpha = true ∨ first = '_') ∧ ∀ c ∈ rest, c.isAlphanum = true ∨ c = '_' := by
  rw [isIdentifier]
  cases text.toList with
  | nil => simp [isIdentifierChars]
  | cons c rest => simp [isIdentifierChars, isIdentifierStart, isIdentifierRest]

namespace MessageName

/-- `stem` takes one `definitionSuffix` off, whatever stands before it. -/
theorem stem_append_definitionSuffix (text : String) : stem (text ++ definitionSuffix) = text := by
  rw [stem, if_pos (endsInDefinition_iff.mp ⟨text, rfl⟩), String.toList_append, List.length_append,
    Nat.add_sub_cancel, List.take_left, String.ofList_toList]

/-- `stem` leaves an identity that does not end in `definitionSuffix` as it is. -/
theorem stem_eq_self {id : RecordId} (h : ¬ EndsInDefinition id) : stem id = id := by
  rw [stem, if_neg]
  exact fun hends => h (endsInDefinition_iff.mpr hends)

/-- `MessageName.stem` gives the stem, and nothing else is one. -/
theorem isStem_iff {id : RecordId} {text : String} : IsStem id text ↔ text = stem id := by
  constructor
  · rintro (rfl | ⟨rfl, hends⟩)
    · exact (stem_append_definitionSuffix text).symm
    · exact (stem_eq_self hends).symm
  · rintro rfl
    by_cases hends : EndsInDefinition id
    · obtain ⟨shorter, rfl⟩ := hends
      exact .inl (by rw [stem_append_definitionSuffix])
    · exact .inr ⟨(stem_eq_self hends).symm, hends⟩

/-- Two different identities share their stem exactly if one is the other with `definitionSuffix` behind it, and
the other does not end so itself. -/
theorem stem_eq_stem_iff {a b : RecordId} (hne : a ≠ b) : stem a = stem b ↔
    (a = b ++ definitionSuffix ∧ ¬ EndsInDefinition b) ∨ (b = a ++ definitionSuffix ∧ ¬ EndsInDefinition a) := by
  constructor
  · intro hstem
    by_cases ha : EndsInDefinition a <;> by_cases hb : EndsInDefinition b
    -- With the ending taken off both of them they would be the same again.
    · obtain ⟨s, rfl⟩ := ha
      obtain ⟨t, rfl⟩ := hb
      rw [stem_append_definitionSuffix, stem_append_definitionSuffix] at hstem
      exact absurd (congrArg (· ++ definitionSuffix) hstem) hne
    · obtain ⟨s, rfl⟩ := ha
      rw [stem_append_definitionSuffix, stem_eq_self hb] at hstem
      exact .inl ⟨congrArg (· ++ definitionSuffix) hstem, hb⟩
    · obtain ⟨t, rfl⟩ := hb
      rw [stem_append_definitionSuffix, stem_eq_self ha] at hstem
      exact .inr ⟨congrArg (· ++ definitionSuffix) hstem.symm, ha⟩
    · rw [stem_eq_self ha, stem_eq_self hb] at hstem
      exact absurd hstem hne
  · rintro (⟨rfl, hb⟩ | ⟨rfl, ha⟩)
    · rw [stem_append_definitionSuffix, stem_eq_self hb]
    · rw [stem_append_definitionSuffix, stem_eq_self ha]

/-- `MessageName.ofId` gives two identities one name exactly if they share their stem. -/
theorem eq_iff_of_ofId {a b : RecordId} {nameA nameB : MessageName} (ha : ofId a = .ok nameA)
    (hb : ofId b = .ok nameB) : nameA = nameB ↔ stem a = stem b := by
  rw [← String.append_left_inj messageSuffix, ← ofId_eq_ok_iff.mp ha, ← ofId_eq_ok_iff.mp hb]
  cases nameA
  cases nameB
  rw [mk.injEq]

/-- `MessageName.ofId` names an identity exactly if its stem, the identity with one `SchemaDefinition` at its
end taken off, is an identifier of at most 25 bytes; the name is the stem followed by `Message`.  Two identities
have one name exactly when one of them is the other with `SchemaDefinition` behind it, and the other does not
end so itself. -/
theorem ofId_shared_iff :
    (∀ id, ∃ stem, (∀ text, IsStem id text ↔ text = stem) ∧
      ((∃ name, ofId id = .ok name) ↔
        (∃ first rest, stem.toList = first :: rest ∧ (first.isAlpha = true ∨ first = '_') ∧
          ∀ c ∈ rest, c.isAlphanum = true ∨ c = '_') ∧ stem.utf8ByteSize ≤ 25) ∧
      ∀ name, ofId id = .ok name → name.text = stem ++ messageSuffix) ∧
    ∀ a b, a ≠ b → ∀ nameA nameB, ofId a = .ok nameA → ofId b = .ok nameB →
      (nameA = nameB ↔ (a = b ++ definitionSuffix ∧ ¬ EndsInDefinition b) ∨
        (b = a ++ definitionSuffix ∧ ¬ EndsInDefinition a)) := by
  constructor
  · intro id
    refine ⟨stem id, fun text => isStem_iff, ?_, fun name hname => ofId_eq_ok_iff.mp hname⟩
    rw [← isIdentifier_iff]
    exact exists_ofId_eq_ok_iff id
  · intro a b hne nameA nameB ha hb
    rw [eq_iff_of_ofId ha hb, stem_eq_stem_iff hne]

/-- `Frame` and `FrameSchemaDefinition` share the name `FrameMessage`; `FrameSchemaDefinitionSchemaDefinition`
has the name `FrameSchemaDefinitionMessage`. -/
theorem ofId_shared_frame : ∃ plain ended twice, ofId "Frame" = .ok plain ∧
    ofId "FrameSchemaDefinition" = .ok ended ∧ ofId "FrameSchemaDefinitionSchemaDefinition" = .ok twice ∧
    twice.text = "FrameSchemaDefinitionMessage" ∧ plain = ended ∧ ended ≠ twice := by
  have hplain : ofId "Frame" = .ok ⟨"FrameMessage", by decide⟩ := by decide
  have hended : ofId "FrameSchemaDefinition" = .ok ⟨"FrameMessage", by decide⟩ := by decide
  have htwice : ofId "FrameSchemaDefinitionSchemaDefinition" = .ok ⟨"FrameSchemaDefinitionMessage", by decide⟩ := by
    decide
  obtain ⟨hnames, hshared⟩ := ofId_shared_iff
  refine ⟨_, _, _, hplain, hended, htwice, ?_, ?_, ?_⟩
  · obtain ⟨stem, hstem, -, htext⟩ := hnames "FrameSchemaDefinitionSchemaDefinition"
    rw [htext _ htwice, ← (hstem "FrameSchemaDefinition").mp (.inl rfl)]
    rfl
  · exact (hshared _ _ (by decide) _ _ hplain hended).mpr (.inr ⟨rfl, by decide⟩)
  · intro heq
    rcases (hshared _ _ (by decide) _ _ hended htwice).mp heq with ⟨h, -⟩ | ⟨-, h⟩
    · exact absurd h (by decide)
    · exact h ⟨"Frame", rfl⟩

end MessageName

end Tagwire
