import Mathlib.Data.Set.Function
import Tagwire.Proofs.Naming

/-!
# Names converted there and back

The snake-case form of any name has no upper-case letter, and is its own snake-case form.  Taken back to the
lower-camel form, exactly the record keys among the identifiers are what they were.  Any other identifier becomes a
name of letters and digits.  This is a record key, and as such could be declared in its place, if the identifier
starts with a letter; but behind an underscore the first letter is raised, and a digit comes to the front, so that
the name that is suggested for such an identifier is refused in its turn.
-/

set_option autoImplicit false

namespace Tagwire

/-! ## Characters -/

/-- `Char.toLower` gives no upper-case letter. -/
theorem isUpper_toLower (c : Char) : c.toLower.isUpper = false := by
  cases hu : c.isUpper with
  | false => rwa [toLower_eq_of_not_isUpper hu]
  | true => exact isUpper_eq_false_of_isLower (isLower_toLower_of_isUpper hu)

/-- `Char.toUpper` gives no lower-case letter. -/
theorem isLower_toUpper (c : Char) : c.toUpper.isLower = false := by
  cases hl : c.isLower with
  | false => rwa [toUpper_eq_of_not_isLower hl]
  | true =>
    have hc : c.toNat < 128 := toNat_lt_of_isAlphanum (isAlphanum_of_isLower hl)
    revert hl
    exact ascii_induction (P := fun c => c.isLower = true → c.toUpper.isLower = false) (by decide) hc

/-- `Char.toUpper` gives a letter or digit for each letter or digit. -/
theorem isAlphanum_toUpper {c : Char} (h : c.isAlphanum = true) : c.toUpper.isAlphanum = true := by
  have hc : c.toNat < 128 := toNat_lt_of_isAlphanum h
  revert h
  exact ascii_induction (P := fun c => c.isAlphanum = true → c.toUpper.isAlphanum = true) (by decide) hc

/-- The lower-case form of a letter is a lower-case letter. -/
theorem isLower_toLower_of_isAlpha {c : Char} (h : c.isAlpha = true) : c.toLower.isLower = true := by
  rw [isAlpha_eq, Bool.or_eq_true] at h
  cases hu : c.isUpper with
  | true => exact isLower_toLower_of_isUpper hu
  | false =>
    rw [toLower_eq_of_not_isUpper hu]
    exact h.resolve_left (by simp [hu])

/-! ## Snake case -/

/-- `underscored` leaves no upper-case letter. -/
theorem isUpper_of_mem_underscored {cs : List Char} : ∀ c ∈ underscored cs, c.isUpper = false := by
  induction cs with
  | nil => simp [underscored]
  | cons c rest ih =>
    rw [underscored]
    cases hu : c.isUpper with
    | false =>
      rw [if_neg Bool.false_ne_true, List.forall_mem_cons]
      exact ⟨hu, ih⟩
    | true =>
      rw [if_pos rfl, List.forall_mem_cons, List.forall_mem_cons]
      exact ⟨by decide, isUpper_toLower c, ih⟩

/-- `underscored` leaves characters without upper-case letters as they are. -/
theorem underscored_eq_self {cs : List Char} (h : ∀ c ∈ cs, c.isUpper = false) : underscored cs = cs := by
  induction cs with
  | nil => rfl
  | cons c rest ih =>
    rw [List.forall_mem_cons] at h
    rw [underscored, h.1, if_neg Bool.false_ne_true, ih h.2]

/-- `snakeCase` leaves no upper-case letter. -/
theorem isUpper_of_mem_snakeCase {name : String} : ∀ c ∈ (snakeCase name).toList, c.isUpper = false := by
  rw [snakeCase, String.toList_ofList]
  cases name.toList with
  | nil => simp [snakeCaseChars]
  | cons c rest =>
    rw [snakeCaseChars, List.forall_mem_cons]
    exact ⟨isUpper_toLower c, isUpper_of_mem_underscored⟩

/-- `snakeCase` leaves names without upper-case letters as they are. -/
theorem snakeCase_eq_self {name : String} (h : ∀ c ∈ name.toList, c.isUpper = false) : snakeCase name = name := by
  rw [snakeCase, ← String.toList_inj, String.toList_ofList]
  cases hname : name.toList with
  | nil => rfl
  | cons c rest =>
    rw [hname, List.forall_mem_cons] at h
    rw [snakeCaseChars, toLower_eq_of_not_isUpper h.1, underscored_eq_self h.2]

/-- `isRecordKey` in terms of the characters: a lower-case letter, and letters and digits behind it. -/
theorem isRecordKey_iff {name : String} : isRecordKey name = true ↔ ∃ first rest, name.toList = first :: rest ∧
    first.isLower = true ∧ ∀ c ∈ rest, c.isAlphanum = true := by
  rw [isRecordKey]
  cases name.toList with
  | nil => simp [isRecordKeyChars]
  | cons c cs => simp [isRecordKeyChars]

/-- `lowerCamel` gives an identifier back from its `snakeCase` form exactly if it is a lower-case letter
followed by letters and digits, and no two such identifiers share a form.  For every Unicode string, `snakeCase`
leaves no upper-case ASCII letter and is idempotent. -/
theorem lowerCamel_snakeCase_iff :
    (∀ name, isIdentifier name = true ∧ lowerCamel (snakeCase name) = name ↔
      ∃ first rest, name.toList = first :: rest ∧ first.isLower = true ∧ ∀ c ∈ rest, c.isAlphanum = true) ∧
    Set.InjOn snakeCase {key | isRecordKey key = true} ∧
    Set.LeftInvOn lowerCamel snakeCase {key | isRecordKey key = true} ∧
    ∀ name, (∀ c ∈ (snakeCase name).toList, c.isUpper = false) ∧ snakeCase (snakeCase name) = snakeCase name := by
  refine ⟨fun name => ?_, fun a ha b hb => snakeCase_injective ha hb, fun key hkey => lowerCamel_snakeCase hkey,
    fun name => ⟨isUpper_of_mem_snakeCase, snakeCase_eq_self isUpper_of_mem_snakeCase⟩⟩
  rw [← isRecordKey_iff]
  exact ⟨fun h => isRecordKey_of_lowerCamel_snakeCase h.1 h.2,
    fun h => ⟨isIdentifier_of_isRecordKey h, lowerCamel_snakeCase h⟩⟩

/-! ## Names in place of others -/

/-- `lowerCamelChars` makes letters and digits of characters that continue an identifier. -/
theorem isAlphanum_of_mem_lowerCamelChars {cs : List Char} (h : ∀ c ∈ cs, isIdentifierRest c = true)
    (raise : Bool) : ∀ c ∈ lowerCamelChars raise cs, c.isAlphanum = true := by
  induction cs generalizing raise with
  | nil => simp [lowerCamelChars]
  | cons c rest ih =>
    rw [List.forall_mem_cons] at h
    rw [lowerCamelChars]
    by_cases hc : c = '_'
    · rw [if_pos hc]
      exact ih h.2 true
    · have hfirst := isAlphanum_of_isIdentifierRest h.1 hc
      rw [if_neg hc, List.forall_mem_cons]
      refine ⟨?_, ih h.2 false⟩
      cases raise with
      | false => exact hfirst
      | true => exact isAlphanum_toUpper hfirst

/-- Behind an underscore, what `lowerCamelChars` gives does not begin with a lower-case letter. -/
theorem isRecordKeyChars_lowerCamelChars_true (cs : List Char) :
    isRecordKeyChars (lowerCamelChars true cs) = false := by
  induction cs with
  | nil => rfl
  | cons c rest ih =>
    rw [lowerCamelChars]
    split
    · exact ih
    · rw [if_pos rfl, isRecordKeyChars, isLower_toUpper, Bool.false_and]

/-- `lowerCamel` of the `snakeCase` form of an identifier is a record key exactly if the identifier does not
start with an underscore. -/
theorem isRecordKey_lowerCamel_snakeCase_iff {name : String} (hi : isIdentifier name = true) :
    isRecordKey (lowerCamel (snakeCase name)) = true ↔ name.toList.head? ≠ some '_' := by
  rw [isIdentifier] at hi
  rw [isRecordKey, lowerCamel, snakeCase, String.toList_ofList, String.toList_ofList]
  cases hname : name.toList with
  | nil =>
    rw [hname] at hi
    cases hi
  | cons c rest =>
    rw [hname, isIdentifierChars, Bool.and_eq_true, List.all_eq_true] at hi
    have hrest := isAlphanum_of_mem_lowerCamelChars (isIdentifierRest_of_mem_underscored hi.2)
    rw [snakeCaseChars, lowerCamelChars, List.head?_cons]
    by_cases hc : c = '_'
    -- The underscore in front is dropped, and what comes behind it is raised.
    · have hlower : c.toLower = '_' := by
        rw [hc]
        decide
      rw [if_pos hlower, isRecordKeyChars_lowerCamelChars_true]
      simp [hc]
    · have hlower := isLower_toLower_of_isAlpha (isAlpha_of_isIdentifierStart hi.1 hc)
      rw [if_neg (ne_underscore_of_isLower hlower), if_neg Bool.false_ne_true, isRecordKeyChars, hlower,
        Bool.true_and, List.all_eq_true]
      exact iff_of_true (hrest false) (by simp [hc])

namespace Catalog

/-- `nameFault?` finds no fault with an identifier, or the one that `lowerCamel (snakeCase name)` is to be
declared in its place.  With this name it finds no fault exactly if `name` does not start with an underscore. -/
theorem suggestion_accepted_iff {name : String} (hi : isIdentifier name = true) :
    (nameFault? name = none ∨ nameFault? name = some (.changedByMapping (lowerCamel (snakeCase name)))) ∧
    (nameFault? (lowerCamel (snakeCase name)) = none ↔ name.toList.head? ≠ some '_') := by
  refine ⟨?_, by rw [nameFault?_eq_none_iff, isRecordKey_lowerCamel_snakeCase_iff hi]⟩
  by_cases hkey : lowerCamel (snakeCase name) = name
  · exact .inl (by simp [nameFault?, hi, hkey])
  · exact .inr (by simp [nameFault?, hi, hkey])

/-- For `user_id` the record key `userId` is suggested, and it has no fault. -/
theorem suggestion_accepted_userId :
    isIdentifier "user_id" = true ∧ nameFault? "user_id" = some (.changedByMapping "userId") ∧
    nameFault? "userId" = none := by
  have hi : isIdentifier "user_id" = true := by decide
  have hkey : lowerCamel (snakeCase "user_id") = "userId" := by decide
  have hsuggested := suggestion_accepted_iff hi
  rw [hkey] at hsuggested
  exact ⟨hi, hsuggested.1.resolve_left (by decide), hsuggested.2.mpr (by decide)⟩

/-- For `_x` the record key `X` is suggested, for which in its turn `x` is. -/
theorem suggestion_refused_leadingUnderscore :
    isIdentifier "_x" = true ∧ nameFault? "_x" = some (.changedByMapping "X") ∧
    nameFault? "X" = some (.changedByMapping "x") ∧ nameFault? "x" = none := by
  decide

end Catalog

end Tagwire
