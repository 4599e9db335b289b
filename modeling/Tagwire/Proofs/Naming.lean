import Mathlib.Data.List.Basic
import Tagwire.Compilation.Catalog
import Tagwire.Schema.Linking

/-!
# Record keys, field names and message names

A field name passes the check of the catalog exactly when it is a *record key*: a lower-case letter, then
letters and digits.  On record keys the snake-case form is undone by the lower-camel form, so that it is
injective; it is an identifier in lower case, and folding it gives the key in lower case.

A message name can be derived from an identity exactly when the stem of the identity is an identifier of
at most twenty-five bytes, and it is then the stem with the ending of message names.
-/

set_option autoImplicit false

namespace Tagwire

/-! ## Characters -/

/-- `Char.isAlpha` is upper case or lower case. -/
theorem isAlpha_eq (c : Char) : c.isAlpha = (c.isUpper || c.isLower) := rfl

/-- `Char.isUpper` is the range from `A` to `Z`. -/
theorem isUpper_eq (c : Char) : c.isUpper = decide (c.val ≥ 'A'.val ∧ c.val ≤ 'Z'.val) := rfl

/-- `Char.isLower` is the range from `a` to `z`. -/
theorem isLower_eq (c : Char) : c.isLower = (decide (c.val ≥ 'a'.val) && decide (c.val ≤ 'z'.val)) := rfl

/-- What holds of every character below 128 holds of an ASCII character. -/
theorem ascii_induction {P : Char → Prop} (h : ∀ n : Fin 128, P (Char.ofNat n.val)) {c : Char}
    (hc : c.toNat < 128) : P c := by
  have := h ⟨c.toNat, hc⟩
  simpa using this

/-- A letter or digit is an ASCII character. -/
theorem toNat_lt_of_isAlphanum {c : Char} (h : c.isAlphanum = true) : c.toNat < 128 := by
  simp only [Char.isAlphanum, isAlpha_eq, isUpper_eq, isLower_eq, Char.isDigit,
    Bool.or_eq_true, Bool.and_eq_true, decide_eq_true_eq, ge_iff_le, UInt32.le_iff_toNat_le] at h
  have hc : c.toNat = c.val.toNat := rfl
  have hZ : 'Z'.val.toNat = 90 := rfl
  have hz : 'z'.val.toNat = 122 := rfl
  have h9 : '9'.val.toNat = 57 := rfl
  omega

/-- A lower-case letter is a letter or digit. -/
theorem isAlphanum_of_isLower {c : Char} (h : c.isLower = true) : c.isAlphanum = true := by
  simp [Char.isAlphanum, isAlpha_eq, h]

/-- `Char.toUpper` undoes `Char.toLower` on an upper-case letter. -/
theorem toUpper_toLower_of_isUpper {c : Char} (h : c.isUpper = true) : c.toLower.toUpper = c := by
  have hc : c.toNat < 128 := toNat_lt_of_isAlphanum (by simp [Char.isAlphanum, isAlpha_eq, h])
  revert h
  exact ascii_induction (P := fun c => c.isUpper = true → c.toLower.toUpper = c) (by decide) hc

/-- The lower-case form of an upper-case letter is a lower-case letter. -/
theorem isLower_toLower_of_isUpper {c : Char} (h : c.isUpper = true) : c.toLower.isLower = true := by
  have hc : c.toNat < 128 := toNat_lt_of_isAlphanum (by simp [Char.isAlphanum, isAlpha_eq, h])
  revert h
  exact ascii_induction (P := fun c => c.isUpper = true → c.toLower.isLower = true) (by decide) hc

/-- `Char.toLower` leaves every character that is no upper-case letter. -/
theorem toLower_eq_of_not_isUpper {c : Char} (h : c.isUpper = false) : c.toLower = c := by
  unfold Char.toLower
  rw [dif_neg]
  simpa [isUpper_eq] using h

/-- `Char.toUpper` leaves every character that is no lower-case letter. -/
theorem toUpper_eq_of_not_isLower {c : Char} (h : c.isLower = false) : c.toUpper = c := by
  unfold Char.toUpper
  rw [dif_neg]
  simpa [isLower_eq] using h

/-- `Char.toUpper` gives a character that is no upper-case letter for itself only. -/
theorem toUpper_ne {c d : Char} (hd : d.isUpper = false) (h : c ≠ d) : c.toUpper ≠ d := by
  cases hl : c.isLower with
  | false => rwa [toUpper_eq_of_not_isLower hl]
  | true =>
    have hc : c.toNat < 128 := toNat_lt_of_isAlphanum (isAlphanum_of_isLower hl)
    have hupper : c.toUpper.isUpper = true := by
      revert hl
      exact ascii_induction (P := fun c => c.isLower = true → c.toUpper.isUpper = true) (by decide) hc
    rintro rfl
    rw [hupper] at hd
    cases hd

/-- A letter or digit is no underscore. -/
theorem ne_underscore_of_isAlphanum {c : Char} (h : c.isAlphanum = true) : c ≠ '_' := by
  rintro rfl
  exact absurd h (by decide)

/-- A lower-case letter is no underscore. -/
theorem ne_underscore_of_isLower {c : Char} (h : c.isLower = true) : c ≠ '_' :=
  ne_underscore_of_isAlphanum (isAlphanum_of_isLower h)

/-- What starts an identifier and is no underscore is a letter. -/
theorem isAlpha_of_isIdentifierStart {c : Char} (h : isIdentifierStart c = true) (hc : c ≠ '_') :
    c.isAlpha = true := by
  rw [isIdentifierStart, Bool.or_eq_true, beq_iff_eq] at h
  exact h.resolve_right hc

/-- What continues an identifier and is no underscore is a letter or digit. -/
theorem isAlphanum_of_isIdentifierRest {c : Char} (h : isIdentifierRest c = true) (hc : c ≠ '_') :
    c.isAlphanum = true := by
  rw [isIdentifierRest, Bool.or_eq_true, beq_iff_eq] at h
  exact h.resolve_right hc

/-! ## Record keys -/

/-- A lower-case letter, then letters and digits. -/
def isRecordKeyChars : List Char → Bool
  | [] => false
  | c :: rest => c.isLower && rest.all Char.isAlphanum

/-- Is the text a lower-case ASCII letter, followed by ASCII letters and digits? -/
def isRecordKey (text : String) : Bool := isRecordKeyChars text.toList

/-- `lowerCamelChars` leaves no underscore. -/
theorem underscore_not_mem_lowerCamelChars (raise : Bool) (cs : List Char) :
    '_' ∉ lowerCamelChars raise cs := by
  induction cs generalizing raise with
  | nil => simp [lowerCamelChars]
  | cons c rest ih =>
    unfold lowerCamelChars
    split
    · exact ih true
    · rename_i hc
      rw [List.mem_cons, not_or]
      refine ⟨?_, ih false⟩
      cases raise with
      | false => simpa using Ne.symm hc
      | true => simpa using Ne.symm (toUpper_ne (by decide) hc)

/-- `lowerCamelChars` gives no new characters but upper-case letters. -/
theorem mem_of_mem_lowerCamelChars {c : Char} (hc : c.isUpper = false) {raise : Bool} {cs : List Char}
    (h : c ∈ lowerCamelChars raise cs) : c ∈ cs := by
  induction cs generalizing raise with
  | nil => exact h
  | cons d rest ih =>
    rw [lowerCamelChars] at h
    split at h
    · exact List.mem_cons_of_mem _ (ih h)
    · rcases List.mem_cons.mp h with heq | hrest
      · by_contra hmem
        have hne : d ≠ c := fun h => hmem (h ▸ List.mem_cons_self)
        cases raise with
        | false => exact hne heq.symm
        | true => exact toUpper_ne hc hne heq.symm
      · exact List.mem_cons_of_mem _ (ih hrest)

/-- `lowerCamelChars` undoes `underscored` on letters and digits. -/
theorem lowerCamelChars_underscored {cs : List Char} (h : cs.all Char.isAlphanum = true) :
    lowerCamelChars false (underscored cs) = cs := by
  induction cs with
  | nil => rfl
  | cons c rest ih =>
    simp only [List.all_cons, Bool.and_eq_true] at h
    have hne := ne_underscore_of_isAlphanum h.1
    cases hu : c.isUpper with
    | false => simp [underscored, hu, lowerCamelChars, hne, ih h.2]
    | true =>
      have hlow : c.toLower ≠ '_' := ne_underscore_of_isLower (isLower_toLower_of_isUpper hu)
      simp [underscored, hu, lowerCamelChars, hlow, toUpper_toLower_of_isUpper hu, ih h.2]

/-- A lower-case letter is not upper-case. -/
theorem isUpper_eq_false_of_isLower {c : Char} (h : c.isLower = true) : c.isUpper = false := by
  have hc : c.toNat < 128 := toNat_lt_of_isAlphanum (isAlphanum_of_isLower h)
  revert h
  exact ascii_induction (P := fun c => c.isLower = true → c.isUpper = false) (by decide) hc

/-- `lowerCamel` undoes `snakeCase` on record keys. -/
theorem lowerCamel_snakeCase {key : String} (h : isRecordKey key = true) :
    lowerCamel (snakeCase key) = key := by
  unfold isRecordKey at h
  rw [lowerCamel, snakeCase, String.toList_ofList, ← String.toList_inj, String.toList_ofList]
  cases hk : key.toList with
  | nil => simp [hk, isRecordKeyChars] at h
  | cons c rest =>
    simp only [hk, isRecordKeyChars, Bool.and_eq_true] at h
    have hne : c ≠ '_' := ne_underscore_of_isLower h.1
    rw [snakeCaseChars, toLower_eq_of_not_isUpper (isUpper_eq_false_of_isLower h.1)]
    simp [lowerCamelChars, hne, lowerCamelChars_underscored h.2]

/-- `snakeCase` gives different forms to different record keys. -/
theorem snakeCase_injective {a b : String} (ha : isRecordKey a = true) (hb : isRecordKey b = true)
    (h : snakeCase a = snakeCase b) : a = b := by
  rw [← lowerCamel_snakeCase ha, ← lowerCamel_snakeCase hb, h]

/-- `lowerCamelChars` leaves characters without underscores as they are. -/
theorem lowerCamelChars_eq_self {cs : List Char} (h : '_' ∉ cs) : lowerCamelChars false cs = cs := by
  induction cs with
  | nil => rfl
  | cons c rest ih =>
    rw [List.mem_cons, not_or] at h
    rw [lowerCamelChars, if_neg (Ne.symm h.1), if_neg Bool.false_ne_true, ih h.2]

/-- If the `snakeCase` form of a record key is a record key, then it is the same key. -/
theorem eq_of_snakeCase_eq {key other : String} (hkey : isRecordKey key = true)
    (hother : isRecordKey other = true) (h : snakeCase key = other) : key = other := by
  have hmem : '_' ∉ other.toList := by
    rw [← lowerCamel_snakeCase hother, lowerCamel, String.toList_ofList]
    exact underscore_not_mem_lowerCamelChars false _
  rw [← lowerCamel_snakeCase hkey, h, lowerCamel, lowerCamelChars_eq_self hmem, String.ofList_toList]

/-- A record key is an identifier. -/
theorem isIdentifier_of_isRecordKey {key : String} (h : isRecordKey key = true) :
    isIdentifier key = true := by
  unfold isRecordKey at h
  unfold isIdentifier
  cases hk : key.toList with
  | nil => simp [hk, isRecordKeyChars] at h
  | cons c rest =>
    simp only [hk, isRecordKeyChars, Bool.and_eq_true, List.all_eq_true] at h
    simp only [isIdentifierChars, Bool.and_eq_true, List.all_eq_true]
    refine ⟨by simp [isIdentifierStart, isAlpha_eq, h.1], fun x hx => ?_⟩
    simp [isIdentifierRest, h.2 x hx]

/-- An identifier that `lowerCamel` gives back from its `snakeCase` form is a record key. -/
theorem isRecordKey_of_lowerCamel_snakeCase {name : String} (hi : isIdentifier name = true)
    (h : lowerCamel (snakeCase name) = name) : isRecordKey name = true := by
  have hmem : '_' ∉ name.toList := by
    rw [← h, lowerCamel, String.toList_ofList]
    exact underscore_not_mem_lowerCamelChars false _
  rw [lowerCamel, snakeCase, String.toList_ofList, ← String.toList_inj, String.toList_ofList] at h
  unfold isIdentifier at hi
  unfold isRecordKey
  cases hk : name.toList with
  | nil => simp [hk, isIdentifierChars] at hi
  | cons c rest =>
    rw [hk] at h hi hmem
    simp only [isIdentifierChars, Bool.and_eq_true, List.all_eq_true] at hi
    simp only [List.mem_cons, not_or] at hmem
    have hstart := isAlpha_of_isIdentifierStart hi.1 (Ne.symm hmem.1)
    -- The snake-case form puts the first character in lower case, and nothing raises it again.
    have hlow : c.isLower = true := by
      by_contra hnot
      have hu : c.isUpper = true := by
        simpa [isAlpha_eq, hnot] using hstart
      have hll := isLower_toLower_of_isUpper hu
      have hne : c.toLower ≠ '_' := ne_underscore_of_isLower hll
      simp only [snakeCaseChars, lowerCamelChars, hne, if_false, Bool.false_eq_true,
        List.cons.injEq] at h
      rw [h.1] at hll
      exact hnot hll
    simp only [isRecordKeyChars, hlow, Bool.true_and, List.all_eq_true]
    intro x hx
    refine isAlphanum_of_isIdentifierRest (hi.2 x hx) ?_
    rintro rfl
    exact hmem.2 hx

/-- `nameFault?` finds no fault exactly with record keys. -/
theorem nameFault?_eq_none_iff (name : String) :
    Catalog.nameFault? name = none ↔ isRecordKey name = true := by
  unfold Catalog.nameFault?
  constructor
  · intro h
    cases hi : isIdentifier name with
    | false => simp [hi] at h
    | true =>
      by_cases hk : lowerCamel (snakeCase name) = name
      · exact isRecordKey_of_lowerCamel_snakeCase hi hk
      · simp [hi, hk] at h
  · intro h
    simp [isIdentifier_of_isRecordKey h, lowerCamel_snakeCase h]

/-! ## Field names -/

/-- `underscored` gives characters that continue an identifier, from such characters. -/
theorem isIdentifierRest_of_mem_underscored {cs : List Char} (h : ∀ c ∈ cs, isIdentifierRest c = true) :
    ∀ c ∈ underscored cs, isIdentifierRest c = true := by
  induction cs with
  | nil => simp [underscored]
  | cons c rest ih =>
    rw [List.forall_mem_cons] at h
    rw [underscored]
    cases hu : c.isUpper with
    | false =>
      rw [if_neg Bool.false_ne_true, List.forall_mem_cons]
      exact ⟨h.1, ih h.2⟩
    | true =>
      have hlower : isIdentifierRest c.toLower = true := by
        simp [isIdentifierRest, isAlphanum_of_isLower (isLower_toLower_of_isUpper hu)]
      rw [if_pos rfl, List.forall_mem_cons, List.forall_mem_cons]
      exact ⟨by decide, hlower, ih h.2⟩

/-- The `snakeCase` form of a record key is an identifier. -/
theorem isIdentifier_snakeCase {key : String} (h : isRecordKey key = true) :
    isIdentifier (snakeCase key) = true := by
  have hi := isIdentifier_of_isRecordKey h
  unfold isRecordKey at h
  rw [isIdentifier] at hi
  rw [isIdentifier, snakeCase, String.toList_ofList]
  cases hk : key.toList with
  | nil => simp [hk, isRecordKeyChars] at h
  | cons c rest =>
    rw [hk, isRecordKeyChars, Bool.and_eq_true] at h
    rw [hk, isIdentifierChars, Bool.and_eq_true, List.all_eq_true] at hi
    rw [snakeCaseChars, toLower_eq_of_not_isUpper (isUpper_eq_false_of_isLower h.1), isIdentifierChars,
      Bool.and_eq_true, List.all_eq_true]
    exact ⟨hi.1, isIdentifierRest_of_mem_underscored hi.2⟩

/-- A lower-case form is its own lower-case form. -/
theorem toLower_toLower (c : Char) : c.toLower.toLower = c.toLower := by
  cases hu : c.isUpper with
  | false => rw [toLower_eq_of_not_isUpper hu, toLower_eq_of_not_isUpper hu]
  | true =>
    exact toLower_eq_of_not_isUpper (isUpper_eq_false_of_isLower (isLower_toLower_of_isUpper hu))

/-- Folding drops the underscores that `underscored` adds, and the case of the letters. -/
theorem folded_underscored {cs : List Char} (h : cs.all Char.isAlphanum = true) :
    ((underscored cs).filter (· != '_')).map Char.toLower = cs.map Char.toLower := by
  induction cs with
  | nil => rfl
  | cons c rest ih =>
    simp only [List.all_cons, Bool.and_eq_true] at h
    have hne := ne_underscore_of_isAlphanum h.1
    cases hu : c.isUpper with
    | false => simp [underscored, hu, hne, ih h.2]
    | true =>
      have hlow : c.toLower ≠ '_' := ne_underscore_of_isLower (isLower_toLower_of_isUpper hu)
      rw [underscored, if_pos hu, List.filter_cons_of_neg (by decide),
        List.filter_cons_of_pos (by simpa using hlow), List.map_cons, List.map_cons, ih h.2, toLower_toLower]

/-- The characters of a key in lower case. -/
def lowerCase (key : String) : List Char := key.toList.map Char.toLower

/-- `foldedName` of the `snakeCase` form of a record key is the key in lower case. -/
theorem foldedName_snakeCase {key : String} (h : isRecordKey key = true) :
    Schema.foldedName (snakeCase key) = lowerCase key := by
  unfold isRecordKey at h
  rw [Schema.foldedName, snakeCase, String.toList_ofList, lowerCase]
  cases hk : key.toList with
  | nil => rfl
  | cons c rest =>
    simp only [hk, isRecordKeyChars, Bool.and_eq_true] at h
    have hne : c ≠ '_' := ne_underscore_of_isLower h.1
    rw [snakeCaseChars, toLower_eq_of_not_isUpper (isUpper_eq_false_of_isLower h.1)]
    simp [hne, folded_underscored h.2]

/-! ## Message names -/

/-- The longest stem of a message name, 25 bytes: with `messageSuffix` behind it there are 32. -/
def maxStemBytes : Nat := 25

/-- A text that is not empty is an identifier exactly if it is one with `messageSuffix` behind it. -/
theorem isIdentifier_append_messageSuffix {stem : String} (h : stem ≠ "") :
    isIdentifier (stem ++ messageSuffix) = isIdentifier stem := by
  unfold isIdentifier
  rw [String.toList_append]
  cases hs : stem.toList with
  | nil => exact absurd (String.toList_eq_nil_iff.mp hs) h
  | cons c rest =>
    have hm : messageSuffix.toList.all isIdentifierRest = true := by decide
    simp [isIdentifierChars, List.all_append, hm]

/-- A text makes a message name with `messageSuffix` behind it exactly if it is an identifier of at most
`maxStemBytes` bytes. -/
theorem isMessageName_append_messageSuffix (stem : String) :
    isMessageName (stem ++ messageSuffix) = true ↔
      isIdentifier stem = true ∧ stem.utf8ByteSize ≤ maxStemBytes := by
  have hsize : (stem ++ messageSuffix).utf8ByteSize = stem.utf8ByteSize + 7 := by
    rw [String.utf8ByteSize_append]
    rfl
  have hmax : maxMessageNameBytes = 32 := rfl
  have hstem : maxStemBytes = 25 := rfl
  unfold isMessageName
  by_cases hs : stem = ""
  · subst hs
    decide
  · have hbase : stem ++ messageSuffix ≠ baseMessage := by
      intro h
      have := congrArg String.utf8ByteSize h
      rw [hsize] at this
      have hb : baseMessage.utf8ByteSize = 7 := rfl
      have : stem.utf8ByteSize = 0 := by omega
      exact hs (String.utf8ByteSize_eq_zero_iff.mp this)
    rw [isIdentifier_append_messageSuffix hs, hsize]
    simp only [Bool.and_eq_true, decide_eq_true_eq, bne_iff_ne, ne_eq, hbase, not_false_eq_true,
      and_true]
    constructor
    · rintro ⟨h1, h2⟩
      exact ⟨h2, by omega⟩
    · rintro ⟨h1, h2⟩
      exact ⟨by omega, h1⟩

/-- `MessageName.ofText` gives the name with this text, and no other. -/
theorem ofText_eq_ok_iff {text : String} {name : MessageName} :
    MessageName.ofText text = .ok name ↔ name.text = text := by
  unfold MessageName.ofText
  constructor
  · intro h
    split at h
    · cases h
      rfl
    · split at h
      · cases h
      · split at h <;> cases h
  · rintro rfl
    rw [dif_pos name.wellFormed]

/-- `MessageName.ofId` gives the name whose text is the stem of the identity followed by `messageSuffix`, and no
other. -/
theorem ofId_eq_ok_iff {id : RecordId} {name : MessageName} :
    MessageName.ofId id = .ok name ↔ name.text = MessageName.stem id ++ messageSuffix :=
  ofText_eq_ok_iff

/-- `MessageName.ofId` names an identity exactly if its stem is an identifier of at most `maxStemBytes`
bytes. -/
theorem exists_ofId_eq_ok_iff (id : RecordId) :
    (∃ name, MessageName.ofId id = .ok name) ↔
      isIdentifier (MessageName.stem id) = true ∧
        (MessageName.stem id).utf8ByteSize ≤ maxStemBytes := by
  rw [← isMessageName_append_messageSuffix]
  constructor
  · rintro ⟨name, h⟩
    rw [← ofId_eq_ok_iff.mp h]
    exact name.wellFormed
  · intro h
    exact ⟨⟨_, h⟩, ofId_eq_ok_iff.mpr rfl⟩

end Tagwire
