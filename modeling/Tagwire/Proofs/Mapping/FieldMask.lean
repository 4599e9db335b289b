import Tagwire.Proofs.Mapping.Flat
import Tagwire.Proofs.Naming

/-!
# Field masks come back

The text of a field mask lists its paths in the case of record keys, without underscores, and with commas between
them.  Each piece between two commas is read as a path that has this piece for its text; only a piece without
characters is passed over.  A text without such gaps is that of the paths that are read from it.
-/

set_option autoImplicit false

namespace Tagwire

namespace FieldMask

/-! ## Paths -/

/-- A path that `toCamelCase` writes has no underscore. -/
theorem underscore_not_mem_of_toCamelCase {path cased : List Char} (h : toCamelCase path = some cased) :
    '_' ∉ cased := by
  induction path using toCamelCase.induct generalizing cased with
  | case1 =>
    cases h
    exact List.not_mem_nil
  | case2 c rest hlower ih =>
    rw [toCamelCase, if_pos hlower] at h
    obtain ⟨others, hothers, rfl⟩ := Option.map_eq_some_iff.mp h
    rw [List.mem_cons, not_or]
    refine ⟨fun heq => ?_, ih hothers⟩
    have hne : c ≠ '_' := by
      rintro rfl
      cases hlower
    exact toUpper_ne (by decide) hne heq.symm
  | case3 c rest hlower =>
    rw [toCamelCase, if_neg hlower] at h
    cases h
  | case4 c rest hshape hbad =>
    rw [toCamelCase, if_pos hbad] at h
    · cases h
    · exact hshape
  | case5 c rest hshape hgood ih =>
    rw [toCamelCase, if_neg hgood] at h
    · obtain ⟨others, hothers, rfl⟩ := Option.map_eq_some_iff.mp h
      rw [List.mem_cons, not_or]
      exact ⟨fun heq => hgood (.inl heq.symm), ih hothers⟩
    · exact hshape

/-- Characters without an underscore are what `toCamelCase` writes for the path that `toSnakeCase` makes of
them, which has at most twice as many characters. -/
theorem exists_toSnakeCase {cased : List Char} (h : '_' ∉ cased) :
    ∃ path, toSnakeCase cased = some path ∧ toCamelCase path = some cased ∧ path.length ≤ 2 * cased.length := by
  induction cased with
  | nil => exact ⟨[], rfl, rfl, Nat.le_refl _⟩
  | cons c rest ih =>
    rw [List.mem_cons, not_or] at h
    obtain ⟨path, hpath, hback, hlength⟩ := ih h.2
    rw [toSnakeCase, if_neg (Ne.symm h.1), hpath, Option.map_some]
    cases hupper : c.isUpper with
    | true =>
      refine ⟨'_' :: c.toLower :: path, by rw [if_pos rfl], ?_, ?_⟩
      · rw [toCamelCase, if_pos (isLower_toLower_of_isUpper hupper), hback, Option.map_some,
          toUpper_toLower_of_isUpper hupper]
      · rw [List.length_cons, List.length_cons, List.length_cons]
        omega
    | false =>
      refine ⟨c :: path, by rw [if_neg Bool.false_ne_true], ?_, ?_⟩
      · rw [toCamelCase, if_neg (by rw [hupper]; simpa using Ne.symm h.1), hback, Option.map_some]
        rintro _ _ heq
        exact absurd heq.symm h.1
      · rw [List.length_cons, List.length_cons]
        omega

/-! ## Lists of paths -/

/-- A character of `join listed paths` is a comma or stands in `listed` or in one of the paths. -/
theorem mem_join {c : Char} {listed : List Char} {paths : List (List Char)} (h : c ∈ join listed paths) :
    c ∈ listed ∨ c = ',' ∨ ∃ path ∈ paths, c ∈ path := by
  induction paths generalizing listed with
  | nil => exact .inl h
  | cons path rest ih =>
    rw [join] at h
    rcases ih h with hlisted | hcomma | ⟨other, hother, hc⟩
    · split at hlisted
      · exact .inr (.inr ⟨path, List.mem_cons_self, hlisted⟩)
      · rw [List.mem_append, List.mem_cons] at hlisted
        exact hlisted.imp_right (Or.imp_right fun hc => ⟨path, List.mem_cons_self, hc⟩)
    · exact .inr (.inl hcomma)
    · exact .inr (.inr ⟨other, List.mem_cons_of_mem _ hother, hc⟩)

/-- Behind characters that are already `listed`, `join` puts a comma before each path. -/
theorem join_eq_intercalate_cons {listed : List Char} (h : listed ≠ []) (paths : List (List Char)) :
    join listed paths = [','].intercalate (listed :: paths) := by
  induction paths generalizing listed with
  | nil => rw [join, List.intercalate_singleton]
  | cons path rest ih =>
    have hempty : listed.isEmpty = false := by simpa using h
    have hne : listed ++ ',' :: path ≠ [] := by simp
    rw [join, hempty, if_neg Bool.false_ne_true, ih hne]
    cases rest with
    | nil => simp [List.intercalate_cons_cons]
    | cons other more => simp [List.intercalate_cons_cons]

/-- For paths none of which is empty, `join` puts commas between them. -/
theorem join_eq_intercalate {paths : List (List Char)} (h : [] ∉ paths) :
    join [] paths = [','].intercalate paths := by
  cases paths with
  | nil => rfl
  | cons path rest =>
    have hpath : path ≠ [] := by
      rintro rfl
      exact h List.mem_cons_self
    rw [join, List.isEmpty_nil, if_pos rfl, join_eq_intercalate_cons hpath]

/-- The length of pieces with commas between them: the sum of their lengths and one less than their number. -/
theorem length_intercalate (piece : List Char) (rest : List (List Char)) :
    ([','].intercalate (piece :: rest)).length =
      ((piece :: rest).map List.length).sum + rest.length := by
  induction rest generalizing piece with
  | nil => simp
  | cons other more ih =>
    rw [List.intercalate_cons_cons, List.length_append, List.length_append, ih]
    simp only [List.map_cons, List.sum_cons, List.length_cons, List.length_nil]
    omega

/-- The characters of a piece are among those of the pieces with commas between them. -/
theorem mem_intercalate {c : Char} {pieces : List (List Char)} {piece : List Char} (h : piece ∈ pieces)
    (hc : c ∈ piece) : c ∈ [','].intercalate pieces := by
  induction pieces with
  | nil => cases h
  | cons first rest ih =>
    cases rest with
    | nil => rwa [List.intercalate_singleton, ← List.mem_singleton.mp h]
    | cons other more =>
      rw [List.intercalate_cons_cons, List.mem_append, List.mem_append]
      rcases List.mem_cons.mp h with rfl | hrest
      · exact .inl (.inl hc)
      · exact .inr (ih hrest)

/-- Pieces without an underscore are what `toCamelCase` writes for as many paths, which have in sum at most
twice as many characters. -/
theorem exists_mapM_toSnakeCase {pieces : List (List Char)} (h : ∀ piece ∈ pieces, '_' ∉ piece) :
    ∃ paths : List String, (pieces.mapM fun piece => (toSnakeCase piece).map String.ofList) = some paths ∧
      (paths.mapM fun path => toCamelCase path.toList) = some pieces ∧ paths.length = pieces.length ∧
      (paths.map String.length).sum ≤ 2 * (pieces.map List.length).sum := by
  induction pieces with
  | nil => exact ⟨[], rfl, rfl, rfl, Nat.le_refl _⟩
  | cons piece rest ih =>
    obtain ⟨path, hpath, hback, hlength⟩ := exists_toSnakeCase (h piece List.mem_cons_self)
    obtain ⟨paths, hpaths, hbacks, hcount, hlengths⟩ := ih fun p hp => h p (List.mem_cons_of_mem _ hp)
    refine ⟨String.ofList path :: paths, ?_, ?_, ?_, ?_⟩
    · rw [List.mapM_cons, hpath, hpaths]
      rfl
    · rw [List.mapM_cons, String.toList_ofList, hback, hbacks]
      rfl
    · rw [List.length_cons, List.length_cons, hcount]
    · rw [List.map_cons, List.map_cons, List.sum_cons, List.sum_cons, String.length_ofList]
      omega

/-- A text that `text?` writes without an empty piece is read by `ofText?` as paths that have the same text. -/
theorem exists_ofText? {paths : List String} {text : String} (h : text? paths = some text)
    (hgaps : text = "" ∨ [] ∉ text.toList.splitOn ',') :
    ∃ again, ofText? text = some again ∧ text? again = some text ∧
      again.length ≤ text.length + 1 ∧ (again.map String.length).sum ≤ 2 * text.length := by
  rcases hgaps with rfl | hgaps
  · exact ⟨[], rfl, rfl, Nat.zero_le _, Nat.zero_le _⟩
  obtain ⟨cased, hcased, rfl⟩ := Option.map_eq_some_iff.mp h
  rw [String.toList_ofList] at hgaps
  have hwhole : [','].intercalate ((join [] cased).splitOn ',') = join [] cased := List.intercalate_splitOn ','
  have hunderscore : ∀ piece ∈ (join [] cased).splitOn ',', '_' ∉ piece := by
    intro piece hpiece hmem
    rcases mem_join (hwhole ▸ mem_intercalate hpiece hmem) with hnil | hcomma | ⟨path, hpath, hmem⟩
    · cases hnil
    · cases hcomma
    · obtain ⟨own, -, hown⟩ := exists_of_mem_mapM hcased hpath
      exact underscore_not_mem_of_toCamelCase hown hmem
  obtain ⟨again, hagain, hback, hcount, hlengths⟩ := exists_mapM_toSnakeCase hunderscore
  have hfilter : ((join [] cased).splitOn ',').filter (fun path => !path.isEmpty) =
      (join [] cased).splitOn ',' := by
    rw [List.filter_eq_self]
    intro piece hpiece
    cases piece with
    | nil => exact absurd hpiece hgaps
    | cons c rest => rfl
  refine ⟨again, ?_, ?_, ?_⟩
  · rw [ofText?, String.toList_ofList, hfilter, hagain]
  · rw [text?, hback, Option.map_some, join_eq_intercalate hgaps, hwhole]
  · rw [String.length_ofList]
    cases hsplit : (join [] cased).splitOn ',' with
    | nil => exact absurd hsplit (List.splitOn_ne_nil _ _)
    | cons piece rest =>
      have hlength := length_intercalate piece rest
      rw [← hsplit, hwhole] at hlength
      rw [hsplit, List.length_cons] at hcount
      rw [hsplit] at hlengths hlength
      omega

end FieldMask

namespace SpecialForm

open Schema

/-- The field `paths`, number 1, of a `FieldMask`. -/
def pathsField : MessageField :=
  { name := "paths", jsonName := "paths", number := 1, type := .scalar .string, shape := .list
    default := .list [] }

/-- A list of paths takes at most 20 bytes for each path and 4 for each of their characters. -/
theorem length_encodeField_pathsField_le {paths : List String}
    (hsize : (paths.map String.length).sum < 2 ^ 60) :
    (layouts.encodeField pathsField (.list (paths.map .string))).length ≤
      20 * paths.length + 4 * (paths.map String.length).sum := by
  have hwired : pathsField.IsWired := fieldMask.isWired_layout.wired _ List.mem_cons_self
  rw [encodeField]
  split
  · exact Nat.zero_le _
  · rename_i homits
    clear homits
    show (layouts.encodeItems pathsField _).length ≤ _
    rw [encodeItems_eq_flatMap]
    induction paths with
    | nil => exact Nat.zero_le _
    | cons path rest ih =>
      rw [List.map_cons, List.sum_cons] at hsize
      have hbytes := Bytes.length_ofString_le path
      have hprefixed : (lengthPrefixed (Bytes.ofString path)).length ≤ _ :=
        length_lengthPrefixed_le (by omega)
      have hkey := hwired.length_key_le Scalar.string.wireType
      have hitem : layouts.encodeField pathsField (.string path) =
          pathsField.key Scalar.string.wireType ++ lengthPrefixed (Bytes.ofString path) :=
        encodeField_scalar rfl rfl
      have hrest := ih (by omega)
      rw [List.map_cons, List.flatMap_cons, hitem, List.length_append, List.length_append, List.length_cons,
        List.map_cons, List.sum_cons]
      omega

/-- All paths of a `FieldMask` are kept, the empty ones included. -/
theorem textsAt_kept_paths (paths : List String) :
    textsAt (layouts.kept fieldMask.layout [(1, .list (paths.map .string))]) 1 = paths := by
  have hnodup : (([(1, .list (paths.map .string))] : FieldValues).map Prod.fst).Nodup := List.nodup_singleton 1
  have hkept : layouts.keptValue (.scalar .string) (.list (paths.map .string)) = .list (paths.map .string) := by
    rw [keptValue, keptItems_eq_map, List.map_map]
    exact congrArg Value.list (List.map_congr_left fun path _ => keptValue_scalar _ rfl)
  have hget : FieldValues.get? (layouts.kept fieldMask.layout [(1, .list (paths.map .string))]) 1 =
      if pathsField.omits (.list (paths.map .string)) then none else some (.list (paths.map .string)) := by
    rw [get?_kept hnodup]
    show (if pathsField.omits _ then none else some (layouts.keptValue (.scalar .string) _)) = _
    rw [hkept]
  rw [textsAt, hget]
  cases paths with
  | nil => rfl
  | cons path rest =>
    show List.filterMap _ ((path :: rest).map Value.string) = _
    rw [List.filterMap_map]
    exact List.filterMap_some

/-- The text that a `FieldMask` shows is read as fields that show it again, if it has no empty path and its size
is below `2 ^ 56`. -/
theorem exists_returns_fieldMask {g : Binary64 → Binary64} {values : FieldValues}
    (hgaps : ∀ text, FieldMask.text? (textsAt values 1) = some text →
      text = "" ∨ [] ∉ text.toList.splitOn ',')
    {json : Json} (hjson : fieldMask.toJson? values = some json) (hsize : json.size < 2 ^ 56) :
    ∃ laidOut, fieldMask.Returns g json laidOut := by
  obtain ⟨text, htext, rfl⟩ := Option.map_eq_some_iff.mp hjson
  obtain ⟨again, hread, hback, hcount, hlengths⟩ := FieldMask.exists_ofText? htext (hgaps text htext)
  have hitems : ∀ item ∈ again.map Value.string, Scalar.string.Holds item := by
    intro item hitem
    obtain ⟨path, -, rfl⟩ := List.mem_map.mp hitem
    exact ⟨path, rfl⟩
  refine ⟨[(1, .list (again.map .string))], ?_, ?_, ?_, ?_⟩
  · show (FieldMask.ofText? text).map _ = _
    rw [hread, Option.map_some]
  · exact MessageType.holds_singleton (f := pathsField) rfl (.list fun item hitem => .scalar rfl (hitems item hitem))
  · have hchars : (Json.str text).size = text.length + 1 := rfl
    have hlength := length_encodeField_pathsField_le (show (again.map String.length).sum < 2 ^ 60 by omega)
    rw [encode_singleton (f := pathsField) rfl]
    omega
  · rw [toJson?, textsAt_kept_paths, hback]
    rfl

end SpecialForm

end Tagwire
