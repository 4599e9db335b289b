import Tagwire.Proofs.Schema.Compiled
import Tagwire.Proofs.Schema.Formed
import Tagwire.Proofs.Wire.Typing

/-!
# Loaded schemas on the wire

Whatever documents a schema has been loaded from, it is typed.  Every name in the documents leads to a
declaration in one of them, which is linked as well, and behind every map stands the message of its entries.
What a document gives as the default of a field is a value of the field, and where a default is not told from
nothing, none can be given.
-/

set_option autoImplicit false

namespace Tagwire

open Schema

namespace Schema

/-! ## Types -/

namespace Visible

variable {visible : Visible} {scope : String}

/-- A name that `resolve?` gives has the property that was asked for. -/
theorem of_resolve? {isMeant : String → Bool} {path name : String}
    (h : visible.resolve? isMeant scope path = some name) : isMeant name = true := by
  have hmeant : ∀ {n}, (if isMeant n then some n else none) = some name → isMeant name = true := by
    intro n hn
    obtain ⟨htrue, heq⟩ := Option.ite_none_right_eq_some.mp hn
    cases heq
    exact htrue
  unfold resolve? at h
  dsimp only at h
  split at h
  · exact hmeant h
  · exact List.find?_some h
  · obtain ⟨s, -, hs⟩ := Option.bind_eq_some_iff.mp h
    exact hmeant hs
  · cases h

/-- A type that `type?` gives is a visible message or a visible enumeration, unless it is a scalar. -/
theorem of_type? {reference : TypeReference} {type : ValueType}
    (h : visible.type? scope reference = some type) :
    (∀ name, type = .message name → visible.isMessage name = true) ∧
      ∀ name, type = .enum name → (visible.enum? name).isSome = true := by
  cases reference with
  | scalar kind =>
    cases h
    exact ⟨nofun, nofun⟩
  | named path =>
    obtain ⟨name, hname, h⟩ := Option.bind_eq_some_iff.mp h
    have hmeant := of_resolve? hname
    cases hm : visible.isMessage name with
    | true =>
      rw [hm, if_pos rfl] at h
      cases h
      exact ⟨fun _ heq => by cases heq; exact hm, nofun⟩
    | false =>
      rw [hm, if_neg Bool.false_ne_true] at h
      cases h
      rw [hm, Bool.false_or] at hmeant
      exact ⟨nofun, fun _ heq => by cases heq; exact hmeant⟩

/-- For the full name of a visible message with a leading dot, `type?` gives this message. -/
theorem type?_named {name : String} (h : visible.isMessage name = true) :
    visible.type? scope (.named ("." ++ name)) = some (.message name) := by
  have hsplit : ("." ++ name).toList.splitOn '.' = [] :: name.toList.splitOn '.' := by
    rw [String.toList_append]
    exact List.splitOn_append_cons_self [] _
  have hdrop : String.ofList (("." ++ name).toList.drop 1) = name := by
    rw [String.toList_append]
    exact String.ofList_toList
  have hresolve : visible.resolve? (fun n => visible.isMessage n || (visible.enum? n).isSome) scope
      ("." ++ name) = some name := by
    unfold resolve?
    rw [hsplit]
    dsimp only
    rw [hdrop]
    exact if_pos (by rw [h, Bool.true_or])
  unfold type?
  dsimp only
  rw [hresolve, Option.bind_eq_bind, Option.bind_some, h, if_pos rfl]
  rfl

end Visible

/-! ## Fields -/

namespace FieldDeclaration

variable {dialect : Dialect} {visible : Visible} {scope : String} {field : FieldDeclaration}

/-- If the visible enumerations are formed, `firstNumber` is an integer of 32 bits. -/
theorem bounds_firstNumber (henums : ∀ e ∈ visible.enums, e.IsFormed) (type : ValueType) :
    -(2 ^ 31) ≤ firstNumber visible type ∧ firstNumber visible type ≤ 2 ^ 31 - 1 := by
  unfold firstNumber
  split
  · split
    · rename_i hvalues
      obtain ⟨e, he, hvalues⟩ := Option.map_eq_some_iff.mp hvalues
      exact henums e (List.mem_of_find?_eq_some he) _ (hvalues ▸ List.mem_cons_self)
    · decide
  · decide

/-- A default that `defaultOf?` gives for a type with a scalar kind is of this kind. -/
theorem holds_of_defaultOf? (henums : ∀ e ∈ visible.enums, e.IsFormed) {type : ValueType} {kind : Scalar}
    {value : OptionValue} {default : Value} (hk : type.scalar? = some kind)
    (h : defaultOf? visible type value = some default) : kind.Holds default := by
  cases type with
  | message name => cases hk
  | enum name =>
    cases hk
    cases value with
    | word text =>
      obtain ⟨v, hv, rfl⟩ := Option.map_eq_some_iff.mp h
      obtain ⟨e, he, hv⟩ := Option.bind_eq_some_iff.mp hv
      exact ⟨_, rfl, henums e (List.mem_of_find?_eq_some he) v (List.mem_of_find?_eq_some hv)⟩
    | integer _ | decimal _ _ | text _ | aggregate => cases h
  | scalar own =>
    cases hk
    have hinteger : ∀ {low high n : Int}, (if low ≤ n ∧ n ≤ high then some (Value.int n) else none) =
        some default → ∃ n, default = .int n ∧ low ≤ n ∧ n ≤ high := by
      intro low high n h
      obtain ⟨hn, heq⟩ := Option.ite_none_right_eq_some.mp h
      cases heq
      exact ⟨n, rfl, hn⟩
    cases kind
    case int32 | int64 | uint32 | uint64 | sint32 | sint64 | fixed32 | fixed64 | sfixed32 | sfixed64 =>
      cases value with
      | integer n => exact hinteger h
      | word _ | decimal _ _ | text _ | aggregate => cases h
    case double | float =>
      obtain ⟨x, -, rfl⟩ := Option.map_eq_some_iff.mp h
      exact ⟨_, rfl⟩
    case boolean =>
      cases value with
      | word text =>
        rw [defaultOf?.eq_def] at h
        dsimp only at h
        split at h <;> first | cases h; exact ⟨_, rfl⟩ | contradiction
      | integer _ | decimal _ _ | text _ | aggregate => cases h
    case string =>
      cases value with
      | text bytes =>
        obtain ⟨text, -, rfl⟩ := Option.map_eq_some_iff.mp h
        exact ⟨text, rfl⟩
      | word _ | integer _ | decimal _ _ | aggregate => cases h
    case bytes =>
      cases value with
      | text bytes =>
        cases h
        exact ⟨bytes, rfl⟩
      | word _ | integer _ | decimal _ _ | aggregate => cases h

/-- The default of a single field is one that is set, in `proto2`, or the zero of its type. -/
theorem default?_single (hshape : field.shape = .single) {type : ValueType} {default : Value}
    (h : field.default? dialect visible type = some default) :
    (dialect = .proto2 ∧ ∃ value, defaultOf? visible type value = some default) ∨
      default = type.zero (firstNumber visible type) := by
  unfold default? at h
  rw [hshape] at h
  cases hsetting : settingOf? field.options "default" with
  | none =>
    rw [hsetting] at h
    cases h
    exact .inr rfl
  | some value =>
    rw [hsetting] at h
    obtain ⟨hdialect, hvalue⟩ := Option.ite_none_right_eq_some.mp h
    exact .inl ⟨hdialect, value, hvalue⟩

/-- The default of a list or a map is empty. -/
theorem default?_of_ne (hshape : field.shape ≠ .single) {type : ValueType} {default : Value}
    (h : field.default? dialect visible type = some default) : default = field.shape.zero type := by
  unfold default? at h
  cases hsetting : settingOf? field.options "default" <;> rw [hsetting] at h <;>
    cases hs : field.shape <;> rw [hs] at h hshape <;> first | contradiction | (cases h; rfl)

/-- A formed field links to a wired one. -/
theorem IsFormed.isWired_of_link? (hformed : field.IsFormed) (henums : ∀ e ∈ visible.enums, e.IsFormed)
    {linked : MessageField} (h : field.link? dialect visible scope = some linked) : linked.IsWired := by
  unfold link? at h
  obtain ⟨type, -, h⟩ := Option.bind_eq_some_iff.mp h
  obtain ⟨default, hdefault, h⟩ := Option.bind_eq_some_iff.mp h
  obtain ⟨-, h⟩ := Option.ite_none_right_eq_some.mp h
  cases h
  constructor
  case pos => exact hformed.1.1
  case lt => exact hformed.1.2
  case packed =>
    intro hpacked
    simp only [isPacked, Bool.and_eq_true, beq_iff_eq] at hpacked
    exact hpacked.1
  case zero => exact fun hshape => default?_of_ne hshape hdefault
  case presence =>
    intro hshape
    unfold hasPresence
    rw [beq_eq_false_iff_ne.mpr hshape]
    rfl
  case oneof => exact hformed.2.1
  case scalar =>
    intro hshape kind hk
    obtain ⟨-, value, hvalue⟩ | rfl := default?_single hshape hdefault
    · exact holds_of_defaultOf? henums hk hvalue
    · exact ValueType.holds_zero hk (bounds_firstNumber henums type)
  case message =>
    rintro hshape name rfl
    obtain ⟨-, value, hvalue⟩ | rfl := default?_single hshape hdefault
    · cases hvalue
    · rfl
  case omitted =>
    intro value hvalue homits
    rw [MessageField.omits, Bool.and_eq_true, Bool.not_eq_true'] at homits
    by_cases hshape : field.shape = .single
    · obtain ⟨rfl, -⟩ | rfl := default?_single hshape hdefault
      · -- The older dialect tells every single field from nothing.
        simp [hasPresence, hshape] at homits
      · exact ValueType.unsigned_eq_zero hvalue homits.2
    · rw [default?_of_ne hshape hdefault, FieldShape.isDefault_zero hshape hvalue] at homits
      exact absurd homits.2 Bool.false_ne_true

end FieldDeclaration

/-! ## Linked documents -/

section

variable {files : List SchemaFile} {file : SchemaFile} {schema : Schema}

/-- The files that a file among others sees are among these. -/
theorem mem_of_mem_visibleFiles (hf : file ∈ files) : ∀ g ∈ visibleFiles files file, g ∈ files := by
  have hclosure : ∀ fuel paths, ∀ g ∈ publicClosure files fuel paths, g ∈ files := by
    intro fuel
    induction fuel with
    | zero => simp [publicClosure]
    | succ fuel ih =>
      intro paths g hg
      rw [publicClosure, List.mem_flatMap] at hg
      obtain ⟨path, -, hg⟩ := hg
      split at hg
      · cases hg
      · rename_i found hfound
        rcases List.mem_cons.mp hg with rfl | hg
        · exact List.mem_of_find?_eq_some hfound
        · exact ih _ g hg
  intro g hg
  rcases List.mem_cons.mp hg with rfl | hg
  · exact hf
  · exact hclosure _ _ g hg

/-- In a schema that `ofFiles?` gives, each declared message is found under its name as what it links to, and
each declared enumeration is found. -/
theorem exists_link?_of_ofFiles? (h : ofFiles? files = some schema) (hf : file ∈ files) :
    (∀ m ∈ file.declarations.messages, ∃ type, schema.message? m.name = some type ∧
      m.link? file.dialect (Visible.ofFile files file) = some type) ∧
    ∀ e ∈ file.declarations.enums, (schema.enum? e.name).isSome = true ∧
      (e.link? file.dialect (Visible.ofFile files file)).isSome = true := by
  unfold ofFiles? at h
  obtain ⟨schemas, hschemas, h⟩ := Option.bind_eq_some_iff.mp h
  obtain ⟨hdistinct, h⟩ := Option.ite_none_right_eq_some.mp h
  cases h
  have hnames : ((schemas.flatMap Schema.messages).map Prod.fst).Nodup := by
    have hkeys := map_eq_map_of_mapM (g := fun s : Schema => s.messages.map Prod.fst)
      (k := fun f : SchemaFile => f.declarations.messages.map MessageDeclaration.name) hschemas
      fun f _ s hs => SchemaDocument.keys_of_link? hs
    rw [List.map_flatMap, List.flatMap_def, hkeys, ← List.flatMap_def]
    rw [areNamesDistinct, Bool.and_eq_true, decide_eq_true_eq] at hdistinct
    exact (SchemaDocument.messages_sublist_names files).nodup hdistinct.1
  obtain ⟨linked, hlinked, hlink⟩ := exists_mem_of_mapM hschemas hf
  unfold SchemaFile.link? at hlink
  obtain ⟨messages, hmessages, hlink⟩ := Option.bind_eq_some_iff.mp hlink
  obtain ⟨enums, henums, hlink⟩ := Option.bind_eq_some_iff.mp hlink
  obtain ⟨-, hlink⟩ := Option.ite_none_right_eq_some.mp hlink
  cases hlink
  refine ⟨fun m hm => ?_, fun e he => ?_⟩
  · obtain ⟨type, htype, hmlink⟩ := exists_mem_of_mapM hmessages hm
    refine ⟨type, ?_, hmlink⟩
    have hname := (MessageDeclaration.isLinked_of_link? hmlink).1
    have hmem : (m.name, type) ∈ schemas.flatMap Schema.messages :=
      List.mem_flatMap.mpr ⟨_, hlinked, List.mem_map.mpr ⟨type, htype, by rw [hname]⟩⟩
    rw [Schema.message?, Entries.get?_ofList hnames]
    exact Assoc.get?_eq_some_of_mem hnames hmem
  · obtain ⟨type, htype, helink⟩ := exists_mem_of_mapM henums he
    refine ⟨?_, by rw [helink]; rfl⟩
    have hname : type.name = e.name := by
      unfold EnumDeclaration.link? at helink
      obtain ⟨-, helink⟩ := Option.ite_none_right_eq_some.mp helink
      cases helink
      rfl
    have hmem : e.name ∈ (schemas.flatMap Schema.enums).map Prod.fst :=
      List.mem_map.mpr ⟨(e.name, type), List.mem_flatMap.mpr
        ⟨_, hlinked, List.mem_map.mpr ⟨type, htype, by rw [hname]⟩⟩, rfl⟩
    rw [Schema.enum?, Entries.get?_eq, Option.isSome_iff_ne_none, Ne, Assoc.get?_eq_none_iff, not_not]
    show e.name ∈ (Entries.ofList _).map Prod.fst
    rw [Entries.ofList, Entries.insertAll_eq, Assoc.mem_keys_insertAll]
    exact .inl hmem

/-- An enumeration that `ofFiles?` gives has the values of a declaration in one of the files. -/
theorem exists_declaration_of_enum? (h : ofFiles? files = some schema) {name : String} {enum : EnumType}
    (he : schema.enum? name = some enum) : ∃ file ∈ files, ∃ e ∈ file.declarations.enums,
      enum.values = e.values.map fun v => (v.name, v.number) := by
  unfold ofFiles? at h
  obtain ⟨schemas, hschemas, h⟩ := Option.bind_eq_some_iff.mp h
  obtain ⟨-, h⟩ := Option.ite_none_right_eq_some.mp h
  cases h
  have hentry : (name, enum) ∈ Entries.ofList (schemas.flatMap Schema.enums) :=
    Entries.mem_of_get?_eq_some he
  rw [Entries.ofList, Entries.insertAll_eq] at hentry
  have hmem := (Assoc.mem_of_mem_insertAll hentry).resolve_right (by simp)
  obtain ⟨linked, hlinked, hmem⟩ := List.mem_flatMap.mp hmem
  obtain ⟨file, hfile, hlink⟩ := exists_of_mem_mapM hschemas hlinked
  unfold SchemaFile.link? at hlink
  obtain ⟨messages, -, hlink⟩ := Option.bind_eq_some_iff.mp hlink
  obtain ⟨enums, henums, hlink⟩ := Option.bind_eq_some_iff.mp hlink
  obtain ⟨-, hlink⟩ := Option.ite_none_right_eq_some.mp hlink
  cases hlink
  obtain ⟨own, hown, heq⟩ := List.mem_map.mp hmem
  cases heq
  obtain ⟨e, hdeclared, helink⟩ := exists_of_mem_mapM henums hown
  obtain ⟨-, helink⟩ := Option.ite_none_right_eq_some.mp helink
  cases helink
  exact ⟨file, hfile, e, hdeclared, rfl⟩

/-- A message that one of the files sees is in the schema that `ofFiles?` gives. -/
theorem exists_message?_of_isMessage (h : ofFiles? files = some schema) (hf : file ∈ files) {name : String}
    (hm : (Visible.ofFile files file).isMessage name = true) : ∃ type, schema.message? name = some type := by
  obtain ⟨m, hm, hname⟩ := List.any_eq_true.mp hm
  obtain ⟨g, hg, hm⟩ := List.mem_flatMap.mp hm
  obtain ⟨type, htype, -⟩ := (exists_link?_of_ofFiles? h (mem_of_mem_visibleFiles hf g hg)).1 m hm
  exact ⟨type, beq_iff_eq.mp hname ▸ htype⟩

/-- An enumeration that one of the files sees is in the schema that `ofFiles?` gives. -/
theorem enum?_isSome_of_visible (h : ofFiles? files = some schema) (hf : file ∈ files) {name : String}
    (he : ((Visible.ofFile files file).enum? name).isSome = true) : (schema.enum? name).isSome = true := by
  obtain ⟨e, he, hname⟩ := List.find?_isSome.mp he
  obtain ⟨g, hg, he⟩ := List.mem_flatMap.mp he
  exact beq_iff_eq.mp hname ▸ ((exists_link?_of_ofFiles? h (mem_of_mem_visibleFiles hf g hg)).2 e he).1

/-- Each field of a linked message type is linked from a field of its declaration. -/
theorem MessageDeclaration.exists_of_link? {dialect : Dialect} {visible : Visible} {m : MessageDeclaration}
    {type : MessageType} (h : m.link? dialect visible = some type) {g : MessageField} (hg : g ∈ type.fields) :
    ∃ f ∈ m.fields, f.link? dialect visible m.name = some g := by
  unfold MessageDeclaration.link? at h
  obtain ⟨fields, hfields, h⟩ := Option.bind_eq_some_iff.mp h
  obtain ⟨-, h⟩ := Option.ite_none_right_eq_some.mp h
  cases h
  exact exists_of_mem_mapM hfields hg

/-- A linked field has the number and the shape of its declaration, and the type that its reference stands
for. -/
theorem FieldDeclaration.of_link? {dialect : Dialect} {visible : Visible} {scope : String}
    {field : FieldDeclaration} {linked : MessageField} (h : field.link? dialect visible scope = some linked) :
    visible.type? scope field.type = some linked.type ∧ linked.number = field.number ∧
      linked.shape = field.shape := by
  unfold FieldDeclaration.link? at h
  obtain ⟨type, htype, h⟩ := Option.bind_eq_some_iff.mp h
  obtain ⟨default, -, h⟩ := Option.bind_eq_some_iff.mp h
  obtain ⟨-, h⟩ := Option.ite_none_right_eq_some.mp h
  cases h
  exact ⟨htype, rfl, rfl⟩

/-- A declaration with the fields `key` and `value` of a map links to an entry type. -/
theorem MessageDeclaration.isEntry_of_link? {dialect : Dialect} {visible : Visible} {m : MessageDeclaration}
    {key : Scalar} {value : TypeReference} {type : MessageType} (hkind : isKeyKind key = true)
    (hfields : m.fields = [{ name := "key", number := 1, type := .scalar key },
      { name := "value", number := 2, type := value }])
    (h : m.link? dialect visible = some type) : ∃ keyField valueField,
      type.IsEntry key keyField valueField ∧ visible.type? m.name value = some valueField.type := by
  unfold MessageDeclaration.link? at h
  obtain ⟨fields, hlinks, h⟩ := Option.bind_eq_some_iff.mp h
  obtain ⟨-, h⟩ := Option.ite_none_right_eq_some.mp h
  cases h
  rw [hfields, List.mapM_cons, List.mapM_cons, List.mapM_nil] at hlinks
  simp only [Option.bind_eq_bind, Option.bind_eq_some_iff, Option.pure_def, Option.some.injEq] at hlinks
  obtain ⟨keyField, hkey, _, ⟨valueField, hvalue, _, rfl, rfl⟩, rfl⟩ := hlinks
  obtain ⟨htype, hkeyNumber, hkeyShape⟩ := FieldDeclaration.of_link? hkey
  obtain ⟨hvalueType, hvalueNumber, hvalueShape⟩ := FieldDeclaration.of_link? hvalue
  refine ⟨keyField, valueField, ⟨?_, ?_, hkind, (Option.some.inj htype).symm, hkeyShape, hvalueShape⟩, hvalueType⟩
  · simp [MessageType.field?, hkeyNumber]
  · simp [MessageType.field?, hkeyNumber, hvalueNumber]

/-- The type that a map of formed files refers to is an entry type in their schema. -/
theorem exists_isEntry (h : ofFiles? files = some schema) (hf : file ∈ files)
    (hformed : file.declarations.IsFormed) {m : MessageDeclaration} (hm : m ∈ file.declarations.messages)
    {f : FieldDeclaration} (hfield : f ∈ m.fields) (hshape : f.shape = .map) {type : ValueType} {scope : String}
    (htype : (Visible.ofFile files file).type? scope f.type = some type) :
    ∃ name target kind keyField valueField, type = .message name ∧ schema.message? name = some target ∧
      target.IsEntry kind keyField valueField := by
  obtain ⟨entry, hentry, hname, key, value, hkey, hfields⟩ := hformed.entries m hm f hfield hshape
  obtain ⟨target, htarget, hlink⟩ := (exists_link?_of_ofFiles? h hf).1 entry hentry
  have hvisible : (Visible.ofFile files file).isMessage entry.name = true :=
    List.any_eq_true.mpr ⟨entry, List.mem_flatMap.mpr ⟨file, List.mem_cons_self, hentry⟩, beq_self_eq_true _⟩
  rw [hname, Visible.type?_named hvisible, Option.some.injEq] at htype
  obtain ⟨keyField, valueField, hisEntry, -⟩ := MessageDeclaration.isEntry_of_link? hkey hfields hlink
  exact ⟨entry.name, target, key, keyField, valueField, htype.symm, htarget, hisEntry⟩

/-- A schema that formed files link to is wired. -/
theorem isWired_of_ofFiles? (h : ofFiles? files = some schema)
    (hformed : ∀ f ∈ files, f.declarations.IsFormed) : schema.IsWired := by
  intro name type htype
  obtain ⟨file, hf, m, hm, hlink, -⟩ := exists_link?_of_mem h (Entries.mem_of_get?_eq_some htype)
  have henums : ∀ e ∈ (Visible.ofFile files file).enums, e.IsFormed := by
    intro e he
    obtain ⟨g, hg, he⟩ := List.mem_flatMap.mp he
    exact (hformed g (mem_of_mem_visibleFiles hf g hg)).enums e he
  have hmap : ∀ g ∈ type.fields, g.shape = .map → ∃ name target kind keyField valueField,
      g.type = .message name ∧ schema.message? name = some target ∧
        target.IsEntry kind keyField valueField := by
    intro g hg hshape
    obtain ⟨f, hfield, hfieldLink⟩ := MessageDeclaration.exists_of_link? hlink hg
    obtain ⟨hfieldType, -, hfieldShape⟩ := FieldDeclaration.of_link? hfieldLink
    exact exists_isEntry h hf (hformed file hf) hm hfield (hfieldShape ▸ hshape) hfieldType
  refine ⟨(MessageDeclaration.isLinked_of_link? hlink).2, ?_, ?_, ?_, ?_⟩
  · intro g hg
    obtain ⟨f, hfield, hfieldLink⟩ := MessageDeclaration.exists_of_link? hlink hg
    exact ((hformed file hf).fields m hm f hfield).isWired_of_link? henums hfieldLink
  · intro g hg enumName henum
    refine ⟨fun hshape => ?_, ?_⟩
    · obtain ⟨_, _, _, _, _, hmessage, -⟩ := hmap g hg hshape
      rw [hmessage] at henum
      cases henum
    · obtain ⟨f, -, hfieldLink⟩ := MessageDeclaration.exists_of_link? hlink hg
      have hfieldType := (FieldDeclaration.of_link? hfieldLink).1
      exact enum?_isSome_of_visible h hf ((Visible.of_type? hfieldType).2 enumName henum)
  · intro g hg target htarget
    obtain ⟨f, -, hfieldLink⟩ := MessageDeclaration.exists_of_link? hlink hg
    have hfieldType := (FieldDeclaration.of_link? hfieldLink).1
    obtain ⟨linked, hlinked⟩ := exists_message?_of_isMessage h hf
      ((Visible.of_type? hfieldType).1 target htarget)
    refine ⟨linked, hlinked, fun hshape => ?_⟩
    obtain ⟨name, entry, kind, keyField, valueField, hname, hentry, hisEntry⟩ := hmap g hg hshape
    rw [htarget, ValueType.message.injEq] at hname
    rw [← hname, hlinked, Option.some.injEq] at hentry
    exact ⟨kind, keyField, valueField, hentry ▸ hisEntry⟩
  · intro g hg kind hkind hshape
    obtain ⟨_, _, _, _, _, hmessage, -⟩ := hmap g hg hshape
    rw [hmessage] at hkind
    cases hkind

/-- The enumerations that formed files link to are wired. -/
theorem isWired_of_enum? (h : ofFiles? files = some schema) (hformed : ∀ f ∈ files, f.declarations.IsFormed)
    {name : String} {enum : EnumType} (he : schema.enum? name = some enum) : enum.IsWired := by
  obtain ⟨file, hf, e, hdeclared, hvalues⟩ := exists_declaration_of_enum? h he
  intro v hv
  rw [hvalues] at hv
  obtain ⟨w, hw, rfl⟩ := List.mem_map.mp hv
  exact (hformed file hf).enums e hdeclared w hw

end

/-! ## Loaded schemas -/

/-- A linked schema that `ofText?` or `ofPaths?` gives is typed. -/
theorem isTyped_of_load {schema : Schema} (hlinked : schema.IsLinked)
    (h : (∃ text, ofText? text = some schema) ∨ ∃ view paths, ofPaths? view paths = some schema) :
    schema.IsTyped := by
  obtain ⟨files, hfiles, hformed⟩ := exists_files_of_load h
  exact ⟨hlinked, isWired_of_ofFiles? hfiles hformed, fun _ _ he => isWired_of_enum? hfiles hformed he⟩

end Schema

/-- A filled store holds a typed schema. -/
theorem SchemaStore.IsFilled.exists_isTyped {store : SchemaStore} (h : store.IsFilled) :
    ∃ schema, store = ⟨some schema⟩ ∧ schema.IsTyped := by
  obtain ⟨schema, rfl, hlinked⟩ := h.exists_isLinked
  obtain ⟨own, hstore, hload⟩ := h.exists_schema
  obtain rfl : schema = own := by simpa using hstore
  exact ⟨schema, rfl, Schema.isTyped_of_load hlinked hload⟩

end Tagwire
