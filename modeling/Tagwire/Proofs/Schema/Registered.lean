import Tagwire.Proofs.Schema.Lookup

/-!
# The names that the registry of a schema has

A name finds a type by its last part when no other type of the schema ends in it, well-known types included.
The registry has the last part of a listed name when no other listed name ends in it, and so knows of no
well-known type.  Both agree on every name but two kinds: an absolute name finds a type and is not in the
registry, and the last part that a listed type shares with a well-known one alone is in the registry and finds
nothing.
-/

set_option autoImplicit false

namespace Tagwire

namespace Schema

/-- A name without a dot is that of no well-known type. -/
theorem isWellKnownName_eq_false {name : String} (h : '.' ∉ name.toList) :
    isWellKnownName name = false := by
  rw [Bool.eq_false_iff]
  intro hstarts
  obtain ⟨rest, hrest⟩ := List.isPrefixOf_iff_prefix.mp hstarts
  refine h (hrest ▸ List.mem_append_left rest ?_)
  decide

/-- No full name is equal to the name, and it is the `bareName` of exactly one listed name and of a well-known
type. -/
def IsShared (schema : Schema) (name : String) : Prop :=
  schema.message? name = none ∧
    (schema.messageNames.filter fun n => bareName n == name).length = 1 ∧
    ∃ e ∈ schema.messages, isWellKnownName e.1 = true ∧ bareName e.1 = name

/-- Whether a name is shared is seen from the names of the types. -/
instance (schema : Schema) (name : String) : Decidable (schema.IsShared name) :=
  inferInstanceAs (Decidable (_ ∧ _ ∧ ∃ e ∈ schema.messages, _))

/-- If a filter leaves one element of a list, there is exactly one that satisfies it. -/
theorem exists_of_length_filter_eq_one {α : Type} {p : α → Bool} {l : List α}
    (h : (l.filter p).length = 1) : ∃ a ∈ l, p a = true ∧ ∀ b ∈ l, p b = true → b = a := by
  obtain ⟨a, ha⟩ := List.length_eq_one_iff.mp h
  have hmem : a ∈ l.filter p := by
    rw [ha]
    exact List.mem_singleton_self a
  exact ⟨a, (List.mem_filter.mp hmem).1, (List.mem_filter.mp hmem).2,
    fun b hb hp => eq_of_filter_eq_singleton ha hb hp⟩

namespace IsLinked

variable {schema : Schema} {name : String} {type : MessageType}

/-- A name that is no full name and the `bareName` of only one type finds this type. -/
theorem find?_of_unique (h : schema.IsLinked) (hnone : schema.message? name = none)
    (htype : schema.message? type.name = some type) (hbare : bareName type.name = name)
    (hunique : ∀ other found, schema.message? other = some found → bareName other = name →
      other = type.name) : schema.find? name = some type := by
  have hpoint : '.' ∉ name.toList := hbare ▸ point_not_mem_bareName type.name
  have hentries : (schema.messages.filter fun e => bareName e.2.name == name) = [(type.name, type)] := by
    rw [← List.perm_singleton, List.perm_ext_iff_of_nodup (h.sorted.nodup.of_map _ |>.filter _)
      (List.nodup_singleton _)]
    intro e
    rw [List.mem_filter, beq_iff_eq, List.mem_singleton]
    constructor
    · rintro ⟨he, hends⟩
      have hfound := Entries.get?_eq_some_of_mem h.sorted he
      have hname := hunique e.1 e.2 hfound (h.named e he ▸ hends)
      rw [hname] at hfound
      have hsame : e.2 = type := Option.some.inj (hfound.symm.trans htype)
      exact Prod.ext hname hsame
    · rintro rfl
      exact ⟨Entries.mem_of_get?_eq_some htype, hbare⟩
  unfold find?
  rw [lookup?_eq (not_isAbsolute_of_point_not_mem hpoint), hnone]
  dsimp only
  rw [if_neg (by rwa [List.contains_iff_mem]), hentries]

/-- A shared name finds no type. -/
theorem find?_of_isShared (h : schema.IsLinked) (hshared : schema.IsShared name) :
    schema.find? name = none := by
  obtain ⟨hnone, hone, e, he, hwellKnown, hbare⟩ := hshared
  by_contra hsome
  obtain ⟨type, hfind⟩ := Option.ne_none_iff_exists'.mp hsome
  obtain ⟨-, hfinds⟩ := h.of_find? hfind
  cases hfinds with
  | full hfull => rw [hfull] at hnone; cases hnone
  | absolute habsolute =>
    exact not_isAbsolute_of_point_not_mem (hbare ▸ point_not_mem_bareName e.1) habsolute
  | bare _ _ hunique =>
    -- The listed name and the well-known one would be the same.
    obtain ⟨listed, hlisted, hends, -⟩ := exists_of_length_filter_eq_one hone
    obtain ⟨⟨found, hfound⟩, hplain⟩ := h.mem_messageNames_iff.mp hlisted
    rw [hunique listed found hfound (beq_iff_eq.mp hends),
      ← hunique e.1 e.2 (Entries.get?_eq_some_of_mem h.sorted he) hbare, hwellKnown] at hplain
    cases hplain

/-- The registry has a name exactly if it is the full name of a listed type, or its `bareName` and that of no
other listed name. -/
theorem contains_registry_iff_exists (h : schema.IsLinked) : schema.registry.contains name = true ↔
    ∃ type, schema.message? type.name = some type ∧ type.name ∈ schema.messageNames ∧
      (type.name = name ∨ bareName type.name = name ∧
        (schema.messageNames.filter fun n => bareName n == name).length = 1) := by
  rw [Registry.contains, Schema.registry, Registry.get?_ofList, List.find?_isSome]
  simp only [List.mem_reverse, beq_iff_eq]
  constructor
  · rintro ⟨registered, hmem, hname⟩
    obtain ⟨type, htype, hlisted, rfl | ⟨-, hone, rfl⟩⟩ := h.mem_registered_iff.mp hmem
    · exact ⟨type, htype, hlisted, .inl hname⟩
    · obtain rfl : bareName type.name = name := hname
      exact ⟨type, htype, hlisted, .inr ⟨rfl, hone⟩⟩
  · rintro ⟨type, htype, hlisted, hname⟩
    by_cases hfull : type.name = name
    · exact ⟨_, h.mem_registered_iff.mpr ⟨type, htype, hlisted, .inl rfl⟩, hfull⟩
    · obtain ⟨rfl, hone⟩ := hname.resolve_left hfull
      exact ⟨_, h.mem_registered_iff.mpr ⟨type, htype, hlisted, .inr ⟨Ne.symm hfull, hone, rfl⟩⟩, rfl⟩

/-- The `bareName` of exactly one listed name either finds its type or is shared, unless it is a full name. -/
theorem exists_find?_or_isShared (h : schema.IsLinked) (htype : schema.message? type.name = some type)
    (hlisted : type.name ∈ schema.messageNames) (hbare : bareName type.name = name)
    (hone : (schema.messageNames.filter fun n => bareName n == name).length = 1) :
    (∃ found, schema.find? name = some found ∧ found.name ∈ schema.messageNames) ∨
      schema.IsShared name := by
  have hpoint : '.' ∉ name.toList := hbare ▸ point_not_mem_bareName type.name
  cases hfull : schema.message? name with
  | some found =>
    -- A full name without dots is listed.
    have hname := (h.of_message? hfull).1
    refine .inl ⟨found, h.find?_of_message? hfull, h.mem_messageNames_iff.mpr ⟨⟨found, ?_⟩, ?_⟩⟩
    · rwa [hname]
    · rw [hname, isWellKnownName_eq_false hpoint]
  | none =>
    by_cases hshared : ∃ e ∈ schema.messages, isWellKnownName e.1 = true ∧ bareName e.1 = name
    · exact .inr ⟨hfull, hone, hshared⟩
    · refine .inl ⟨type, h.find?_of_unique hfull htype hbare ?_, hlisted⟩
      obtain ⟨only, -, -, honly⟩ := exists_of_length_filter_eq_one hone
      intro other found hfound hends
      have hother : other ∈ schema.messageNames := by
        rw [h.mem_messageNames_iff, Bool.eq_false_iff]
        exact ⟨⟨found, hfound⟩, fun hwellKnown =>
          hshared ⟨_, Entries.mem_of_get?_eq_some hfound, hwellKnown, hends⟩⟩
      rw [honly other hother (beq_iff_eq.mpr hends), honly type.name hlisted (beq_iff_eq.mpr hbare)]

/-- The registry has a name exactly if it is not absolute and finds a listed type, or if it is shared. -/
theorem contains_registry_iff (h : schema.IsLinked) : schema.registry.contains name = true ↔
    (¬ IsAbsolute name ∧ ∃ type, schema.find? name = some type ∧ type.name ∈ schema.messageNames) ∨
      schema.IsShared name := by
  constructor
  · intro hcontains
    obtain ⟨type, htype, hlisted, rfl | ⟨hbare, hone⟩⟩ := h.contains_registry_iff_exists.mp hcontains
    · exact .inl ⟨(h.of_message? htype).2.1, type, h.find?_of_message? htype, hlisted⟩
    · have hname : ¬ IsAbsolute name :=
        not_isAbsolute_of_point_not_mem (hbare ▸ point_not_mem_bareName type.name)
      exact (h.exists_find?_or_isShared htype hlisted hbare hone).imp_left fun hfound => ⟨hname, hfound⟩
  · rintro (⟨hname, type, hfind, hlisted⟩ | ⟨-, hone, -⟩)
    · rw [Registry.contains, h.get?_registry hname hfind hlisted]
      rfl
    · obtain ⟨listed, hlisted, hends, -⟩ := exists_of_length_filter_eq_one hone
      obtain ⟨⟨type, htype⟩, -⟩ := h.mem_messageNames_iff.mp hlisted
      obtain rfl := (h.of_message? htype).1
      exact h.contains_registry_iff_exists.mpr
        ⟨type, htype, hlisted, .inr ⟨beq_iff_eq.mp hends, hone⟩⟩

/-- What the registry has under a name that finds a type is this type, registered under the name. -/
theorem eq_registered_of_find? (h : schema.IsLinked) {registered : RegisteredType}
    (hfind : schema.find? name = some type) (hregistered : schema.registry.get? name = some registered) :
    registered = type.registered name := by
  have hcontains : schema.registry.contains name = true := by
    rw [Registry.contains, hregistered]
    rfl
  rcases h.contains_registry_iff.mp hcontains with ⟨hname, found, hfound, hlisted⟩ | hshared
  · obtain rfl : found = type := Option.some.inj (hfound.symm.trans hfind)
    exact Option.some.inj (hregistered.symm.trans (h.get?_registry hname hfind hlisted))
  · rw [h.find?_of_isShared hshared] at hfind
    cases hfind

end IsLinked

end Schema

/-- In a filled store `find` gives every listed name its type.  The registry that the store builds has a name
exactly when `find` leads from it to a listed type, but for two kinds of names on which they disagree: one that
a listed type shares with a well-known type as its last part (`IsShared`), and an absolute one that leads to a
listed type.  What the registry has under a name has the fields of the type that `find` gives. -/
theorem SchemaStore.registry_iff_find {store : SchemaStore} (hfilled : store.IsFilled) :
    ∃ schema registry names, store.schema = .ok schema ∧ store.registry = .ok registry ∧
      store.messageNames = .ok names ∧
      (∀ name ∈ names, ∃ type, store.find name = .ok (schema, type) ∧ type.name = name) ∧
      ∀ name,
        ((registry.contains name = true ↔
            ∃ type, store.find name = .ok (schema, type) ∧ type.name ∈ names) ↔
          ¬ schema.IsShared name ∧
            ¬ (Schema.IsAbsolute name ∧ ∃ type, store.find name = .ok (schema, type) ∧ type.name ∈ names)) ∧
        ∀ type registered, store.find name = .ok (schema, type) →
          registry.get? name = some registered → registered.fields = type.registeredFields := by
  obtain ⟨schema, rfl, hlinked⟩ := hfilled.exists_isLinked
  refine ⟨schema, schema.registry, schema.messageNames, rfl, rfl, rfl, ?_, fun name => ?_⟩
  all_goals simp only [find_eq_ok_iff, true_and]
  · intro name hname
    obtain ⟨⟨type, htype⟩, -⟩ := hlinked.mem_messageNames_iff.mp hname
    exact ⟨type, hlinked.find?_of_message? htype, (hlinked.of_message? htype).1⟩
  · refine ⟨?_, fun type registered hfind hregistered => ?_⟩
    · rw [hlinked.contains_registry_iff]
      by_cases hshared : schema.IsShared name
      · simp [hshared, hlinked.find?_of_isShared hshared]
      · by_cases habsolute : Schema.IsAbsolute name <;> simp [hshared, habsolute]
    · rw [hlinked.eq_registered_of_find? hfind hregistered]
      rfl

/-! ## A name that a listed type shares with a well-known one -/

/-- A document of the package `demo` with a message `Empty`, which imports `google.protobuf.Empty`. -/
def sharedText : String :=
  "syntax = \"proto3\"; package demo; import \"google/protobuf/empty.proto\"; " ++
    "message Empty \x7b string type = 1; \x7d"

/-- The file that `sharedText` is read as. -/
def sharedFile : Schema.SchemaFile :=
  { path := Schema.inlineDocumentName
    package := "demo"
    imports := [{ path := "google/protobuf/empty.proto" }]
    declarations :=
      { messages :=
          [{ name := "demo.Empty"
             fields := [{ name := "type", number := 1, type := .scalar .string }] }] } }

namespace Schema

/-- `sharedText` is read as `sharedFile`. -/
theorem file_sharedText : SchemaFile.ofText? inlineDocumentName sharedText = some sharedFile := by
  have hheaders : [[.word "package", .word "demo"],
        [.word "import", .text (Bytes.ofString "google/protobuf/empty.proto")]].foldlM readHeader?
      { path := inlineDocumentName, dialect := .proto3 } =
      some { path := inlineDocumentName, package := "demo", imports := sharedFile.imports } := by
    simp [readHeader?, readPath?, readPathRest, sharedFile, textOf?]
  exact SchemaFile.ofText?_of_message _ "Empty" [[.word "string", .word "type", .mark '=', .natural 1]]
    (by decide +kernel) rfl hheaders rfl

/-- The schema of `sharedText` is linked from the bundled document it imports and from `sharedFile`. -/
theorem ofText?_sharedText : Schema.ofText? sharedText = ofFiles? [Bundled.empty, sharedFile] := by
  unfold Schema.ofText?
  rw [load?, if_neg (by decide), if_neg (by decide), openInline, if_pos rfl, file_sharedText]
  rfl

/-- The schema of `sharedText` lists `demo.Empty`, and the name `Empty` is shared. -/
theorem exists_schema_sharedText : ∃ schema type, Schema.ofText? sharedText = some schema ∧
    schema.IsLinked ∧ schema.IsShared "Empty" ∧ schema.message? "demo.Empty" = some type ∧
    "demo.Empty" ∈ schema.messageNames := by
  have hlinks : ((ofFiles? [Bundled.empty, sharedFile]).any fun schema =>
      (schema.message? "demo.Empty").any fun _ =>
        decide (schema.IsShared "Empty" ∧ "demo.Empty" ∈ schema.messageNames)) = true := by
    decide
  obtain ⟨schema, hschema, hlinks⟩ := (Option.any_eq_true _ _).mp hlinks
  obtain ⟨type, htype, hlinks⟩ := (Option.any_eq_true _ _).mp hlinks
  obtain ⟨hshared, hlisted⟩ := of_decide_eq_true hlinks
  have htext := ofText?_sharedText.trans hschema
  exact ⟨schema, type, htext, isLinked_of_ofText? htext, hshared, htype, hlisted⟩

end Schema

namespace SchemaStore

/-- The registry of `sharedText` and `find` agree on `demo.Empty`, the full name of the type. -/
theorem registry_iff_find_sharedText : ∃ store schema registry names type registered,
    loadText {} sharedText = .ok store ∧ store.schema = .ok schema ∧ store.registry = .ok registry ∧
      store.messageNames = .ok names ∧ store.find "demo.Empty" = .ok (schema, type) ∧
      (registry.contains "demo.Empty" = true ↔
        ∃ type, store.find "demo.Empty" = .ok (schema, type) ∧ type.name ∈ names) ∧
      registry.get? "demo.Empty" = some registered ∧ registered.fields = type.registeredFields := by
  obtain ⟨own, type, htext, hlinked, -, htype, hlisted⟩ := Schema.exists_schema_sharedText
  have hload : loadText {} sharedText = .ok ⟨some own⟩ :=
    loadText_eq_ok_iff.mpr ⟨own, htext, rfl⟩
  obtain ⟨schema, registry, names, hschema, hregistry, hnames, -, hagree⟩ := registry_iff_find (.text hload)
  obtain rfl : own = schema := Except.ok.inj hschema
  obtain rfl : own.registry = registry := Except.ok.inj hregistry
  obtain rfl : own.messageNames = names := Except.ok.inj hnames
  have hfind : find ⟨some own⟩ "demo.Empty" = .ok (own, type) :=
    find_eq_ok_iff.mpr ⟨rfl, hlinked.find?_of_message? htype⟩
  have hname : ¬ Schema.IsAbsolute "demo.Empty" := by decide
  have hregistered := hlinked.get?_registry hname (hlinked.find?_of_message? htype)
    ((hlinked.of_message? htype).1.symm ▸ hlisted)
  obtain ⟨hiff, hfields⟩ := hagree "demo.Empty"
  refine ⟨_, own, _, _, type, _, hload, hschema, hregistry, hnames, hfind, hiff.mpr ⟨?_, ?_⟩,
    hregistered, hfields type _ hfind hregistered⟩
  · rintro ⟨hnone, -⟩
    rw [htype] at hnone
    cases hnone
  · exact fun habsolute => hname habsolute.1

/-- The registry of `sharedText` has `Empty`, which `find` does not know since `google.protobuf.Empty` has the
same last part; and it does not have `.demo.Empty`, from which `find` gives the listed type. -/
theorem registry_ne_find_sharedText : ∃ store schema registry names type,
    loadText {} sharedText = .ok store ∧ store.schema = .ok schema ∧ store.registry = .ok registry ∧
      store.messageNames = .ok names ∧
      registry.contains "Empty" = true ∧ store.find "Empty" = .error (.typeNotFound "Empty") ∧
      registry.contains ".demo.Empty" = false ∧ store.find ".demo.Empty" = .ok (schema, type) ∧
      type.name ∈ names := by
  obtain ⟨schema, type, htext, hlinked, hshared, htype, hlisted⟩ := Schema.exists_schema_sharedText
  have hload : loadText {} sharedText = .ok ⟨some schema⟩ :=
    loadText_eq_ok_iff.mpr ⟨schema, htext, rfl⟩
  refine ⟨⟨some schema⟩, schema, schema.registry, schema.messageNames, type, hload, rfl, rfl, rfl,
    hlinked.contains_registry_iff.mpr (.inr hshared), find_eq_error (hlinked.find?_of_isShared hshared),
    ?_, ?_, ?_⟩
  · rw [Registry.contains, hlinked.get?_registry_of_isAbsolute (by decide)]
    rfl
  · refine find_eq_ok_iff.mpr ⟨rfl, ?_⟩
    -- Without the dot in front, the name is the full one.
    have hlookup : schema.lookup? ".demo.Empty" = schema.message? "demo.Empty" := rfl
    rw [Schema.find?, hlookup, htype]
  · rwa [(hlinked.of_message? htype).1]

end SchemaStore

end Tagwire
