import Mathlib.Data.List.Pairwise
import Tagwire.Proofs.Schema.Linking
import Tagwire.Schema.Lookup

/-!
# The schema of a rendered document

All names of a well-formed document and of the bundled documents that are loaded with it are distinct, so
that every message type is found under its name.  Loading the text of the document therefore gives exactly
one schema, which lists the messages of the document and nothing else.
-/

set_option autoImplicit false

namespace Tagwire

open Schema

/-- The schema has the linked type of each block under its name, and its message names are those of the blocks,
each once. -/
structure SchemaDocument.IsLinked (document : SchemaDocument) (schema : Schema) : Prop where
  message : ∀ b ∈ document.messages, schema.message? b.name.text = some b.linked
  listed : ∀ name, name ∈ schema.messageNames ↔
    name ∈ document.messages.map fun b => b.name.text
  nodup : schema.messageNames.Nodup

namespace Schema

/-! ## Distinct names -/

/-- No bundled name is that of a package, `google` or `google.protobuf`. -/
theorem fullName_ne_package {short p : String} (hp : p = "google" ++ "." ++ "protobuf" ∨ p = "google") :
    Bundled.fullName short ≠ p := by
  rcases hp with rfl | rfl
  · rw [fullName_eq]
    intro h
    have hrest := (append_point_inj (by decide) (by decide) h).2
    exact append_point_ne (by decide) hrest
  · exact Bundled.fullName_ne (by decide)

/-- Importable documents with different paths declare different names. -/
theorem names_disjoint {f g : SchemaFile} (hf : f ∈ Bundled.importable) (hg : g ∈ Bundled.importable)
    (h : f.path ≠ g.path) : f.names.Disjoint g.names := by
  have hpairwise := (List.nodup_flatMap.mp Bundled.names_nodup).2
  have hne : f ≠ g := fun heq => h (congrArg SchemaFile.path heq)
  have : Std.Symm (Function.onFun List.Disjoint SchemaFile.names) := ⟨fun _ _ hd => List.disjoint_symm hd⟩
  exact hpairwise.forall hf hg hne

/-- The names that closed documents declare are distinct. -/
theorem IsClosed.names_nodup {loaded : List SchemaFile} (hl : IsClosed loaded) :
    (loaded.flatMap SchemaFile.names).Nodup := by
  refine List.nodup_flatMap.mpr ⟨fun f hf => ?_, ?_⟩
  · exact (List.nodup_flatMap.mp Bundled.names_nodup).1 f (hl.importable f hf)
  · have hpaths : loaded.Pairwise fun f g => f.path ≠ g.path := List.pairwise_map.mp hl.nodup
    exact hpaths.imp_of_mem fun hf hg hne =>
      names_disjoint (hl.importable _ hf) (hl.importable _ hg) hne

end Schema

namespace MessageBlock

/-- The names that a block declares: that of its message, and those of its fields, with it as their scope. -/
def names (block : MessageBlock) : List String :=
  block.name.text :: block.fields.map fun f => block.name.text ++ "." ++ f.name

/-- A name is declared by a block exactly if it is that of the message or of a field in its scope. -/
theorem mem_names_iff {block : MessageBlock} {n : String} : n ∈ block.names ↔
    n = block.name.text ∨ ∃ f ∈ block.fields, n = block.name.text ++ "." ++ f.name := by
  simp [names, eq_comm]

end MessageBlock

namespace SchemaDocument

variable {document : SchemaDocument}

/-- The names of the file of a document are those of its blocks. -/
theorem names_file (document : SchemaDocument) :
    document.file.names = document.messages.flatMap MessageBlock.names := by
  have hqualified : ∀ (b : MessageBlock) (x : String),
      qualified b.name.text x = b.name.text ++ "." ++ x := by
    intro b x
    rw [qualified, isEmpty_eq_false_of_isIdentifier b.name.isIdentifier_text, if_neg Bool.false_ne_true]
  simp only [SchemaFile.names, SchemaDocument.file, List.flatMap_nil, List.map_nil, List.append_nil,
    List.flatMap_map, MessageBlock.declaration, List.map_map]
  refine congrArg (List.flatMap · document.messages) (funext fun b => ?_)
  rw [MessageBlock.names, List.cons.injEq]
  refine ⟨rfl, List.map_congr_left fun f _ => ?_⟩
  exact hqualified b f.name

/-- The names that a well-formed document declares are distinct. -/
theorem names_nodup (hw : document.IsWellFormed) :
    (document.messages.flatMap MessageBlock.names).Nodup := by
  refine List.nodup_flatMap.mpr ⟨fun b hb => ?_, ?_⟩
  · rw [MessageBlock.names, List.nodup_cons]
    refine ⟨fun hmem => ?_, ?_⟩
    · obtain ⟨f, -, heq⟩ := List.mem_map.mp hmem
      exact append_point_ne b.name.isIdentifier_text heq
    · have hnames : (b.fields.map SchemaField.name).Nodup := by
        apply List.Nodup.of_map lowerCamel
        rw [List.map_map]
        exact hw.keys_nodup b hb
      have hmap : (b.fields.map fun f => b.name.text ++ "." ++ f.name) =
          (b.fields.map SchemaField.name).map (b.name.text ++ "." ++ ·) := by
        rw [List.map_map]
        rfl
      rw [hmap]
      exact hnames.map fun x y hxy => (String.append_right_inj _).mp hxy
  · have hdistinct : document.messages.Pairwise fun b b' => b.name.text ≠ b'.name.text :=
      List.pairwise_map.mp hw.names_nodup
    refine hdistinct.imp fun {b b'} hne n hn hn' => ?_
    rw [MessageBlock.mem_names_iff] at hn hn'
    have hpoint := point_not_mem_of_isIdentifier b.name.isIdentifier_text
    have hpoint' := point_not_mem_of_isIdentifier b'.name.isIdentifier_text
    rcases hn with rfl | ⟨f, -, rfl⟩ <;> rcases hn' with heq | ⟨f', -, heq⟩
    · exact hne heq
    · exact append_point_ne b.name.isIdentifier_text heq.symm
    · exact append_point_ne b'.name.isIdentifier_text heq
    · exact hne (append_point_inj hpoint hpoint' heq).1

/-- No bundled name is declared in a well-formed document. -/
theorem fullName_not_mem_names (hw : document.IsWellFormed) (short : String) :
    Bundled.fullName short ∉ document.messages.flatMap MessageBlock.names := by
  intro hmem
  obtain ⟨b, hb, hn⟩ := List.mem_flatMap.mp hmem
  obtain ⟨stem, hstem⟩ := hw.names_suffix b hb
  have hid := b.name.isIdentifier_text
  rcases MessageBlock.mem_names_iff.mp hn with heq | ⟨f, -, heq⟩
  · exact Bundled.fullName_ne hid heq
  · rw [hstem] at hid heq
    exact Bundled.fullName_ne_append hid heq

/-- No package name is declared in a well-formed document. -/
theorem package_not_mem_names (hw : document.IsWellFormed) {p : String}
    (hp : p = "google" ++ "." ++ "protobuf" ∨ p = "google") :
    p ∉ document.messages.flatMap MessageBlock.names := by
  intro hmem
  obtain ⟨b, hb, hn⟩ := List.mem_flatMap.mp hmem
  obtain ⟨stem, hstem⟩ := hw.names_suffix b hb
  have hpoint := point_not_mem_of_isIdentifier b.name.isIdentifier_text
  have hgoogle : b.name.text ≠ "google" := by
    rw [hstem]
    exact append_messageSuffix_ne (by decide)
  rcases MessageBlock.mem_names_iff.mp hn with rfl | ⟨f, -, rfl⟩ <;> rcases hp with hp | hp
  · exact append_point_ne b.name.isIdentifier_text hp.symm
  · exact hgoogle hp
  · exact hgoogle (append_point_inj hpoint (by decide) hp).1
  · exact append_point_ne (by decide) hp

/-- The names of closed documents and of a well-formed document behind them are distinct. -/
theorem names_files_nodup (hw : document.IsWellFormed) {loaded : List SchemaFile}
    (hl : IsClosed loaded) : ((loaded ++ [document.file]).flatMap SchemaFile.names).Nodup := by
  rw [List.flatMap_append, List.flatMap_singleton, names_file]
  apply List.Nodup.append hl.names_nodup (names_nodup hw)
  intro n hn hn'
  obtain ⟨f, hf, hn⟩ := List.mem_flatMap.mp hn
  obtain ⟨short, rfl⟩ := Bundled.exists_fullName_of_mem_names f (hl.importable f hf) n hn
  exact fullName_not_mem_names hw short hn'

/-- For closed documents and a well-formed document behind them, `areNamesDistinct` holds. -/
theorem areNamesDistinct_files (hw : document.IsWellFormed) {loaded : List SchemaFile}
    (hl : IsClosed loaded) : areNamesDistinct (loaded ++ [document.file]) = true := by
  unfold areNamesDistinct
  rw [Bool.and_eq_true, decide_eq_true_eq, List.all_eq_true]
  refine ⟨names_files_nodup hw hl, fun n hn => ?_⟩
  rw [Bool.not_eq_true', ← Bool.not_eq_true, List.contains_iff_mem]
  intro hp
  have hpackage : n = "google" ++ "." ++ "protobuf" ∨ n = "google" := by
    rw [List.flatMap_append, List.mem_append] at hp
    rcases hp with hp | hp
    · obtain ⟨f, hf, hp⟩ := List.mem_flatMap.mp hp
      exact mem_packageNames_bundled (hl.importable f hf) hp
    · have hnone : packageNames document.file.package = [] := by
        show packageNames "" = []
        decide
      rw [List.flatMap_singleton, hnone] at hp
      cases hp
  rw [List.flatMap_append, List.mem_append, List.flatMap_singleton, names_file] at hn
  rcases hn with hn | hn
  · obtain ⟨f, hf, hn⟩ := List.mem_flatMap.mp hn
    obtain ⟨short, rfl⟩ := Bundled.exists_fullName_of_mem_names f (hl.importable f hf) n hn
    exact fullName_ne_package hpackage rfl
  · exact package_not_mem_names hw hpackage hn

/-! ## Linking all documents -/

/-- The file of a well-formed document links behind closed documents that it imports from, exactly if its blocks
do, and to their message types. -/
theorem link?_file (hw : document.IsWellFormed) {loaded : List SchemaFile} (hl : IsClosed loaded)
    (himports : ∀ path ∈ document.imports, path ∈ loaded.map SchemaFile.path) (result : Schema) :
    document.file.link? (loaded ++ [document.file]) = some result ↔
      (∀ b ∈ document.messages, (∀ f ∈ b.fields, ¬ (19000 ≤ f.number ∧ f.number ≤ 19999)) ∧
        (b.fields.map fun f => foldedName f.name).Nodup) ∧
      result = { messages := document.messages.map fun b => (b.name.text, b.linked) } := by
  have hmessages : ∀ types, document.file.declarations.messages.mapM
      (fun m => m.link? .proto3 document.visible) = some types ↔
      (∀ b ∈ document.messages, (∀ f ∈ b.fields, ¬ (19000 ≤ f.number ∧ f.number ≤ 19999)) ∧
        (b.fields.map fun f => foldedName f.name).Nodup) ∧
      types = document.messages.map MessageBlock.linked := by
    intro types
    have hmap : document.file.declarations.messages.mapM
        (fun m => m.link? .proto3 document.visible) =
        document.messages.mapM fun b => b.declaration.link? .proto3 document.visible := by
      show (document.messages.map MessageBlock.declaration).mapM _ = _
      rw [List.mapM_map]
      rfl
    rw [hmap]
    exact mapM_eq_some_iff_of (fun b hb => link?_block hw hb) types
  have hdialect : document.file.dialect = .proto3 := rfl
  have hnone : document.file.declarations.enums = [] ∧ document.file.declarations.services = [] ∧
      document.file.declarations.extensions = [] ∧ document.file.options = [] := ⟨rfl, rfl, rfl, rfl⟩
  unfold SchemaFile.link?
  rw [visible_eq hw.toIsImporting hl himports, hdialect, hnone.1, hnone.2.1, hnone.2.2.1, hnone.2.2.2]
  simp only [Option.bind_eq_bind, Option.bind_eq_some_iff, hmessages]
  constructor
  · rintro ⟨_, ⟨hcond, rfl⟩, _, henums, hresult⟩
    cases henums
    refine ⟨hcond, ?_⟩
    have hresult' := Option.some.inj hresult
    rw [← hresult', List.map_map]
    rfl
  · rintro ⟨hcond, rfl⟩
    refine ⟨_, ⟨hcond, rfl⟩, [], rfl, ?_⟩
    rw [List.map_map]
    rfl

/-- The message types that a file links to are under the names of its messages, in their order. -/
theorem keys_of_link? {files : List SchemaFile} {f : SchemaFile} {schema : Schema}
    (h : f.link? files = some schema) :
    schema.messages.map Prod.fst = f.declarations.messages.map MessageDeclaration.name := by
  unfold SchemaFile.link? at h
  simp only [Option.bind_eq_bind, Option.bind_eq_some_iff] at h
  obtain ⟨types, htypes, enums, -, hresult⟩ := h
  have hnames : types.map MessageType.name = f.declarations.messages.map MessageDeclaration.name := by
    apply map_eq_map_of_mapM htypes
    intro m _ t ht
    unfold MessageDeclaration.link? at ht
    simp only [Option.bind_eq_bind, Option.bind_eq_some_iff] at ht
    obtain ⟨fields, -, ht⟩ := ht
    split at ht
    · rw [Option.pure_def, Option.some.injEq] at ht
      exact ht ▸ rfl
    · cases ht
  split at hresult
  · rw [Option.pure_def, Option.some.injEq] at hresult
    rw [← hnames, ← hresult, List.map_map]
    rfl
  · cases hresult

/-- The names of the messages of files are among all names that these declare, in their order. -/
theorem messages_sublist_names (files : List SchemaFile) :
    (files.flatMap fun f => f.declarations.messages.map MessageDeclaration.name).Sublist
      (files.flatMap SchemaFile.names) := by
  have hmessages : ∀ ms : List MessageDeclaration, (ms.map MessageDeclaration.name).Sublist
      (ms.flatMap fun m => m.name :: (m.fields.map fun f => qualified m.name f.name)
        ++ (m.oneofs.map fun o => qualified m.name o.name)) := by
    intro ms
    induction ms with
    | nil => exact .slnil
    | cons m ms ih =>
      rw [List.map_cons, List.flatMap_cons, List.cons_append, List.cons_append]
      exact (ih.trans (List.sublist_append_right _ _)).cons_cons m.name
  induction files with
  | nil => exact .slnil
  | cons f files ih =>
    rw [List.flatMap_cons, List.flatMap_cons]
    refine List.Sublist.append ?_ ih
    unfold SchemaFile.names
    rw [List.append_assoc, List.append_assoc]
    exact (hmessages _).trans (List.sublist_append_left _ _)

/-- A well-formed document `IsLinkable` exactly if its numbers are below `2 ^ 29` and not from 19000 to 19999,
and the folded names of each block are distinct. -/
theorem isLinkable_iff (hw : document.IsWellFormed) : document.IsLinkable ↔
    (∀ f ∈ document.fields, f.number < 2 ^ 29) ∧
      ∀ b ∈ document.messages, (∀ f ∈ b.fields, ¬ (19000 ≤ f.number ∧ f.number ≤ 19999)) ∧
        (b.fields.map fun f => foldedName f.name).Nodup := by
  constructor
  · rintro ⟨hnumbers, hnames⟩
    refine ⟨fun f hf => (hnumbers f hf).2.1, fun b hb => ⟨fun f hf => ?_, hnames b hb⟩⟩
    exact (hnumbers f (List.mem_flatMap.mpr ⟨b, hb, hf⟩)).2.2
  · rintro ⟨hbound, hblocks⟩
    refine ⟨fun f hf => ⟨hw.numbers_pos f hf, hbound f hf, ?_⟩, fun b hb => (hblocks b hb).2⟩
    obtain ⟨b, hb, hfb⟩ := List.mem_flatMap.mp hf
    exact (hblocks b hb).1 f hfb

/-- The name of a message of closed documents is a bundled one. -/
theorem exists_fullName_of_mem_messages {loaded : List SchemaFile} (hl : IsClosed loaded)
    {name : String} (h : name ∈ loaded.flatMap fun f =>
      f.declarations.messages.map MessageDeclaration.name) : ∃ short, name = Bundled.fullName short := by
  obtain ⟨f, hf, hn⟩ := List.mem_flatMap.mp h
  obtain ⟨m, hm, rfl⟩ := List.mem_map.mp hn
  exact (Bundled.declarations_spec f (hl.importable f hf)).2.2.2.1 m hm

/-- A bundled name `isWellKnownName`, and so is not among the message names of a schema. -/
theorem isWellKnownName_fullName (short : String) : isWellKnownName (Bundled.fullName short) = true := by
  unfold isWellKnownName
  rw [List.isPrefixOf_iff_prefix]
  refine ⟨short.toList, ?_⟩
  rw [← String.toList_append]
  rfl

/-- No identifier `isWellKnownName`. -/
theorem isWellKnownName_identifier {name : String} (h : isIdentifier name = true) :
    isWellKnownName name = false := by
  rw [← Bool.not_eq_true]
  intro hstart
  unfold isWellKnownName at hstart
  rw [List.isPrefixOf_iff_prefix] at hstart
  exact point_not_mem_of_isIdentifier h (hstart.subset (by decide))

/-- The schema of the message types of closed documents and of a document behind them is one that the document
links to. -/
theorem isLinked_ofList (hw : document.IsWellFormed) {loaded : List SchemaFile} (hl : IsClosed loaded)
    {messages : List (String × MessageType)} {enums : Entries EnumType}
    (hkeys : messages.map Prod.fst =
      (loaded.flatMap fun f => f.declarations.messages.map MessageDeclaration.name)
        ++ document.messages.map fun b => b.name.text)
    (hblocks : ∀ b ∈ document.messages, (b.name.text, b.linked) ∈ messages) :
    document.IsLinked { messages := Entries.ofList messages, enums } := by
  have hnodup : (messages.map Prod.fst).Nodup := by
    have hsublist := messages_sublist_names (loaded ++ [document.file])
    have hown : document.file.declarations.messages.map MessageDeclaration.name =
        document.messages.map fun b => b.name.text := by
      show (document.messages.map MessageBlock.declaration).map MessageDeclaration.name = _
      rw [List.map_map]
      rfl
    rw [List.flatMap_append, List.flatMap_singleton, hown, ← hkeys] at hsublist
    exact hsublist.nodup (names_files_nodup hw hl)
  constructor
  · intro b hb
    unfold Schema.message?
    rw [Entries.get?_ofList hnodup]
    exact Assoc.get?_eq_some_of_mem hnodup (hblocks b hb)
  · intro name
    unfold Schema.messageNames
    rw [List.mem_filter, Entries.mem_keys_ofList hnodup, hkeys, List.mem_append, Bool.not_eq_true']
    constructor
    · rintro ⟨hbundled | hown, hlisted⟩
      · obtain ⟨short, rfl⟩ := exists_fullName_of_mem_messages hl hbundled
        rw [isWellKnownName_fullName] at hlisted
        cases hlisted
      · exact hown
    · intro hown
      obtain ⟨b, -, hname⟩ := List.mem_map.mp hown
      exact ⟨.inr hown, hname ▸ isWellKnownName_identifier b.name.isIdentifier_text⟩
  · exact (Entries.isSorted_ofList messages).nodup.filter _

/-- The text of a well-formed, plain and readable document is loaded by `ofText?` exactly if the document
`IsLinkable`, and always as the same schema, which it links to. -/
theorem exists_isLinked (hw : document.IsWellFormed) (hd : document.IsPlain)
    (hf : ∀ f ∈ document.fields, f.IsReadable) :
    ∃ linked, document.IsLinked linked ∧
      ∀ schema, Schema.ofText? document.text = some schema ↔
        document.IsLinkable ∧ schema = linked := by
  obtain ⟨loaded, hl, himports, hload⟩ := exists_load_text hd hf hw.toIsImporting
  obtain ⟨schemas, hschemas⟩ := exists_mapM_eq_some (l := loaded) fun f hmem =>
    exists_link?_bundled [document.file] hl hmem
  let own : Schema := { messages := document.messages.map fun b => (b.name.text, b.linked) }
  refine ⟨{ messages := Entries.ofList ((schemas ++ [own]).flatMap Schema.messages)
            enums := Entries.ofList ((schemas ++ [own]).flatMap Schema.enums) }, ?_, fun schema => ?_⟩
  · refine isLinked_ofList hw hl ?_ fun b hb => ?_
    · have hbundled : schemas.map (fun s => s.messages.map Prod.fst) =
          loaded.map fun f => f.declarations.messages.map MessageDeclaration.name :=
        map_eq_map_of_mapM hschemas fun f _ s hs => keys_of_link? hs
      rw [List.flatMap_append, List.map_append, List.map_flatMap, List.flatMap_def, hbundled,
        ← List.flatMap_def, List.flatMap_singleton, List.map_map]
      rfl
    · rw [List.flatMap_append, List.flatMap_singleton]
      exact List.mem_append_right _ (List.mem_map_of_mem hb)
  · have hall : ∀ result, (loaded ++ [document.file]).mapM
        (fun f => f.link? (loaded ++ [document.file])) = some result ↔
        (∀ b ∈ document.messages, (∀ f ∈ b.fields, ¬ (19000 ≤ f.number ∧ f.number ≤ 19999)) ∧
          (b.fields.map fun f => foldedName f.name).Nodup) ∧ result = schemas ++ [own] := by
      intro result
      rw [List.mapM_append, hschemas, List.mapM_cons, List.mapM_nil]
      simp only [Option.bind_eq_bind, Option.bind_some, Option.bind_eq_some_iff, Option.pure_def,
        Option.some.injEq, link?_file hw hl himports]
      constructor
      · rintro ⟨_, ⟨_, ⟨hcond, rfl⟩, rfl⟩, rfl⟩
        exact ⟨hcond, rfl⟩
      · rintro ⟨hcond, rfl⟩
        exact ⟨_, ⟨_, ⟨hcond, rfl⟩, rfl⟩, rfl⟩
    rw [isLinkable_iff hw]
    unfold Schema.ofText?
    simp only [Option.bind_eq_bind, Option.bind_eq_some_iff, hload]
    unfold Schema.ofFiles?
    constructor
    · rintro ⟨_, ⟨hbound, rfl⟩, hresult⟩
      simp only [Option.bind_eq_bind, Option.bind_eq_some_iff, hall] at hresult
      obtain ⟨_, ⟨hcond, rfl⟩, hresult⟩ := hresult
      rw [if_pos (areNamesDistinct_files hw hl), Option.pure_def, Option.some.injEq] at hresult
      exact ⟨⟨hbound, hcond⟩, hresult.symm⟩
    · rintro ⟨⟨hbound, hcond⟩, rfl⟩
      refine ⟨_, ⟨hbound, rfl⟩, ?_⟩
      simp only [Option.bind_eq_bind, Option.bind_eq_some_iff, hall]
      refine ⟨_, ⟨hcond, rfl⟩, ?_⟩
      rw [if_pos (areNamesDistinct_files hw hl)]
      rfl

end SchemaDocument

end Tagwire
