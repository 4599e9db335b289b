import Tagwire.Proofs.Entries
import Tagwire.Proofs.Except
import Tagwire.Proofs.Schema.Names
import Tagwire.Proofs.Schema.Rendering
import Tagwire.Codec.Store

/-!
# Loaded schemas

Whatever documents a schema has been loaded from, it holds each message type under its own name, which is
not absolute, and no two fields of a type share their number or their record key.
-/

set_option autoImplicit false

namespace Tagwire

namespace Schema

/-! ## Loaded documents -/

/-- A property of the documents loaded so far and of each that `opener` opens is one of all documents that
`load?` gives. -/
theorem forall_mem_of_load? {P : SchemaFile → Prop} {opener : Opener}
    (hopen : ∀ path file, opener path = some file → P file) {fuel : Nat} {importing : List String}
    {loaded result : List SchemaFile} {path : String} (hloaded : ∀ f ∈ loaded, P f)
    (h : load? opener fuel importing loaded path = some result) : ∀ f ∈ result, P f := by
  -- The documents that one imports are loaded with less fuel, each behind those before it.
  induction fuel generalizing importing loaded result path with
  | zero => cases h
  | succ fuel ih =>
    rw [load?] at h
    split at h
    · cases h
    · split at h
      · cases h
        exact hloaded
      · obtain ⟨file, hfile, h⟩ := Option.bind_eq_some_iff.mp h
        obtain ⟨next, hnext, h⟩ := Option.bind_eq_some_iff.mp h
        split at h <;> cases h
        intro f hf
        rcases List.mem_append.mp hf with hf | hf
        · exact of_foldlM_eq_some (P := fun fs => ∀ f ∈ fs, P f) hloaded
            (fun p _ before after hbefore hafter => ih hbefore hafter) hnext f hf
        · rw [List.mem_singleton.mp hf]
          exact hopen path file hfile

section

variable {P : SchemaFile → Prop} (htext : ∀ path text file, SchemaFile.ofText? path text = some file → P file)
  (hbundled : ∀ f ∈ Bundled.all, P f)

include htext hbundled

/-- A schema that `ofText?` gives is linked from files that have a property of all files read from texts and of
all bundled ones. -/
theorem exists_files_of_ofText? {text : String} {schema : Schema} (h : ofText? text = some schema) :
    ∃ files, ofFiles? files = some schema ∧ ∀ f ∈ files, P f := by
  obtain ⟨files, hfiles, hlinked⟩ := Option.bind_eq_some_iff.mp h
  refine ⟨files, hlinked, forall_mem_of_load? (fun path file hopen => ?_) (by simp) hfiles⟩
  unfold openInline at hopen
  split at hopen
  · exact htext path text file hopen
  · exact hbundled file (List.mem_of_find?_eq_some hopen)

/-- A schema that `ofPaths?` gives is linked from files that have a property of all files read from texts and of
all bundled ones. -/
theorem exists_files_of_ofPaths? {view : FileView} {paths : List String} {schema : Schema}
    (h : ofPaths? view paths = some schema) : ∃ files, ofFiles? files = some schema ∧ ∀ f ∈ files, P f := by
  obtain ⟨files, hfiles, hlinked⟩ := Option.bind_eq_some_iff.mp h
  refine ⟨files, hlinked, of_foldlM_eq_some (P := fun fs => ∀ f ∈ fs, P f) (by simp) ?_ hfiles⟩
  intro requested _ before after hbefore hload
  obtain ⟨name, -, hload⟩ := Option.bind_eq_some_iff.mp hload
  refine forall_mem_of_load? (fun path file hopen => ?_) hbefore hload
  unfold openFile at hopen
  split at hopen
  · obtain ⟨text, -, hread⟩ := Option.bind_eq_some_iff.mp hopen
    exact htext path text file hread
  · cases hopen
  · exact hbundled file (List.mem_of_find?_eq_some hopen)

end

/-- From the statements of a text, `ofText?` reads the file whose dialect, headers and declarations are read
from them. -/
theorem SchemaFile.ofText?_eq_some {path text : String} {statements rest : List Statement}
    {dialect : Dialect} {file : SchemaFile} {declarations : Declarations}
    (hstatements : statements? text = some statements)
    (hdialect : readDialect? statements = some (dialect, rest))
    (hheaders : readHeaders? { path, dialect } rest = some file)
    (hdeclarations : readDeclarations? dialect file.package rest = some declarations) :
    SchemaFile.ofText? path text = some { file with declarations } := by
  unfold SchemaFile.ofText?
  rw [hstatements, Option.bind_eq_bind, Option.bind_some, hdialect, Option.bind_eq_bind, Option.bind_some]
  dsimp only
  rw [hheaders, Option.bind_eq_bind, Option.bind_some, hdeclarations]
  rfl

/-! ## Documents with one message -/

/-- Appending no declarations changes nothing. -/
@[simp] theorem Declarations.append_empty (declarations : Declarations) :
    declarations ++ ({} : Declarations) = declarations := by
  show Declarations.append _ _ = _
  simp [Declarations.append]

/-- Appending no members changes nothing. -/
@[simp] theorem Members.append_empty (members : Members) : members ++ ({} : Members) = members := by
  show Members.append _ _ = _
  simp [Members.append]

/-- Where no statement of a block has a block of its own, `readMembers?` puts together what
`readPlainMember?` reads from each line. -/
theorem readMembers?_map_plain (dialect : Dialect) (scope : String) (context : FieldContext)
    (lines : List (List Token)) :
    readMembers? dialect scope context (lines.map .plain) =
      (lines.mapM (readPlainMember? dialect scope context)).map fun members => members.foldr (· ++ ·) {} := by
  induction lines with
  | nil => rw [List.map_nil, readMembers?]; rfl
  | cons line lines ih =>
    rw [List.map_cons, readMembers?, ih, List.mapM_cons]
    cases readPlainMember? dialect scope context line with
    | none => rfl
    | some first => cases lines.mapM (readPlainMember? dialect scope context) <;> rfl

/-- `readHeaders?` passes each line before a block to `readHeader?`, and passes over the block. -/
theorem readHeaders?_map_plain (file : SchemaFile) (headers : List (List Token)) (head : List Token)
    (body : List Statement) :
    readHeaders? file (headers.map .plain ++ [.block head body]) = headers.foldlM readHeader? file := by
  induction headers generalizing file with
  | nil => rfl
  | cons header headers ih =>
    rw [List.map_cons, List.cons_append, readHeaders?, List.foldlM_cons]
    exact congrArg _ (funext fun file => ih file)

/-- `readDeclarations?` passes over the lines before a message, and reads the message from its own lines. -/
theorem readDeclarations?_map_plain (dialect : Dialect) (scope name : String)
    (headers lines : List (List Token)) :
    readDeclarations? dialect scope
        (headers.map .plain ++ [.block [.word "message", .word name] (lines.map .plain)]) =
      (lines.mapM (readPlainMember? dialect (qualified scope name) .message)).map fun members =>
        (messageMembers (qualified scope name) (members.foldr (· ++ ·) {})).nested := by
  induction headers with
  | nil =>
    rw [List.map_nil, List.nil_append, readDeclarations?, readMembers?]
    simp only [readMembers?_map_plain, readMembers?, readDeclarations?]
    cases lines.mapM (readPlainMember? dialect (qualified scope name) .message) with
    | none => rfl
    | some members => simp
  | cons header headers ih => rw [List.map_cons, List.cons_append, readDeclarations?, ih]

/-- The tokens of a `proto3` document with header lines and one message. -/
def messageTokens (headers : List (List Token)) (name : String) (lines : List (List Token)) : List Token :=
  (SchemaDocument.headerTokens :: headers).flatMap (· ++ [.mark ';']) ++
    .word "message" :: .word name :: .mark '\x7b' :: (lines.flatMap (· ++ [.mark ';']) ++ [.mark '\x7d'])

/-- The statements of such a document, with the line that names its dialect first. -/
def messageStatements (headers : List (List Token)) (name : String) (lines : List (List Token)) :
    List Statement :=
  .plain SchemaDocument.headerTokens ::
    (headers.map .plain ++ [.block [.word "message", .word name] (lines.map .plain)])

/-- A `proto3` document with header lines and one message is read line by line: `readHeader?` reads its
headers, and `readPlainMember?` the lines of the message. -/
theorem SchemaFile.ofText?_of_message {path text : String} (headers : List (List Token)) (name : String)
    (lines : List (List Token)) {file : SchemaFile} {members : List Members}
    (htokens : tokens? text = some (messageTokens headers name lines))
    (hstatements : ((messageTokens headers name lines).foldlM StatementStack.step {}).bind
      StatementStack.result? = some (messageStatements headers name lines))
    (hheaders : headers.foldlM readHeader? { path, dialect := .proto3 } = some file)
    (hlines : lines.mapM (readPlainMember? .proto3 (qualified file.package name) .message) =
      some members) :
    SchemaFile.ofText? path text = some { file with
      declarations := (messageMembers (qualified file.package name) (members.foldr (· ++ ·) {})).nested } := by
  have hread : statements? text = some (messageStatements headers name lines) := by
    unfold statements?
    rw [htokens]
    exact hstatements
  have hdialect : readDialect? (messageStatements headers name lines) =
      some (.proto3, (messageStatements headers name lines).tail) := by
    simp [readDialect?, messageStatements, SchemaDocument.headerTokens, textOf?]
  have hdeclarations := readDeclarations?_map_plain .proto3 file.package name headers lines
  rw [hlines, Option.map_some] at hdeclarations
  exact SchemaFile.ofText?_eq_some hread hdialect ((readHeaders?_map_plain _ _ _ _).trans hheaders)
    hdeclarations

/-- The schema of a text whose file imports nothing is linked from this file alone. -/
theorem ofText?_eq_ofFiles? {text : String} {file : SchemaFile} (himports : file.imports = [])
    (h : SchemaFile.ofText? inlineDocumentName text = some file) : ofText? text = ofFiles? [file] := by
  unfold ofText?
  rw [load?, if_neg (by decide), if_neg (by decide), openInline, if_pos rfl, h]
  simp [himports]

end Schema

/-! ## Linked types -/

/-- The numbers of the fields are distinct, and so are their record keys. -/
structure MessageType.IsLinked (type : MessageType) : Prop where
  numbers : (type.fields.map MessageField.number).Nodup
  keys : (type.fields.map MessageField.jsonName).Nodup

/-- The message types are sorted by name, each under its own, which is not absolute, and each with distinct
numbers and record keys. -/
structure Schema.IsLinked (schema : Schema) : Prop where
  sorted : Assoc.IsSorted schema.messages
  named : ∀ e ∈ schema.messages, e.2.name = e.1
  relative : ∀ e ∈ schema.messages, ¬ IsAbsolute e.1
  linked : ∀ e ∈ schema.messages, e.2.IsLinked

namespace Schema

/-- A message declaration links to a type with its name and with distinct numbers and record keys. -/
theorem MessageDeclaration.isLinked_of_link? {dialect : Dialect} {visible : Visible}
    {message : MessageDeclaration} {type : MessageType} (h : message.link? dialect visible = some type) :
    type.name = message.name ∧ type.IsLinked := by
  unfold MessageDeclaration.link? at h
  obtain ⟨fields, hfields, h⟩ := Option.bind_eq_some_iff.mp h
  obtain ⟨hvalid, h⟩ := Option.ite_none_right_eq_some.mp h
  cases h
  simp only [Bool.and_eq_true] at hvalid
  obtain ⟨⟨⟨hnumbers, hkeys⟩, -⟩, -⟩ := hvalid
  have hfield : ∀ f ∈ message.fields, ∀ g, f.link? dialect visible message.name = some g →
      g.number = f.number ∧ g.jsonName = f.recordKey := by
    intro f hf g h
    unfold FieldDeclaration.link? at h
    obtain ⟨type, -, h⟩ := Option.bind_eq_some_iff.mp h
    obtain ⟨default, -, h⟩ := Option.bind_eq_some_iff.mp h
    obtain ⟨-, h⟩ := Option.ite_none_right_eq_some.mp h
    cases h
    exact ⟨rfl, rfl⟩
  refine ⟨rfl, ?_, ?_⟩
  · show (fields.map MessageField.number).Nodup
    rw [map_eq_map_of_mapM hfields fun f hf g h => (hfield f hf g h).1]
    rw [MessageDeclaration.areNumbersFree, Bool.and_eq_true, decide_eq_true_eq] at hnumbers
    exact hnumbers.2
  · show (fields.map MessageField.jsonName).Nodup
    rw [map_eq_map_of_mapM hfields fun f hf g h => (hfield f hf g h).2]
    rw [MessageDeclaration.areKeysDistinct, Bool.and_eq_true, decide_eq_true_eq] at hkeys
    exact hkeys.1

/-- Each message type that `ofFiles?` gives is linked from a declaration in one of the files. -/
theorem exists_link?_of_mem {files : List SchemaFile} {schema : Schema} (h : ofFiles? files = some schema)
    {e : String × MessageType} (he : e ∈ schema.messages) : ∃ file ∈ files,
      ∃ m ∈ file.declarations.messages,
        m.link? file.dialect (Visible.ofFile files file) = some e.2 ∧ e.2.name = e.1 := by
  unfold ofFiles? at h
  obtain ⟨schemas, hschemas, h⟩ := Option.bind_eq_some_iff.mp h
  obtain ⟨-, h⟩ := Option.ite_none_right_eq_some.mp h
  cases h
  rw [Entries.ofList, Entries.insertAll_eq] at he
  have hmem := (Assoc.mem_of_mem_insertAll he).resolve_right (by simp)
  obtain ⟨linked, hlinked, he⟩ := List.mem_flatMap.mp hmem
  obtain ⟨file, hfile, hlink⟩ := exists_of_mem_mapM hschemas hlinked
  unfold SchemaFile.link? at hlink
  obtain ⟨messages, hmessages, hlink⟩ := Option.bind_eq_some_iff.mp hlink
  obtain ⟨enums, -, hlink⟩ := Option.bind_eq_some_iff.mp hlink
  obtain ⟨-, hlink⟩ := Option.ite_none_right_eq_some.mp hlink
  cases hlink
  obtain ⟨type, htype, rfl⟩ := List.mem_map.mp he
  obtain ⟨message, hmessage, hlink⟩ := exists_of_mem_mapM hmessages htype
  exact ⟨file, hfile, message, hmessage, hlink, rfl⟩

/-- The message types that `ofFiles?` gives are sorted by name. -/
theorem isSorted_of_ofFiles? {files : List SchemaFile} {schema : Schema}
    (h : ofFiles? files = some schema) : Assoc.IsSorted schema.messages := by
  unfold ofFiles? at h
  obtain ⟨schemas, -, h⟩ := Option.bind_eq_some_iff.mp h
  obtain ⟨-, h⟩ := Option.ite_none_right_eq_some.mp h
  cases h
  exact Entries.isSorted_ofList _

/-- A schema that `ofFiles?` gives for files without absolute names is linked. -/
theorem isLinked_of_ofFiles? {files : List SchemaFile} {schema : Schema}
    (hnamed : ∀ f ∈ files, f.IsNamed) (h : ofFiles? files = some schema) : schema.IsLinked := by
  have hentry : ∀ e ∈ schema.messages, e.2.name = e.1 ∧ ¬ IsAbsolute e.1 ∧ e.2.IsLinked := by
    intro e he
    obtain ⟨file, hfile, message, hmessage, hlink, hkey⟩ := exists_link?_of_mem h he
    obtain ⟨hname, htype⟩ := MessageDeclaration.isLinked_of_link? hlink
    exact ⟨hkey, hkey ▸ hname ▸ hnamed file hfile message hmessage, htype⟩
  refine ⟨isSorted_of_ofFiles? h, fun e he => (hentry e he).1, fun e he => (hentry e he).2.1,
    fun e he => (hentry e he).2.2⟩

/-- Every schema that `ofText?` gives is linked: its types are under their own names, none of them absolute, and
their fields are apart. -/
theorem isLinked_of_ofText? {text : String} {schema : Schema} (h : ofText? text = some schema) :
    schema.IsLinked := by
  obtain ⟨files, hfiles, hnamed⟩ := exists_files_of_ofText?
    (fun _ _ _ hread => SchemaFile.isNamed_of_ofText? hread) Bundled.isNamed_of_mem_all h
  exact isLinked_of_ofFiles? hnamed hfiles

/-- Every schema that `ofPaths?` gives is linked. -/
theorem isLinked_of_ofPaths? {view : FileView} {paths : List String} {schema : Schema}
    (h : ofPaths? view paths = some schema) : schema.IsLinked := by
  obtain ⟨files, hfiles, hnamed⟩ := exists_files_of_ofPaths?
    (fun _ _ _ hread => SchemaFile.isNamed_of_ofText? hread) Bundled.isNamed_of_mem_all h
  exact isLinked_of_ofFiles? hnamed hfiles

end Schema

namespace SchemaStore

/-- The store holds what `loadText` or `loadFiles` has put into the empty store. -/
inductive IsFilled (store : SchemaStore) : Prop
  | text {text : String} (h : loadText {} text = .ok store)
  | files {view : FileView} {paths : List String} (h : loadFiles {} view paths = .ok store)

/-- Filling the empty store succeeds exactly if there is a schema to load, and gives the store that holds it. -/
theorem fill_eq_ok_iff {origin : String} {loaded : Unit → Option Schema} {store : SchemaStore} :
    fill {} origin loaded = .ok store ↔ ∃ schema, loaded () = some schema ∧ store = ⟨some schema⟩ := by
  unfold fill
  rw [if_neg (by decide)]
  cases loaded () with
  | none => simp
  | some schema => simp [eq_comm]

/-- For the empty store `loadText` succeeds exactly if `ofText?` gives a schema, and gives the store that holds
it. -/
theorem loadText_eq_ok_iff {text : String} {store : SchemaStore} :
    loadText {} text = .ok store ↔ ∃ schema, Schema.ofText? text = some schema ∧ store = ⟨some schema⟩ :=
  fill_eq_ok_iff

/-- In a filled store `find` succeeds exactly if `find?` of its schema does, with this schema and this type. -/
theorem find_eq_ok_iff {schema found : Schema} {type : MessageType} {name : String} :
    find ⟨some schema⟩ name = .ok (found, type) ↔ found = schema ∧ schema.find? name = some type := by
  unfold find
  rw [bind_eq_ok_iff]
  constructor
  · rintro ⟨own, hown, hfind⟩
    obtain rfl : schema = own := Except.ok.inj hown
    split at hfind <;> cases hfind
    exact ⟨rfl, ‹_›⟩
  · rintro ⟨rfl, hfind⟩
    exact ⟨found, rfl, by rw [hfind]⟩

/-- In a filled store `find` fails with `typeNotFound` if `find?` of its schema gives nothing. -/
theorem find_eq_error {schema : Schema} {name : String} (h : schema.find? name = none) :
    find ⟨some schema⟩ name = .error (.typeNotFound name) := by
  unfold find
  rw [show (⟨some schema⟩ : SchemaStore).schema = .ok schema from rfl]
  simp only [bind, Except.bind, h]

/-- A filled store holds a schema that `ofText?` or `ofPaths?` has given. -/
theorem IsFilled.exists_schema {store : SchemaStore} (h : store.IsFilled) :
    ∃ schema, store = ⟨some schema⟩ ∧
      ((∃ text, Schema.ofText? text = some schema) ∨
        ∃ view paths, Schema.ofPaths? view paths = some schema) := by
  cases h with
  | @text text h =>
    obtain ⟨schema, hschema, hstore⟩ := loadText_eq_ok_iff.mp h
    exact ⟨schema, hstore, .inl ⟨text, hschema⟩⟩
  | @files view paths h =>
    unfold loadFiles at h
    split at h
    · cases h
    · obtain ⟨schema, hschema, hstore⟩ := fill_eq_ok_iff.mp h
      exact ⟨schema, hstore, .inr ⟨view, paths, hschema⟩⟩

/-- A filled store holds a linked schema. -/
theorem IsFilled.exists_isLinked {store : SchemaStore} (h : store.IsFilled) :
    ∃ schema, store = ⟨some schema⟩ ∧ schema.IsLinked := by
  obtain ⟨schema, hstore, ⟨text, hschema⟩ | ⟨view, paths, hschema⟩⟩ := h.exists_schema
  · exact ⟨schema, hstore, Schema.isLinked_of_ofText? hschema⟩
  · exact ⟨schema, hstore, Schema.isLinked_of_ofPaths? hschema⟩

end SchemaStore

end Tagwire
