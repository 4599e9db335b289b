import Tagwire.Proofs.Schema.Loaded
import Tagwire.Proofs.Wire.FirstField

/-!
# The form of loaded fields

Whatever documents a schema has been loaded from, its fields have numbers that fit a key, a scalar stands in
none that is a map, a list or a map in no oneof, and for every map the message of its entries is declared along
with it.  A single text has a text as its default, which is empty where a field that is set to it is not told
from one that is not set.  The values of enumerations have numbers of 32 bits.
-/

set_option autoImplicit false

namespace Tagwire

namespace Schema

/-! ## Declared fields -/

/-- The number is positive and below `2 ^ 29`, a map is not of a scalar, and a list or a map is in no oneof. -/
def FieldDeclaration.IsFormed (field : FieldDeclaration) : Prop :=
  (0 < field.number ∧ field.number < 2 ^ 29) ∧ (field.shape ≠ .single → field.oneof = none) ∧
    match field.type with
    | .scalar _ => field.shape ≠ .map
    | .named _ => True

/-- The form of a field is seen from its number, its type, its shape and its oneof. -/
instance (field : FieldDeclaration) : Decidable field.IsFormed := by
  unfold FieldDeclaration.IsFormed
  cases field.type <;> infer_instance

/-- If the field is a map, its entry type is among the messages, with the fields `key` and `value`. -/
def FieldDeclaration.HasEntry (messages : List MessageDeclaration) (field : FieldDeclaration) : Prop :=
  field.shape = .map → ∃ m ∈ messages, field.type = .named ("." ++ m.name) ∧ ∃ key value,
    isKeyKind key = true ∧ m.fields = [{ name := "key", number := 1, type := .scalar key },
      { name := "value", number := 2, type := value }]

/-- The numbers of the enumeration are integers of 32 bits. -/
def EnumDeclaration.IsFormed (enum : EnumDeclaration) : Prop :=
  ∀ v ∈ enum.values, -(2 ^ 31) ≤ v.number ∧ v.number ≤ 2 ^ 31 - 1

/-- The form of an enumeration is seen from its values. -/
instance (enum : EnumDeclaration) : Decidable enum.IsFormed := by
  unfold EnumDeclaration.IsFormed
  infer_instance

/-- The fields of the declared messages are formed and have their entry types among these messages, and the
declared enumerations are formed. -/
structure Declarations.IsFormed (declarations : Declarations) : Prop where
  fields : ∀ m ∈ declarations.messages, ∀ f ∈ m.fields, f.IsFormed
  entries : ∀ m ∈ declarations.messages, ∀ f ∈ m.fields, f.HasEntry declarations.messages
  enums : ∀ e ∈ declarations.enums, e.IsFormed

/-- The fields of a block are formed and have their entry types among the messages in the block, whose
declarations are formed too. -/
structure Members.IsFormed (members : Members) : Prop where
  fields : ∀ f ∈ members.fields, f.IsFormed
  entries : ∀ f ∈ members.fields, f.HasEntry members.nested.messages
  nested : members.nested.IsFormed

/-- A field that has its entry type among some messages has it among more. -/
theorem FieldDeclaration.HasEntry.mono {messages more : List MessageDeclaration} {field : FieldDeclaration}
    (h : field.HasEntry messages) (hsub : ∀ m ∈ messages, m ∈ more) : field.HasEntry more := by
  intro hshape
  obtain ⟨m, hm, hentry⟩ := h hshape
  exact ⟨m, hsub m hm, hentry⟩

/-- A field that is no map has its entry type among any messages. -/
theorem FieldDeclaration.hasEntry_of_ne {field : FieldDeclaration} (h : field.shape ≠ .map)
    (messages : List MessageDeclaration) : field.HasEntry messages :=
  fun hshape => absurd hshape h

/-- Formed declarations behind formed declarations are formed. -/
theorem Declarations.IsFormed.append {a b : Declarations} (ha : a.IsFormed) (hb : b.IsFormed) :
    (a ++ b).IsFormed := by
  constructor
  · intro m hm
    rcases List.mem_append.mp hm with hm | hm
    · exact ha.fields m hm
    · exact hb.fields m hm
  · intro m hm f hf
    rcases List.mem_append.mp hm with hm | hm
    · exact (ha.entries m hm f hf).mono fun _ => List.mem_append_left _
    · exact (hb.entries m hm f hf).mono fun _ => List.mem_append_right _
  · intro e he
    rcases List.mem_append.mp he with he | he
    · exact ha.enums e he
    · exact hb.enums e he

/-- Declarations without messages and enumerations are formed. -/
theorem Declarations.isFormed_of_eq_nil {declarations : Declarations} (hmessages : declarations.messages = [])
    (henums : declarations.enums = []) : declarations.IsFormed := by
  constructor <;> simp [hmessages, henums]

/-- Formed members behind formed members are formed. -/
theorem Members.IsFormed.append {a b : Members} (ha : a.IsFormed) (hb : b.IsFormed) :
    (a ++ b).IsFormed := by
  refine ⟨fun f hf => ?_, fun f hf => ?_, ha.nested.append hb.nested⟩
  · rcases List.mem_append.mp hf with hf | hf
    · exact ha.fields f hf
    · exact hb.fields f hf
  · rcases List.mem_append.mp hf with hf | hf
    · exact (ha.entries f hf).mono fun _ => List.mem_append_left _
    · exact (hb.entries f hf).mono fun _ => List.mem_append_right _

/-- Members without fields, messages and enumerations are formed. -/
theorem Members.isFormed_of_eq_nil {members : Members} (hfields : members.fields = [])
    (hmessages : members.nested.messages = []) (henums : members.nested.enums = []) : members.IsFormed :=
  ⟨by simp [hfields], by simp [hfields], Declarations.isFormed_of_eq_nil hmessages henums⟩

/-- `fieldMembers` declares no enumeration. -/
theorem enums_fieldMembers (scope : String) (context : FieldContext) (dialect : Dialect)
    (field : FieldDeclaration) (messages : List MessageDeclaration) :
    (fieldMembers scope context dialect field messages).nested.enums = [] := by
  cases context <;> rfl

/-- `fieldMembers` gives formed members for a formed field that has its pair type, if it is a map, among
messages without maps of their own. -/
theorem isFormed_fieldMembers {scope : String} {context : FieldContext} {dialect : Dialect}
    {field : FieldDeclaration} {messages : List MessageDeclaration} (hfield : field.IsFormed)
    (hentry : field.HasEntry messages)
    (hmessages : ∀ m ∈ messages, ∀ f ∈ m.fields, f.IsFormed ∧ f.shape ≠ .map) :
    (fieldMembers scope context dialect field messages).IsFormed := by
  constructor
  case fields => cases context <;> simp [fieldMembers, hfield]
  case entries =>
    rw [messages_fieldMembers]
    cases context <;> simp [fieldMembers, hentry]
  case nested =>
    constructor
    case enums => simp [enums_fieldMembers]
    all_goals rw [messages_fieldMembers]; intro m hm f hf
    · exact (hmessages m hm f hf).1
    · exact FieldDeclaration.hasEntry_of_ne (hmessages m hm f hf).2 _

/-- The members `fieldMembers` of a formed field that is no map, without messages, are formed. -/
theorem isFormed_fieldMembers_of_ne {scope : String} {context : FieldContext} {dialect : Dialect}
    {field : FieldDeclaration} (hfield : field.IsFormed) (hshape : field.shape ≠ .map) :
    (fieldMembers scope context dialect field []).IsFormed :=
  isFormed_fieldMembers hfield (FieldDeclaration.hasEntry_of_ne hshape _) (by simp)

/-- `messageMembers` of formed members is formed. -/
theorem isFormed_messageMembers {name : String} {members : Members} (h : members.IsFormed) :
    (messageMembers name members).IsFormed := by
  refine ⟨fun f hf => (by cases hf), fun f hf => (by cases hf), ?_, ?_, h.nested.enums⟩
  · intro m hm
    rcases List.mem_cons.mp hm with rfl | hm
    · exact h.fields
    · exact h.nested.fields m hm
  · intro m hm f hf
    rcases List.mem_cons.mp hm with rfl | hm
    · exact (h.entries f hf).mono fun _ => List.mem_cons_of_mem _
    · exact (h.nested.entries m hm f hf).mono fun _ => List.mem_cons_of_mem _

/-! ## Reading -/

/-- A number that `readFieldRest?` reads is positive and below `2 ^ 29`. -/
theorem bounds_of_readFieldRest? {tokens : List Token} {name : String} {number : Nat}
    {options : List OptionSetting} (h : readFieldRest? tokens = some (name, number, options)) :
    0 < number ∧ number < 2 ^ 29 := by
  unfold readFieldRest? at h
  split at h
  · obtain ⟨read, -, h⟩ := Option.bind_eq_some_iff.mp h
    split at h <;> cases h
    rename_i hnumber
    rw [NumberRange.contains, Bool.and_eq_true, decide_eq_true_eq, decide_eq_true_eq] at hnumber
    simp only [fieldNumbers] at hnumber
    omega
  · cases h

/-- The fields of `entryMessage` are formed, and none is a map. -/
theorem isFormed_entryMessage (scope name : String) (key : Scalar) (value : TypeReference) :
    ∀ f ∈ (entryMessage scope name key value).fields, f.IsFormed ∧ f.shape ≠ .map := by
  intro f hf
  rcases List.mem_cons.mp hf with rfl | hf
  · exact ⟨⟨⟨Nat.one_pos, show 1 < 2 ^ 29 by decide⟩, fun _ => rfl, nofun⟩, nofun⟩
  · obtain rfl := List.mem_singleton.mp hf
    refine ⟨⟨⟨Nat.two_pos, show 2 < 2 ^ 29 by decide⟩, fun _ => rfl, ?_⟩, nofun⟩
    cases value with
    | scalar kind => exact nofun
    | named path => trivial

/-- A repeated field that is admitted is in no oneof. -/
theorem oneof?_of_admits {context : FieldContext} {dialect : Dialect} {name : String}
    (h : context.admits dialect (some .repeated) = true) :
    context.oneof? dialect (some .repeated) name = none := by
  cases context with
  | oneof oneofName => cases dialect <;> cases h
  | message => simp [FieldContext.oneof?]
  | extend target => rfl

/-- A field that is admitted and whose shape is not single is in no oneof. -/
theorem oneof?_eq_none_of_ne {context : FieldContext} {dialect : Dialect} {label : Option FieldLabel}
    {name : String} (hadmits : context.admits dialect label = true)
    (h : (if label = some .repeated then FieldShape.list else .single) ≠ .single) :
    context.oneof? dialect label name = none := by
  by_cases hlabel : label = some .repeated
  · exact hlabel ▸ oneof?_of_admits (hlabel ▸ hadmits)
  · exact absurd (if_neg hlabel) h

/-- `readField?` gives formed members: a map field comes with its pair type. -/
theorem isFormed_of_readField? {dialect : Dialect} {scope : String} {context : FieldContext}
    {tokens : List Token} {members : Members}
    (h : readField? dialect scope context tokens = some members) : members.IsFormed := by
  unfold readField? at h
  split at h
  · unfold readMapField? at h
    split at h
    · obtain ⟨key, -, h⟩ := Option.bind_eq_some_iff.mp h
      obtain ⟨⟨value, behind⟩, -, h⟩ := Option.bind_eq_some_iff.mp h
      dsimp only at h
      split at h
      · obtain ⟨⟨name, number, options⟩, hrest, h⟩ := Option.bind_eq_some_iff.mp h
        obtain ⟨hkey, hfield⟩ := Option.ite_none_right_eq_some.mp h
        cases hfield
        refine isFormed_fieldMembers ⟨bounds_of_readFieldRest? hrest, fun _ => rfl, trivial⟩ ?_ ?_
        · exact fun _ => ⟨_, List.mem_singleton_self _, rfl, key, value, hkey, rfl⟩
        · rw [List.forall_mem_singleton]
          exact isFormed_entryMessage scope name key value
      · cases h
    · cases h
  · unfold readPlainField? at h
    obtain ⟨⟨type, rest⟩, -, h⟩ := Option.bind_eq_some_iff.mp h
    obtain ⟨⟨name, number, options⟩, hrest, h⟩ := Option.bind_eq_some_iff.mp h
    obtain ⟨hadmits, hfield⟩ := Option.ite_none_right_eq_some.mp h
    cases hfield
    refine isFormed_fieldMembers_of_ne
      ⟨bounds_of_readFieldRest? hrest, oneof?_eq_none_of_ne hadmits, ?_⟩ ?_
    · cases type with
      | scalar kind =>
        dsimp only
        split <;> simp
      | named path => trivial
    · dsimp only
      split <;> simp

/-- A number that `readEnumValue?` reads is an integer of 32 bits. -/
theorem bounds_of_readEnumValue? {tokens : List Token} {value : EnumValueDeclaration}
    (h : readEnumValue? tokens = some value) : -(2 ^ 31) ≤ value.number ∧ value.number ≤ 2 ^ 31 - 1 := by
  unfold readEnumValue? at h
  split at h
  · obtain ⟨⟨number, rest⟩, -, h⟩ := Option.bind_eq_some_iff.mp h
    obtain ⟨options, -, h⟩ := Option.bind_eq_some_iff.mp h
    obtain ⟨hnumber, heq⟩ := Option.ite_none_right_eq_some.mp h
    cases heq
    rw [NumberRange.contains, Bool.and_eq_true, decide_eq_true_eq, decide_eq_true_eq] at hnumber
    exact hnumber
  · cases h

/-- An enumeration stays formed when `readEnumStatement?` reads a statement. -/
theorem EnumDeclaration.IsFormed.of_readEnumStatement? {enum next : EnumDeclaration} {statement : Statement}
    (henum : enum.IsFormed) (h : readEnumStatement? enum statement = some next) : next.IsFormed := by
  unfold readEnumStatement? at h
  split at h
  · obtain ⟨setting, -, heq⟩ := Option.bind_eq_some_iff.mp h
    cases heq
    exact henum
  · obtain ⟨ranges, -, heq⟩ := Option.bind_eq_some_iff.mp h
    cases heq
    exact henum
  · obtain ⟨value, hvalue, heq⟩ := Option.bind_eq_some_iff.mp h
    cases heq
    have hbounds := bounds_of_readEnumValue? hvalue
    exact List.forall_mem_append.mpr ⟨henum, List.forall_mem_singleton.mpr hbounds⟩
  · cases h

/-- An enumeration that `readEnum?` reads is formed. -/
theorem isFormed_of_readEnum? {scope name : String} {body : List Statement} {enum : EnumDeclaration}
    (h : readEnum? scope name body = some enum) : enum.IsFormed := by
  refine of_foldlM_eq_some ?_ (fun _ _ _ _ henum hnext => henum.of_readEnumStatement? hnext) h
  simp [EnumDeclaration.IsFormed]

/-- `readPlainMember?` gives formed members, which it reads as a field or which have none. -/
theorem isFormed_of_readPlainMember? {dialect : Dialect} {scope : String} {context : FieldContext}
    {tokens : List Token} {members : Members}
    (h : readPlainMember? dialect scope context tokens = some members) : members.IsFormed := by
  unfold readPlainMember? at h
  split at h
  · obtain ⟨setting, -, rfl⟩ := Option.map_eq_some_iff.mp h
    exact Members.isFormed_of_eq_nil rfl rfl rfl
  · obtain ⟨ranges, -, rfl⟩ := Option.map_eq_some_iff.mp h
    exact Members.isFormed_of_eq_nil rfl rfl rfl
  · obtain ⟨ranges, -, h⟩ := Option.bind_eq_some_iff.mp h
    obtain ⟨options, -, h⟩ := Option.bind_eq_some_iff.mp h
    split at h <;> cases h
    exact Members.isFormed_of_eq_nil rfl rfl rfl
  · obtain ⟨setting, -, rfl⟩ := Option.map_eq_some_iff.mp h
    exact Members.isFormed_of_eq_nil rfl rfl rfl
  · exact isFormed_of_readField? h

/-- `readGroup?` gives a formed field, which is no map. -/
theorem isFormed_of_readGroup? {dialect : Dialect} {context : FieldContext} {tokens : List Token}
    {field : FieldDeclaration} (h : readGroup? dialect context tokens = some field) :
    field.IsFormed ∧ field.shape ≠ .map := by
  unfold readGroup? at h
  dsimp only at h
  split at h
  · obtain ⟨⟨name, number, options⟩, hrest, h⟩ := Option.bind_eq_some_iff.mp h
    obtain ⟨⟨-, -, hadmits⟩, hfield⟩ := Option.ite_none_right_eq_some.mp h
    cases hfield
    refine ⟨⟨bounds_of_readFieldRest? hrest, oneof?_eq_none_of_ne hadmits, trivial⟩, ?_⟩
    dsimp only
    split <;> simp
  · cases h

/-- Members with `ReadsMembers` are formed. -/
theorem ReadsMembers.isFormed {dialect : Dialect} {scope : String} {context : FieldContext}
    {statements : List Statement} {members : Members}
    (h : ReadsMembers dialect scope context statements members) : members.IsFormed := by
  induction h with
  | nil => exact Members.isFormed_of_eq_nil rfl rfl rfl
  | plain hfirst _ ihOthers => exact (isFormed_of_readPlainMember? hfirst).append ihOthers
  | message _ _ ihInner ihOthers => exact (isFormed_messageMembers ihInner).append ihOthers
  | @enum _ _ _ _ enum _ henum _ ihOthers =>
    have hown : Members.IsFormed { nested := { enums := [enum] } } :=
      ⟨by simp, by simp, by simp, by simp, List.forall_mem_singleton.mpr (isFormed_of_readEnum? henum)⟩
    exact hown.append ihOthers
  | @oneof _ name _ _ inner _ _ _ _ ihInner ihOthers =>
    have hoptions : Members.IsFormed { inner with options := [], oneofs := [⟨name, inner.options⟩] } :=
      ⟨ihInner.fields, ihInner.entries, ihInner.nested⟩
    exact hoptions.append ihOthers
  | extend _ _ _ _ ihInner ihOthers => exact ihInner.append ihOthers
  | group hfield _ _ _ ihInner ihOthers =>
    obtain ⟨hformed, hshape⟩ := isFormed_of_readGroup? hfield
    apply Members.IsFormed.append _ ihOthers
    exact (isFormed_fieldMembers_of_ne hformed hshape).append (isFormed_messageMembers ihInner)

/-- Declarations with `ReadsDeclarations` are formed. -/
theorem ReadsDeclarations.isFormed {dialect : Dialect} {scope : String} {statements : List Statement}
    {declarations : Declarations} (h : ReadsDeclarations dialect scope statements declarations) :
    declarations.IsFormed := by
  induction h with
  | nil => exact Declarations.isFormed_of_eq_nil rfl rfl
  | plain _ ih => exact ih
  | service _ _ ih => exact (Declarations.isFormed_of_eq_nil rfl rfl).append ih
  | block hmembers _ ih => exact (readsMembers_of_readMembers? hmembers).isFormed.nested.append ih

/-- The declarations of a file that `ofText?` reads are formed. -/
theorem SchemaFile.isFormed_of_ofText? {path text : String} {file : SchemaFile}
    (h : SchemaFile.ofText? path text = some file) : file.declarations.IsFormed := by
  unfold SchemaFile.ofText? at h
  obtain ⟨statements, -, h⟩ := Option.bind_eq_some_iff.mp h
  obtain ⟨⟨dialect, rest⟩, -, h⟩ := Option.bind_eq_some_iff.mp h
  obtain ⟨headed, -, h⟩ := Option.bind_eq_some_iff.mp h
  obtain ⟨declarations, hdeclarations, h⟩ := Option.bind_eq_some_iff.mp h
  cases h
  exact (readsDeclarations_of_readDeclarations? hdeclarations).isFormed

/-- The only map of the bundled documents is that of `Struct`, whose values are of type `Value`. -/
theorem Bundled.eq_struct_of_map {file : SchemaFile} (hfile : file ∈ all) {m : MessageDeclaration}
    (hm : m ∈ file.declarations.messages) {f : FieldDeclaration} (hf : f ∈ m.fields) (hshape : f.shape = .map) :
    file = struct ∧ f.type = typeNamed "Struct.FieldsEntry" := by
  have hpaths : (all.map SchemaFile.path).Nodup := by
    decide
  have hmaps : ∀ f ∈ all, ∀ m ∈ f.declarations.messages, ∀ g ∈ m.fields, g.shape = .map →
      f.path = struct.path ∧ g.type = typeNamed "Struct.FieldsEntry" := by
    decide
  obtain ⟨hpath, htype⟩ := hmaps file hfile m hm f hf hshape
  exact ⟨List.inj_on_of_nodup_map hpaths hfile (by simp [all]) hpath, htype⟩

/-- The declarations of each bundled document are formed. -/
theorem Bundled.isFormed_of_mem_all : ∀ f ∈ all, f.declarations.IsFormed := by
  have hfields : ∀ f ∈ all, ∀ m ∈ f.declarations.messages, ∀ g ∈ m.fields, g.IsFormed := by
    decide
  have henums : ∀ f ∈ all, ∀ e ∈ f.declarations.enums, e.IsFormed := by
    decide
  intro file hfile
  refine ⟨hfields file hfile, fun m hm f hf hshape => ?_, henums file hfile⟩
  obtain ⟨rfl, htype⟩ := eq_struct_of_map hfile hm hf hshape
  exact ⟨fieldsEntry, fieldsEntry_mem, by rw [htype, name_fieldsEntry]; rfl, .string, typeNamed "Value",
    rfl, rfl⟩

end Schema

/-! ## Linked fields -/

/-- The number is positive, a map is not of a scalar, and the default of a field of text is a text, empty unless
the field has presence. -/
structure MessageField.IsFormed (field : MessageField) : Prop where
  number_pos : 0 < field.number
  shape_ne_map : ∀ kind, field.type = .scalar kind → field.shape ≠ .map
  default : field.IsText → ∃ text, field.default = .string text ∧ (field.presence = false → text = "")

namespace Schema

/-- The default of a single field of the kind `string` is a text, which is empty unless the field has
presence. -/
theorem FieldDeclaration.exists_default {dialect : Dialect} {visible : Visible}
    {field : FieldDeclaration} {default : Value} (hshape : field.shape = .single)
    (h : field.default? dialect visible (.scalar .string) = some default) :
    ∃ text, default = .string text ∧
      (field.hasPresence dialect (.scalar .string) = false → text = "") := by
  unfold FieldDeclaration.default? at h
  rw [hshape] at h
  cases hsetting : settingOf? field.options "default" with
  | none =>
    rw [hsetting] at h
    cases h
    exact ⟨"", rfl, fun _ => rfl⟩
  | some value =>
    -- Only the older dialect lets a default be given, and there every single field has presence.
    rw [hsetting] at h
    obtain ⟨rfl, hdefault⟩ := Option.ite_none_right_eq_some.mp h
    have hpresence : field.hasPresence .proto2 (.scalar .string) = true := by
      simp [FieldDeclaration.hasPresence, hshape]
    cases value with
    | text bytes =>
      obtain ⟨text, -, rfl⟩ := Option.map_eq_some_iff.mp hdefault
      exact ⟨text, rfl, fun hnone => absurd hpresence (Bool.eq_false_iff.mp hnone)⟩
    | word _ | integer _ | decimal _ _ | aggregate => cases hdefault

/-- A formed field that `link?` finds the type of links to a formed field. -/
theorem FieldDeclaration.isFormed_of_link? {dialect : Dialect} {visible : Visible} {scope : String}
    {field : FieldDeclaration} {linked : MessageField} (hfield : field.IsFormed)
    (h : field.link? dialect visible scope = some linked) : linked.IsFormed := by
  unfold FieldDeclaration.link? at h
  obtain ⟨type, htype, h⟩ := Option.bind_eq_some_iff.mp h
  obtain ⟨default, hdefault, h⟩ := Option.bind_eq_some_iff.mp h
  obtain ⟨-, h⟩ := Option.ite_none_right_eq_some.mp h
  cases h
  constructor
  case number_pos => exact hfield.1.1
  case shape_ne_map =>
    rintro kind rfl
    -- A name never stands for a scalar.
    have hform := hfield.2.2
    cases hreference : field.type with
    | scalar own =>
      rw [hreference] at hform
      exact hform
    | named path =>
      rw [hreference] at htype
      obtain ⟨name, -, hname⟩ := Option.bind_eq_some_iff.mp htype
      exfalso
      split at hname <;> cases hname
  case default =>
    rintro ⟨rfl, hshape⟩
    exact FieldDeclaration.exists_default hshape hdefault

/-! ## Loaded schemas -/

/-- The message types that formed files link to have formed fields. -/
theorem isFormed_of_ofFiles? {files : List SchemaFile} {schema : Schema}
    (hformed : ∀ f ∈ files, f.declarations.IsFormed) (h : ofFiles? files = some schema) :
    ∀ e ∈ schema.messages, ∀ f ∈ e.2.fields, f.IsFormed := by
  intro e he f hf
  obtain ⟨file, hfile, message, hmessage, hlink, -⟩ := exists_link?_of_mem h he
  unfold MessageDeclaration.link? at hlink
  obtain ⟨fields, hfields, hlink⟩ := Option.bind_eq_some_iff.mp hlink
  obtain ⟨-, hlink⟩ := Option.ite_none_right_eq_some.mp hlink
  rw [← Option.some.inj hlink] at hf
  obtain ⟨field, hfield, hf⟩ := exists_of_mem_mapM hfields hf
  exact FieldDeclaration.isFormed_of_link? ((hformed file hfile).fields message hmessage field hfield) hf

/-- A schema that `ofText?` or `ofPaths?` gives is linked from formed files. -/
theorem exists_files_of_load {schema : Schema} (h : (∃ text, ofText? text = some schema) ∨
    ∃ view paths, ofPaths? view paths = some schema) :
    ∃ files, ofFiles? files = some schema ∧ ∀ f ∈ files, f.declarations.IsFormed := by
  have htext : ∀ path text file, SchemaFile.ofText? path text = some file → file.declarations.IsFormed :=
    fun _ _ _ hread => SchemaFile.isFormed_of_ofText? hread
  obtain ⟨text, h⟩ | ⟨view, paths, h⟩ := h
  · exact exists_files_of_ofText? htext Bundled.isFormed_of_mem_all h
  · exact exists_files_of_ofPaths? htext Bundled.isFormed_of_mem_all h

/-- A schema that `ofText?` or `ofPaths?` gives has formed fields. -/
theorem isFormed_of_load {schema : Schema} (h : (∃ text, ofText? text = some schema) ∨
    ∃ view paths, ofPaths? view paths = some schema) :
    ∀ e ∈ schema.messages, ∀ f ∈ e.2.fields, f.IsFormed := by
  obtain ⟨files, hfiles, hformed⟩ := exists_files_of_load h
  exact isFormed_of_ofFiles? hformed hfiles

end Schema

/-- A filled store holds a linked schema with formed fields. -/
theorem SchemaStore.IsFilled.exists_isFormed {store : SchemaStore} (h : store.IsFilled) :
    ∃ schema, store = ⟨some schema⟩ ∧ schema.IsLinked ∧
      ∀ e ∈ schema.messages, ∀ f ∈ e.2.fields, f.IsFormed := by
  obtain ⟨schema, rfl, hlinked⟩ := h.exists_isLinked
  obtain ⟨own, hstore, hload⟩ := h.exists_schema
  obtain rfl : schema = own := by simpa using hstore
  exact ⟨schema, rfl, hlinked, Schema.isFormed_of_load hload⟩

end Tagwire
