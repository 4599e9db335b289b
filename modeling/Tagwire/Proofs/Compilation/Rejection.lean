import Tagwire.Proofs.Compilation.Cycles
import Tagwire.Proofs.Layout.Inheritance
import Tagwire.Proofs.Layout.Messages

/-!
# Why a compilation fails

A compilation that fails does so in the first phase in which the definitions have something that it refuses,
and its error describes them: what it names is listed, and has the fault that it names.  The phases are
followed one by one, each through the step that fails: a definition that is added to those before it, a field
of a definition, a reference cycle, and a record key in the lineage of a definition.
-/

set_option autoImplicit false

namespace Tagwire

/-! ## What errors say -/

/-- The four phases of `compile`, in the order in which they run. -/
inductive Phase where
  | listing
  | checking
  | searching
  | layingOut

namespace Phase

/-- How many phases run before this one. -/
def place : Phase → Nat
  | listing => 0
  | checking => 1
  | searching => 2
  | layingOut => 3

/-- The definitions have something that the phase refuses, in terms of the definitions alone. -/
def IsViolated (definitions : List RecordDefinition) : Phase → Prop
  | listing =>
    ¬ (definitions.map (·.id)).Nodup ∨ (∃ d ∈ definitions, isMessageName (derivedName d.id) = false) ∨
      ¬ (definitions.map (derivedName ·.id)).Nodup
  | checking =>
    ∃ d ∈ definitions, d.fields = [] ∨ (∃ parent ∉ definitions.map (·.id), d.parent = some parent) ∨
      ∃ f ∈ d.fields, isRecordKey f.1 = false ∨
        ∃ target ∉ definitions.map (·.id), f.2.kind = .record target
  | searching => ∃ cycle, IsReferenceCycle definitions cycle
  | layingOut =>
    ∃ d ∈ definitions, ∃ chain, Lineage definitions d chain ∧ ¬ (typeField :: declaredKeys chain).Nodup

end Phase

/-- What the error says of `text` is so: it is too long, no identifier, or `baseMessage`. -/
def NameError.Describes (text : String) : NameError → Prop
  | tooLong name => name = text ∧ maxMessageNameBytes < text.utf8ByteSize
  | notIdentifier name => name = text ∧ isIdentifier text = false
  | reserved name => name = text ∧ text = baseMessage

/-- What the fault says of a field is so: its name is no identifier, or not its own record key, or its target is
not listed. -/
def FieldFault.Describes (definitions : List RecordDefinition) (field : String × FieldDefinition) :
    FieldFault → Prop
  | notIdentifier => isRecordKey field.1 = false ∧ isIdentifier field.1 = false
  | changedByMapping key => isRecordKey field.1 = false ∧ key = lowerCamel (snakeCase field.1)
  | unknownTarget target => field.2.kind = .record target ∧ target ∉ definitions.map (·.id)

/-- Who is said to have declared `key` before `d` did: the implicit tag if the key is `typeField`, `d` itself if
it has the key twice, or an ancestor of `d` that has it too. -/
def Declarer.Describes (definitions : List RecordDefinition) (d : RecordDefinition) (key : String) :
    Declarer → Prop
  | implicitTag => key = typeField
  | definition id =>
    (id = d.id ∧ 2 ≤ (d.fields.map Prod.fst).count key) ∨
      ∃ a, DescendsFrom definitions d a ∧ a.id = id ∧ key ∈ a.fields.map Prod.fst

namespace CompileError

/-- The phase that an error comes from. -/
def phase : CompileError → Phase
  | messageName _ | duplicateId _ | duplicateName _ _ _ => .listing
  | emptyDefinition _ | unknownParent _ _ | unsupportedField _ _ _ => .checking
  | cycle _ => .searching
  | redefinition _ _ _ => .layingOut

/-- What the error says of the definitions is so: what it names is there, and violates what it says. -/
def Describes (definitions : List RecordDefinition) : CompileError → Prop
  | messageName error => ∃ d ∈ definitions, error.Describes (derivedName d.id)
  | duplicateId id =>
    ∃ before d after, definitions = before ++ d :: after ∧ d.id = id ∧ id ∈ before.map (·.id)
  | duplicateName id name other =>
    ∃ before d after, definitions = before ++ d :: after ∧ d.id = id ∧ other ∈ before.map (·.id) ∧
      derivedName id = name.text ∧ derivedName other = name.text
  | emptyDefinition id => ∃ d ∈ definitions, d.id = id ∧ d.fields = []
  | unknownParent id parent =>
    ∃ d ∈ definitions, d.id = id ∧ d.parent = some parent ∧ parent ∉ definitions.map (·.id)
  | unsupportedField id name fault =>
    ∃ d ∈ definitions, d.id = id ∧ ∃ f ∈ d.fields, f.1 = name ∧ fault.Describes definitions f
  | cycle ids => IsReferenceCycle definitions ids
  | redefinition id key declarer =>
    ∃ d ∈ definitions, d.id = id ∧ key ∈ d.fields.map Prod.fst ∧ declarer.Describes definitions d key

end CompileError

/-! ## Listing -/

/-- An error of `MessageName.ofText` describes the text. -/
theorem MessageName.describes_of_ofText {text : String} {error : NameError}
    (h : MessageName.ofText text = .error error) : error.Describes text := by
  unfold MessageName.ofText at h
  split at h
  · cases h
  · rename_i hname
    split at h
    · rename_i hlong
      cases h
      exact ⟨rfl, hlong⟩
    · rename_i hshort
      split at h
      · rename_i hidentifier
        cases h
        exact ⟨rfl, by simpa using hidentifier⟩
      · rename_i hidentifier
        cases h
        refine ⟨rfl, ?_⟩
        by_contra hbase
        apply hname
        simp only [isMessageName, Bool.and_eq_true, decide_eq_true_eq, bne_iff_ne]
        exact ⟨⟨not_lt.mp hshort, by simpa using hidentifier⟩, hbase⟩

namespace Catalog

/-- `add` refuses a definition for its identity, which is listed already, or for its message name, which cannot
be derived or is listed already. -/
theorem error_of_add {catalog : Catalog} {definition : RecordDefinition} {error : CompileError}
    (hl : catalog.IsListing) (h : catalog.add definition = .error error) :
    (error = .duplicateId definition.id ∧ definition.id ∈ catalog.ids) ∨
      (∃ e, error = .messageName e ∧ e.Describes (derivedName definition.id)) ∨
      ∃ name other, error = .duplicateName definition.id name other ∧ other ∈ catalog.ids ∧
        derivedName definition.id = name.text ∧ derivedName other = name.text := by
  unfold add at h
  split at h
  · rename_i hcontains
    cases h
    exact .inl ⟨rfl, (contains_iff_mem_ids catalog definition.id).mp hcontains⟩
  · split at h
    · rename_i e hname
      cases h
      exact .inr (.inl ⟨e, rfl, MessageName.describes_of_ofText hname⟩)
    · rename_i name hname
      split at h
      · rename_i other hfound
        cases h
        have hmem := List.mem_of_find?_eq_some hfound
        have hsame : other.name = name := by simpa using List.find?_some hfound
        refine .inr (.inr ⟨name, other.definition.id, rfl, List.mem_map_of_mem hmem, ?_, ?_⟩)
        · exact (ofId_eq_ok_iff.mp hname).symm
        · rw [← hsame]
          exact (hl.derived other hmem).symm
      · cases h

/-- An error of `ofDefinitions` is of the phase `listing` and describes the definitions. -/
theorem describes_of_ofDefinitions {definitions : List RecordDefinition} {error : CompileError}
    (h : ofDefinitions definitions = .error error) :
    error.phase = .listing ∧ error.Describes definitions := by
  obtain ⟨before, d, after, catalog, rfl, hbefore, hadd⟩ := foldlM_eq_error_iff.mp h
  obtain ⟨hl, hdefinitions⟩ := isListing_of_ofDefinitions hbefore
  have hids : catalog.ids = before.map (·.id) := by rw [ids_eq_map_definitions, hdefinitions]
  rcases error_of_add hl hadd with ⟨rfl, hid⟩ | ⟨e, rfl, he⟩ | ⟨name, other, rfl, hother, hname, hsame⟩
  · exact ⟨rfl, before, d, after, rfl, rfl, hids ▸ hid⟩
  · exact ⟨rfl, d, by simp, he⟩
  · exact ⟨rfl, before, d, after, rfl, rfl, hids ▸ hother, hname, hsame⟩

/-- The phase `listing` is violated exactly if `ofDefinitions` fails. -/
theorem isViolated_listing_iff (definitions : List RecordDefinition) :
    Phase.listing.IsViolated definitions ↔ ¬ ∃ catalog, ofDefinitions definitions = .ok catalog := by
  have hnames : (∀ d ∈ definitions, isIdentifier (MessageName.stem d.id) = true ∧
      (MessageName.stem d.id).utf8ByteSize ≤ maxStemBytes) ↔
        ∀ d ∈ definitions, isMessageName (derivedName d.id) = true := by
    simp only [derivedName, isMessageName_append_messageSuffix]
  rw [exists_ofDefinitions_iff, ← nodup_names_iff_nodup_stems, hnames, not_and_or, not_and_or]
  simp only [not_forall, Bool.not_eq_true, exists_prop]
  rfl

/-! ## Checking -/

/-- A fault that `fieldFault?` finds describes the field. -/
theorem describes_of_fieldFault? {catalog : Catalog} {field : String × FieldDefinition} {fault : FieldFault}
    (h : catalog.fieldFault? field = some fault) : fault.Describes catalog.definitions field := by
  unfold fieldFault? at h
  split at h
  · rename_i found hname
    cases h
    have hkey : isRecordKey field.1 = false := by
      rw [← Bool.not_eq_true, ← nameFault?_eq_none_iff, hname]
      simp
    unfold nameFault? at hname
    split at hname
    · rename_i hidentifier
      cases hname
      exact ⟨hkey, by simpa using hidentifier⟩
    · dsimp only at hname
      split at hname
      · cases hname
      · cases hname
        exact ⟨hkey, rfl⟩
  · split at h
    · rename_i target hkind
      split at h
      · cases h
      · rename_i hcontains
        cases h
        rw [contains_iff_mem_ids, ids_eq_map_definitions] at hcontains
        exact ⟨hkind, hcontains⟩
    · cases h

/-- An error of `checkFields` is `unsupportedField` with a fault of one of the fields. -/
theorem exists_of_checkFields {catalog : Catalog} {id : RecordId} {fields : List (String × FieldDefinition)}
    {error : CompileError} (h : catalog.checkFields id fields = .error error) :
    ∃ f ∈ fields, ∃ fault, error = .unsupportedField id f.1 fault ∧
      fault.Describes catalog.definitions f := by
  induction fields with
  | nil => cases h
  | cons f rest ih =>
    unfold checkFields at h
    split at h
    · rename_i fault hfault
      cases h
      exact ⟨f, List.mem_cons_self, fault, rfl, describes_of_fieldFault? hfault⟩
    · obtain ⟨g, hg, hfault⟩ := ih h
      exact ⟨g, List.mem_cons_of_mem _ hg, hfault⟩

/-- An error of `checkDefinition` is of the phase `checking` and describes the definitions. -/
theorem describes_of_checkDefinition {catalog : Catalog} {d : RecordDefinition}
    (hd : d ∈ catalog.definitions) {error : CompileError} (h : catalog.checkDefinition d = .error error) :
    error.phase = .checking ∧ error.Describes catalog.definitions := by
  have hfields : ∀ {error : CompileError}, catalog.checkFields d.id d.fields = .error error →
      error.phase = .checking ∧ error.Describes catalog.definitions := by
    intro error h
    obtain ⟨f, hf, fault, rfl, hfault⟩ := exists_of_checkFields h
    exact ⟨rfl, d, hd, rfl, f, hf, rfl, hfault⟩
  unfold checkDefinition at h
  split at h
  · rename_i hempty
    cases h
    exact ⟨rfl, d, hd, rfl, List.isEmpty_iff.mp hempty⟩
  · split at h
    · rename_i parent hparent
      split at h
      · exact hfields h
      · rename_i hcontains
        cases h
        rw [contains_iff_mem_ids, ids_eq_map_definitions] at hcontains
        exact ⟨rfl, d, hd, rfl, hparent, hcontains⟩
    · exact hfields h

/-- An error of `check` is of the phase `checking` and describes the definitions. -/
theorem describes_of_check {catalog : Catalog} {error : CompileError} (h : catalog.check = .error error) :
    error.phase = .checking ∧ error.Describes catalog.definitions := by
  obtain ⟨e, he, herror⟩ := exists_of_forM_eq_error h
  exact describes_of_checkDefinition (List.mem_map_of_mem he) herror

/-- The phase `checking` is violated exactly if `check` fails. -/
theorem isViolated_checking_iff (catalog : Catalog) :
    Phase.checking.IsViolated catalog.definitions ↔ catalog.check ≠ .ok () := by
  rw [ne_eq, check_eq_ok_iff]
  simp only [Phase.IsViolated, ← ids_eq_map_definitions, mem_references_iff, not_forall, not_and_or,
    Bool.not_eq_true, ne_eq, not_not, exists_prop]
  refine exists_congr fun d => and_congr_right fun _ => or_congr_right ?_
  constructor
  · rintro (⟨parent, hparent, hp⟩ | ⟨f, hf, hkey | ⟨target, htarget, hkind⟩⟩)
    · exact .inl ⟨parent, .inl hp, hparent⟩
    · exact .inr ⟨f, hf, hkey⟩
    · exact .inl ⟨target, .inr ⟨f, hf, hkind⟩, htarget⟩
  · rintro (⟨id, hp | ⟨f, hf, hkind⟩, hid⟩ | ⟨f, hf, hkey⟩)
    · exact .inl ⟨id, hid, hp⟩
    · exact .inr ⟨f, hf, .inr ⟨id, hid, hkind⟩⟩
    · exact .inr ⟨f, hf, .inl hkey⟩

end Catalog

/-! ## Laying out -/

/-- A member of what a list is mapped to and joined from is in what one of the members gives, behind what the
members before it give. -/
theorem exists_of_flatMap_eq_append_cons {α β : Type} {f : α → List β} {l : List α} {before after : List β}
    {b : β} (h : l.flatMap f = before ++ b :: after) :
    ∃ front a back inner rest, l = front ++ a :: back ∧ f a = inner ++ b :: rest ∧
      before = front.flatMap f ++ inner := by
  induction l generalizing before with
  | nil => simp at h
  | cons x l ih =>
    rw [List.flatMap_cons, List.append_eq_append_iff] at h
    -- Whether the member is behind what the first gives or within it.
    have hbehind : ∀ more, before = f x ++ more → l.flatMap f = more ++ b :: after →
        ∃ front a back inner rest, x :: l = front ++ a :: back ∧ f a = inner ++ b :: rest ∧
          before = front.flatMap f ++ inner := by
      intro more hbefore hl
      obtain ⟨front, a, back, inner, rest, rfl, hinner, rfl⟩ := ih hl
      exact ⟨x :: front, a, back, inner, rest, rfl, hinner, by simp [hbefore]⟩
    rcases h with ⟨more, hbefore, hl⟩ | ⟨more, hx, hmore⟩
    · exact hbehind more hbefore hl
    · cases more with
      | nil => exact hbehind [] (by simp [hx]) (by simpa using hmore.symm)
      | cons c more =>
        obtain ⟨rfl, -⟩ := List.cons.inj hmore
        exact ⟨[], x, l, before, more, rfl, hx, rfl⟩

namespace Lineage

variable {definitions : List RecordDefinition}

/-- A lineage up to one of its members is that of the member. -/
theorem of_append {e d : RecordDefinition} {chain front back : List RecordDefinition}
    (h : Lineage definitions e chain) (hchain : chain = front ++ d :: back) :
    Lineage definitions d (front ++ [d]) := by
  induction h generalizing back with
  | @root e hp =>
    obtain ⟨rfl, hd⟩ | ⟨more, rfl, hmore⟩ := List.append_eq_cons_iff.mp hchain.symm
    · obtain ⟨rfl, -⟩ := List.cons.inj hd
      exact .root hp
    · cases more <;> cases hmore
  | @child e p chain hp hm h ih =>
    cases back using List.reverseRecOn with
    | nil =>
      obtain ⟨rfl, rfl⟩ := List.append_inj' hchain rfl |>.imp id List.singleton_inj.mp
      exact .child hp hm h
    | append_singleton back last =>
      rw [← List.cons_append, ← List.append_assoc] at hchain
      exact ih (List.append_inj' hchain rfl).1

/-- Whatever stands before a definition in its lineage is an ancestor of it. -/
theorem descendsFrom {d : RecordDefinition} {chain : List RecordDefinition}
    (h : Lineage definitions d chain) : ∀ a ∈ chain.dropLast, DescendsFrom definitions d a := by
  induction h with
  | root hp => simp
  | @child d p chain hp hm h ih =>
    intro a ha
    rw [List.dropLast_concat, h.eq_dropLast_append, List.mem_append, List.mem_singleton] at ha
    rcases ha with ha | rfl
    · exact .head ⟨hm, hp⟩ (ih a ha)
    · exact .single ⟨hm, hp⟩

end Lineage

namespace Declaration

/-- A record key that is refused was declared before, in the list or in front of it. -/
theorem error_of_checkDistinct {declared : List (String × Declarer)} {ds : List Declaration}
    {error : CompileError} (h : checkDistinct declared ds = .error error) :
    ∃ before d after first, ds = before ++ d :: after ∧ error = .redefinition d.owner d.name first ∧
      ((d.name, first) ∈ declared ∨ ∃ b ∈ before, b.name = d.name ∧ first = .definition b.owner) := by
  induction ds generalizing declared with
  | nil => cases h
  | cons d rest ih =>
    unfold checkDistinct at h
    split at h
    · rename_i first hfirst
      cases h
      have hname : first.1 = d.name := by simpa using List.find?_some hfirst
      exact ⟨[], d, rest, first.2, rfl, rfl, .inl (hname ▸ List.mem_of_find?_eq_some hfirst)⟩
    · obtain ⟨before, d', after, first, rfl, herror, hdeclared⟩ := ih h
      refine ⟨d :: before, d', after, first, rfl, herror, ?_⟩
      rcases hdeclared with hmem | ⟨b, hb, hname, hfirst⟩
      · rcases List.mem_cons.mp hmem with heq | hmem
        · obtain ⟨hname, hfirst⟩ := Prod.mk.inj heq
          exact .inr ⟨d, List.mem_cons_self, hname.symm, hfirst⟩
        · exact .inl hmem
      · exact .inr ⟨b, List.mem_cons_of_mem _ hb, hname, hfirst⟩

/-- What a definition declares, it has among its record keys. -/
theorem mem_keys_of_mem {d : RecordDefinition} {b : Declaration}
    (h : b ∈ d.fields.map fun f => (⟨d.id, f.1, f.2⟩ : Declaration)) :
    b.owner = d.id ∧ b.name ∈ d.fields.map Prod.fst := by
  obtain ⟨f, hf, rfl⟩ := List.mem_map.mp h
  exact ⟨rfl, List.mem_map_of_mem hf⟩

/-- A declaration behind one of its name, both of a lineage, is that of a definition that has the name twice
or of a descendant of the other one. -/
theorem describes_of_ofLineage {definitions chain : List RecordDefinition} {e : RecordDefinition}
    (hchain : Lineage definitions e chain) (he : e ∈ definitions) {before after : List Declaration}
    {d b : Declaration} (hsplit : ofLineage chain = before ++ d :: after) (hb : b ∈ before)
    (hname : b.name = d.name) : ∃ owner ∈ definitions, owner.id = d.owner ∧
      d.name ∈ owner.fields.map Prod.fst ∧
      (Declarer.definition b.owner).Describes definitions owner d.name := by
  obtain ⟨front, owner, back, inner, rest, hlineage, hinner, rfl⟩ := exists_of_flatMap_eq_append_cons hsplit
  have hd : d ∈ owner.fields.map fun f => (⟨owner.id, f.1, f.2⟩ : Declaration) := by simp [hinner]
  obtain ⟨hown, hkey⟩ := mem_keys_of_mem hd
  have howner : owner ∈ definitions := hchain.mem_definitions he owner (by simp [hlineage])
  refine ⟨owner, howner, hown.symm, hkey, ?_⟩
  rcases List.mem_append.mp hb with hb | hb
  · -- The other declaration is that of a definition further up.
    obtain ⟨a, ha, hdeclared⟩ := List.mem_flatMap.mp hb
    obtain ⟨hid, hmem⟩ := mem_keys_of_mem hdeclared
    have hdescends := (hchain.of_append hlineage).descendsFrom a (by simpa using ha)
    exact .inr ⟨a, hdescends, hid.symm, hname ▸ hmem⟩
  · -- Both are declarations of one definition, one behind the other.
    have hmem : b ∈ owner.fields.map fun f => (⟨owner.id, f.1, f.2⟩ : Declaration) := by simp [hinner, hb]
    have hkeys : owner.fields.map Prod.fst = inner.map name ++ d.name :: rest.map name := by
      have hnames := congrArg (List.map name) hinner
      rw [List.map_map, List.map_append, List.map_cons] at hnames
      exact hnames
    have hcount : 0 < (inner.map name).count d.name :=
      List.count_pos_iff.mpr (hname ▸ List.mem_map_of_mem hb)
    refine .inl ⟨(mem_keys_of_mem hmem).1, ?_⟩
    rw [hkeys, List.count_append, List.count_cons_self]
    omega

end Declaration

namespace Compilation

/-- An error of `messageOf` is of the phase `layingOut` and describes the definitions. -/
theorem describes_of_messageOf {catalog : Catalog} (hc : catalog.IsChecked) {e : CatalogEntry}
    (he : e ∈ catalog) {error : CompileError} (h : messageOf catalog e = .error error) :
    error.phase = .layingOut ∧ error.Describes catalog.definitions := by
  have hd : e.definition ∈ catalog.definitions := List.mem_map_of_mem he
  have hchain := hc.lineage hd
  unfold messageOf at h
  obtain h | ⟨declarations, -, h⟩ := bind_eq_error_iff.mp h
  · obtain ⟨before, d, after, first, hsplit, rfl, hdeclared⟩ :=
      Declaration.error_of_checkDistinct (map_eq_error_iff.mp h)
    refine ⟨rfl, ?_⟩
    rcases hdeclared with htag | ⟨b, hb, hname, rfl⟩
    · obtain ⟨hname, rfl⟩ := Prod.mk.inj (List.mem_singleton.mp htag)
      obtain ⟨front, owner, back, inner, rest, hlineage, hinner, -⟩ :=
        exists_of_flatMap_eq_append_cons hsplit
      obtain ⟨hown, hkey⟩ := Declaration.mem_keys_of_mem (d := owner) (b := d) (by simp [hinner])
      exact ⟨owner, hchain.mem_definitions hd owner (by simp [hlineage]), hown.symm, hkey, hname⟩
    · exact Declaration.describes_of_ofLineage hchain hd hsplit hb hname
  · cases h

/-- Where `messageOf` fails, the lineage of the definition has a record key twice. -/
theorem isViolated_layingOut {catalog : Catalog} (hc : catalog.IsChecked) {e : CatalogEntry}
    (he : e ∈ catalog) {error : CompileError} (h : messageOf catalog e = .error error) :
    Phase.layingOut.IsViolated catalog.definitions := by
  have hd : e.definition ∈ catalog.definitions := List.mem_map_of_mem he
  refine ⟨e.definition, hd, _, hc.lineage hd, ?_⟩
  rw [← exists_messageOf_iff, h]
  rintro ⟨message, hmessage⟩
  cases hmessage

/-- An error of `compile` is that of its first phase that fails, and the phases before it have succeeded. -/
theorem phases_of_compile_eq_error {definitions : List RecordDefinition} {error : CompileError}
    (h : compile definitions = .error error) :
    Catalog.ofDefinitions definitions = .error error ∨
      ∃ catalog, Catalog.ofDefinitions definitions = .ok catalog ∧
        (catalog.check = .error error ∨ catalog.check = .ok () ∧
          (catalog.checkAcyclic = .error error ∨ catalog.checkAcyclic = .ok () ∧
            ∃ e ∈ catalog, messageOf catalog e = .error error)) := by
  unfold compile at h
  obtain hlisting | ⟨catalog, hcatalog, h⟩ := bind_eq_error_iff.mp h
  · exact .inl hlisting
  refine .inr ⟨catalog, hcatalog, ?_⟩
  obtain hchecking | ⟨⟨⟩, hcheck, h⟩ := bind_eq_error_iff.mp h
  · exact .inl hchecking
  refine .inr ⟨hcheck, ?_⟩
  obtain hsearching | ⟨⟨⟩, hsearch, h⟩ := bind_eq_error_iff.mp h
  · exact .inl hsearching
  refine .inr ⟨hsearch, ?_⟩
  obtain hlaying | ⟨messages, -, h⟩ := bind_eq_error_iff.mp h
  · exact exists_of_mapM_eq_error hlaying
  · cases h

/-- An error of `compile` describes its definitions: what each constructor of `CompileError` names is there, and
is a violation.  The phase of the error is violated, and no phase before it is. -/
theorem describes_of_compile_eq_error {definitions : List RecordDefinition} {error : CompileError}
    (h : compile definitions = .error error) :
    error.Describes definitions ∧ error.phase.IsViolated definitions ∧
      ∀ phase : Phase, phase.place < error.phase.place → ¬ phase.IsViolated definitions := by
  obtain hlisting | ⟨catalog, hcatalog, hphases⟩ := phases_of_compile_eq_error h
  · obtain ⟨hphase, hdescribes⟩ := Catalog.describes_of_ofDefinitions hlisting
    rw [hphase]
    refine ⟨hdescribes, ?_, fun phase hlt => absurd hlt (Nat.not_lt_zero _)⟩
    rw [Catalog.isViolated_listing_iff, hlisting]
    rintro ⟨catalog, hcatalog⟩
    cases hcatalog
  have hlisted : ¬ Phase.listing.IsViolated definitions := by
    rw [Catalog.isViolated_listing_iff, not_not]
    exact ⟨catalog, hcatalog⟩
  obtain ⟨hl, rfl⟩ := Catalog.isListing_of_ofDefinitions hcatalog
  obtain hchecking | ⟨hcheck, hphases⟩ := hphases
  · obtain ⟨hphase, hdescribes⟩ := Catalog.describes_of_check hchecking
    rw [hphase]
    refine ⟨hdescribes, ?_, fun phase hlt => ?_⟩
    · rw [Catalog.isViolated_checking_iff, hchecking]
      simp
    · cases phase with
      | listing => exact hlisted
      | checking | searching | layingOut => exact absurd hlt (by decide)
  have hchecked : ¬ Phase.checking.IsViolated catalog.definitions := by
    rw [Catalog.isViolated_checking_iff, not_not]
    exact hcheck
  obtain hsearching | ⟨hsearch, e, he, herror⟩ := hphases
  · obtain ⟨cycle, rfl, hcycle⟩ := Catalog.exists_cycle_of_checkAcyclic hl.ids_nodup hsearching
    refine ⟨hcycle, ⟨cycle, hcycle⟩, fun phase (hlt : phase.place < Phase.searching.place) => ?_⟩
    cases phase with
    | listing => exact hlisted
    | checking => exact hchecked
    | searching | layingOut => exact absurd hlt (by decide)
  · have hrefers := Catalog.listed_of_check hcheck
    have hc : catalog.IsChecked := ⟨hl, (Catalog.check_eq_ok_iff catalog).mp hcheck,
      (Catalog.checkAcyclic_eq_ok_iff hl.ids_nodup hrefers).mp hsearch⟩
    obtain ⟨hphase, hdescribes⟩ := describes_of_messageOf hc he herror
    rw [hphase]
    refine ⟨hdescribes, isViolated_layingOut hc he herror, fun phase hlt => ?_⟩
    cases phase with
    | listing => exact hlisted
    | checking => exact hchecked
    | searching =>
      exact fun ⟨cycle, hcycle⟩ =>
        Catalog.not_isReferenceCycle_of_checkAcyclic hl.ids_nodup hrefers hsearch cycle hcycle
    | layingOut => exact absurd hlt (lt_irrefl _)

/-- The definitions `Ring`, `Band` and `Shape`: a ring is a band, a band is a shape, and both of these declare
`size`. -/
def ringDefinitions : List RecordDefinition :=
  [{ id := "Ring", parent := some "Band", fields := [("gap", { kind := .scalar .double })] },
   { id := "Band", parent := some "Shape", fields := [("width", { kind := .scalar .double }),
       ("size", { kind := .scalar .int32 })] },
   { id := "Shape", fields := [("size", { kind := .scalar .double })] }]

/-- `compile ringDefinitions` reports in its last phase, when the ring is laid out, that `Band` declares the
record key `size` of `Shape` once more. -/
theorem describes_of_compile_ringDefinitions : ∃ error, compile ringDefinitions = .error error ∧
    error = .redefinition "Band" "size" (.definition "Shape") ∧ error.Describes ringDefinitions ∧
      error.phase.IsViolated ringDefinitions ∧
      ∀ phase : Phase, phase.place < error.phase.place → ¬ phase.IsViolated ringDefinitions := by
  have hfails : (match compile ringDefinitions with
      | .ok _ => none
      | .error error => some error) = some (.redefinition "Band" "size" (.definition "Shape")) := by
    decide +kernel
  cases h : compile ringDefinitions with
  | ok compiled =>
    rw [h] at hfails
    cases hfails
  | error error =>
    rw [h] at hfails
    exact ⟨error, rfl, Option.some.inj hfails, describes_of_compile_eq_error h⟩

end Compilation

end Tagwire
