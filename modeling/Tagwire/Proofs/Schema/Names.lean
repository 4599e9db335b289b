import Tagwire.Proofs.Except
import Tagwire.Proofs.Schema.Blocks
import Tagwire.Proofs.Schema.Bundled

/-!
# The names that a document declares

Every word of a document is an identifier, and the full name of what it declares is made of words with dots
between them.  So a name that begins with a dot refers to something and is never the full name of it.  This
is followed from the tokens to the statements, which nest, and from the statements to the messages that they
declare.
-/

set_option autoImplicit false

namespace Tagwire

namespace Schema

/-! ## Absolute names -/

/-- The name begins with a dot. -/
def IsAbsolute (name : String) : Prop := name.toList.head? = some '.'

/-- Whether a name is absolute is seen from its first character. -/
instance (name : String) : Decidable (IsAbsolute name) := inferInstanceAs (Decidable (_ = _))

/-- A name without a dot is not absolute. -/
theorem not_isAbsolute_of_point_not_mem {name : String} (h : '.' ∉ name.toList) : ¬ IsAbsolute name :=
  fun habsolute => h (List.mem_of_mem_head? habsolute)

/-- An identifier is not absolute. -/
theorem not_isAbsolute_of_isIdentifier {name : String} (h : isIdentifier name = true) :
    ¬ IsAbsolute name :=
  not_isAbsolute_of_point_not_mem (point_not_mem_of_isIdentifier h)

/-- A name that is not empty is absolute exactly if it is so with more behind it. -/
theorem isAbsolute_append {name : String} (h : name.isEmpty = false) (more : String) :
    IsAbsolute (name ++ more) ↔ IsAbsolute name := by
  have hne : name.toList ≠ [] := by
    rw [ne_eq, String.toList_eq_nil_iff, ← String.isEmpty_iff, h]
    decide
  unfold IsAbsolute
  rw [String.toList_append, List.head?_append_of_ne_nil _ hne]

/-- A name that is not absolute, qualified by a scope that is not, is not absolute. -/
theorem not_isAbsolute_qualified {scope name : String} (hscope : ¬ IsAbsolute scope)
    (hname : ¬ IsAbsolute name) : ¬ IsAbsolute (qualified scope name) := by
  unfold qualified
  cases hempty : scope.isEmpty with
  | true => exact hname
  | false =>
    rw [if_neg (by decide), String.append_assoc, isAbsolute_append hempty]
    exact hscope

/-- The name of `entryMessage` in a scope that is not absolute is not absolute. -/
theorem not_isAbsolute_entryMessage {scope field : String} (hscope : ¬ IsAbsolute scope)
    (hfield : isIdentifier field = true) (key : Scalar) (value : TypeReference) :
    ¬ IsAbsolute (entryMessage scope field key value).name := by
  -- Raising letters leaves dots as they are, and only a dot is raised to a dot.
  have hpoint : ∀ (raise : Bool) (cs : List Char), '.' ∉ cs → '.' ∉ lowerCamelChars raise cs := by
    intro raise cs
    induction cs generalizing raise with
    | nil => exact fun h => h
    | cons c cs ih =>
      intro h
      obtain ⟨hc, hcs⟩ := not_or.mp (List.mem_cons.not.mp h)
      unfold lowerCamelChars
      split
      · exact ih true hcs
      · refine List.mem_cons.not.mpr (not_or.mpr ⟨?_, ih false hcs⟩)
        cases raise with
        | true => exact Ne.symm (toUpper_ne (by decide) (Ne.symm hc))
        | false => exact hc
  apply not_isAbsolute_qualified hscope
  apply not_isAbsolute_of_point_not_mem
  unfold entryName
  rw [String.toList_append, List.mem_append, String.toList_ofList]
  exact not_or.mpr ⟨hpoint true _ (point_not_mem_of_isIdentifier hfield), by decide⟩

/-! ## Words of a document -/

/-- The words among the tokens are identifiers. -/
def AreWords (tokens : List Token) : Prop := ∀ w, .word w ∈ tokens → isIdentifier w = true

/-- If the words among some tokens are identifiers, so are those among fewer. -/
theorem AreWords.mono {tokens fewer : List Token} (h : AreWords tokens) (hfewer : fewer ⊆ tokens) :
    AreWords fewer := fun w hw => h w (hfewer hw)

/-- `readNumberToken?` reads numbers and no word. -/
theorem ne_word_of_readNumberToken? {cs rest : List Char} {token : Token}
    (h : readNumberToken? cs = some (token, rest)) (w : String) : token ≠ .word w := by
  have hdecimal : ∀ more, readDecimalToken? cs ≠ some (.word w, more) := by
    intro more hread
    unfold readDecimalToken? at hread
    dsimp only at hread
    split at hread
    · split at hread
      all_goals
        obtain ⟨exponent, -, heq⟩ := Option.bind_eq_some_iff.mp hread
        cases heq
    · obtain ⟨exponent, -, heq⟩ := Option.bind_eq_some_iff.mp hread
      cases heq
  have hnatural : ∀ more, readNaturalToken? cs ≠ some (.word w, more) := by
    intro more hread
    obtain ⟨-, heq⟩ := Option.ite_none_right_eq_some.mp hread
    cases heq
  rintro rfl
  unfold readNumberToken? at h
  split at h
  all_goals
    obtain ⟨⟨token, more⟩, hread, h⟩ := Option.bind_eq_some_iff.mp h
    dsimp only at h
    split at h <;> cases h
  · exact hdecimal _ hread
  · exact hnatural _ hread

/-- The one word that `readToken?` may read is an identifier. -/
theorem areWords_of_readToken? {cs rest : List Char} {token : Token}
    (h : readToken? cs = some (token, rest)) : AreWords [token] := by
  intro w hw
  obtain rfl := List.mem_singleton.mp hw
  unfold readToken? at h
  split at h
  · cases h
  · rename_i c more
    split at h
    · rename_i hstart
      cases h
      rw [isIdentifier, String.toList_ofList, isIdentifierChars, hstart, List.all_takeWhile]
      rfl
    · split at h
      · exact absurd rfl (ne_word_of_readNumberToken? h w)
      · split at h
        · obtain ⟨read, -, heq⟩ := Option.map_eq_some_iff.mp h
          cases heq
        · split at h <;> cases h

/-- With one more token, the words are still identifiers if that of the token is. -/
theorem AreWords.cons {token : Token} {tokens : List Token} (h : AreWords tokens) (ht : AreWords [token]) :
    AreWords (token :: tokens) := by
  intro w hw
  rcases List.mem_cons.mp hw with hw | hw
  · exact ht w (List.mem_singleton.mpr hw)
  · exact h w hw

/-- The same with `Token.cons`, which may join two texts into one. -/
theorem AreWords.tokenCons {token : Token} {tokens : List Token} (h : AreWords tokens)
    (ht : AreWords [token]) : AreWords (token.cons tokens) := by
  unfold Token.cons
  split
  · exact (h.mono (List.subset_cons_self _ _)).cons fun w hw => by simp at hw
  · exact h.cons ht

/-- The words among the tokens of a text are identifiers. -/
theorem areWords_of_tokens? {text : String} {tokens : List Token} (h : tokens? text = some tokens) :
    AreWords tokens := by
  have hread : ∀ fuel cs tokens, readTokens? fuel cs = some tokens → AreWords tokens := by
    intro fuel
    induction fuel with
    | zero =>
      intro cs tokens h
      unfold readTokens? at h
      split at h
      · cases h
      · cases h
        exact fun w hw => (by cases hw)
      · cases h
    | succ fuel ih =>
      intro cs tokens h
      unfold readTokens? at h
      split at h
      · cases h
      · cases h
        exact fun w hw => (by cases hw)
      · dsimp only at h
        obtain ⟨first, hfirst, h⟩ := Option.bind_eq_some_iff.mp h
        obtain ⟨others, hothers, rfl⟩ := Option.map_eq_some_iff.mp h
        exact (ih _ _ hothers).tokenCons (areWords_of_readToken? hfirst)
  exact hread _ _ _ h

/-! ## Words of statements -/

/-- The words of the statement, and of all statements in its block, are identifiers. -/
inductive Statement.IsWorded : Statement → Prop
  | plain {head : List Token} (hhead : AreWords head) : IsWorded (.plain head)
  | block {head : List Token} {body : List Statement} (hhead : AreWords head)
      (hbody : ∀ s ∈ body, IsWorded s) : IsWorded (.block head body)

/-- The words of a plain statement are those of its tokens. -/
theorem Statement.isWorded_plain {head : List Token} : (plain head).IsWorded ↔ AreWords head :=
  ⟨fun h => by cases h with | plain hhead => exact hhead, .plain⟩

/-- The words of a block are those of its head and of the statements in it. -/
theorem Statement.isWorded_block {head : List Token} {body : List Statement} :
    (block head body).IsWorded ↔ AreWords head ∧ ∀ s ∈ body, s.IsWorded :=
  ⟨fun h => by cases h with | block hhead hbody => exact ⟨hhead, hbody⟩, fun h => .block h.1 h.2⟩

namespace StatementStack

/-- The words on the stack, in open statements as well as in finished ones, are identifiers. -/
structure IsWorded (s : StatementStack) : Prop where
  head : AreWords s.head
  done : ∀ t ∈ s.done, t.IsWorded
  outer : ∀ b ∈ s.outer, AreWords b.1 ∧ ∀ t ∈ b.2, t.IsWorded

/-- The words on the stack stay identifiers when `step` takes a token. -/
theorem IsWorded.step {s next : StatementStack} {token : Token} (hs : s.IsWorded) (h : AreWords [token])
    (hstep : s.step token = some next) : next.IsWorded := by
  have hnil : AreWords [] := fun w hw => (by cases hw)
  have hjoin : ∀ brackets, IsWorded { s with head := token :: s.head, brackets } := fun _ =>
    ⟨hs.head.cons h, hs.done, hs.outer⟩
  unfold StatementStack.step at hstep
  split at hstep
  · cases hstep
    exact hjoin _
  · split at hstep
    · split at hstep
      · cases hstep
        exact hs
      · cases hstep
        refine ⟨hnil, fun t ht => ?_, hs.outer⟩
        rcases List.mem_cons.mp ht with rfl | ht
        · exact .plain (hs.head.mono fun w hw => List.mem_reverse.mp hw)
        · exact hs.done t ht
    · split at hstep
      · cases hstep
        refine ⟨hnil, fun t ht => (by cases ht), fun b hb => ?_⟩
        rcases List.mem_cons.mp hb with rfl | hb
        · exact ⟨hs.head, hs.done⟩
        · exact hs.outer b hb
      · split at hstep
        · cases hstep
          exact hjoin _
        · split at hstep
          · split at hstep
            · -- The block is closed: its head was kept on the stack, and its statements are those read.
              rename_i head done outer _ houter
              cases hstep
              have hblock := hs.outer (head, done) (by rw [houter]; exact List.mem_cons_self)
              refine ⟨hnil, fun t ht => ?_, fun b hb => hs.outer b ?_⟩
              · rcases List.mem_cons.mp ht with rfl | ht
                · exact .block (hblock.1.mono fun w hw => List.mem_reverse.mp hw)
                    fun t ht => hs.done t (List.mem_reverse.mp ht)
                · exact hblock.2 t ht
              · rw [houter]
                exact List.mem_cons_of_mem _ hb
            · cases hstep
          · cases hstep
            exact hjoin _

/-- The words on the stack stay identifiers when `step` takes all tokens. -/
theorem IsWorded.foldlM {tokens : List Token} {s final : StatementStack} (hs : s.IsWorded)
    (h : AreWords tokens) (hfinal : tokens.foldlM StatementStack.step s = some final) : final.IsWorded := by
  refine of_foldlM_eq_some hs (fun token htoken s next hs hnext => hs.step ?_ hnext) hfinal
  exact h.mono (List.cons_subset.mpr ⟨htoken, List.nil_subset _⟩)

end StatementStack

/-- The words of the statements of a text are identifiers. -/
theorem isWorded_of_statements? {text : String} {statements : List Statement}
    (h : statements? text = some statements) : ∀ s ∈ statements, s.IsWorded := by
  unfold statements? at h
  simp only [Option.bind_eq_bind, Option.bind_eq_some_iff] at h
  obtain ⟨tokens, htokens, final, hfinal, hresult⟩ := h
  have hstart : StatementStack.IsWorded {} :=
    ⟨fun w hw => (by cases hw), fun t ht => (by cases ht), fun b hb => (by cases hb)⟩
  have hworded := hstart.foldlM (areWords_of_tokens? htokens) hfinal
  unfold StatementStack.result? at hresult
  split at hresult
  · cases hresult
    exact fun s hs => hworded.done s (List.mem_reverse.mp hs)
  · cases hresult

/-! ## Names behind other words -/

/-- What `readPathRest` leaves is a suffix of the tokens. -/
theorem suffix_of_readPathRest (read : String) (tokens : List Token) :
    (readPathRest read tokens).2 <:+ tokens := by
  fun_induction readPathRest read tokens with
  | case1 read name rest ih => exact ih.trans ((List.suffix_cons _ _).trans (List.suffix_cons _ _))
  | case2 => exact List.suffix_rfl

/-- What `readPath?` leaves is a suffix of the tokens. -/
theorem suffix_of_readPath? {tokens rest : List Token} {path : String}
    (h : readPath? tokens = some (path, rest)) : rest <:+ tokens := by
  unfold readPath? at h
  split at h
  · rename_i name more
    have hsuffix := suffix_of_readPathRest name more
    rw [Option.some.inj h] at hsuffix
    exact hsuffix.trans (List.suffix_cons _ _)
  · cases h

/-- What `readTypePath?` leaves is a suffix of the tokens, whether there is a dot in front or not. -/
theorem suffix_of_readTypePath? {tokens rest : List Token} {path : String}
    (h : readTypePath? tokens = some (path, rest)) : rest <:+ tokens := by
  unfold readTypePath? at h
  split at h
  · obtain ⟨⟨path, more⟩, hread, heq⟩ := Option.map_eq_some_iff.mp h
    cases heq
    exact (suffix_of_readPath? hread).trans (List.suffix_cons _ _)
  · exact suffix_of_readPath? h

/-- What `readType?` leaves is a suffix of the tokens. -/
theorem suffix_of_readType? {tokens rest : List Token} {type : TypeReference}
    (h : readType? tokens = some (type, rest)) : rest <:+ tokens := by
  have hnamed : ∀ {tokens} {f : String × List Token → TypeReference × List Token},
      (∀ read, (f read).2 = read.2) → (readTypePath? tokens).map f = some (type, rest) →
      rest <:+ tokens := by
    intro tokens f hf h
    obtain ⟨read, hread, heq⟩ := Option.map_eq_some_iff.mp h
    obtain rfl : read.2 = rest := (hf read).symm.trans (congrArg Prod.snd heq)
    exact suffix_of_readTypePath? hread
  unfold readType? at h
  split at h
  · split at h
    · exact hnamed (fun _ => rfl) h
    · exact hnamed (fun _ => rfl) h
    · cases h
      exact List.suffix_cons _ _
  · exact hnamed (fun _ => rfl) h

/-- The name that `readFieldRest?` reads is an identifier, if the words among the tokens are. -/
theorem isIdentifier_of_readFieldRest? {tokens : List Token} {name : String} {number : Nat}
    {options : List OptionSetting} (h : readFieldRest? tokens = some (name, number, options))
    (hwords : AreWords tokens) : isIdentifier name = true := by
  unfold readFieldRest? at h
  split at h
  · obtain ⟨read, -, h⟩ := Option.bind_eq_some_iff.mp h
    split at h <;> cases h
    exact hwords name List.mem_cons_self
  · cases h

/-- The name of a group that `readGroup?` reads is an identifier, if the words among the tokens are. -/
theorem isIdentifier_of_readGroup? {dialect : Dialect} {context : FieldContext} {tokens : List Token}
    {field : FieldDeclaration} {name : String} (h : readGroup? dialect context tokens = some field)
    (hname : groupName? field = some name) (hwords : AreWords tokens) : isIdentifier name = true := by
  have hlabel : (readLabel tokens).2 <:+ tokens := by
    unfold readLabel
    split
    · exact List.suffix_cons _ _
    · exact List.suffix_cons _ _
    · exact List.suffix_cons _ _
    · exact List.suffix_rfl
  unfold readGroup? at h
  dsimp only at h
  split at h
  · rename_i rest hrest
    obtain ⟨⟨read, number, options⟩, hread, h⟩ := Option.bind_eq_some_iff.mp h
    dsimp only at h
    split at h <;> cases h
    cases hname
    have hsuffix : rest <:+ tokens := (List.suffix_cons _ _).trans (hrest ▸ hlabel)
    exact isIdentifier_of_readFieldRest? hread (hwords.mono hsuffix.subset)
  · cases h

/-! ## Names of messages -/

/-- No declared message has an absolute name. -/
def Declarations.IsNamed (declarations : Declarations) : Prop :=
  ∀ m ∈ declarations.messages, ¬ IsAbsolute m.name

/-- Declarations without messages have no absolute name. -/
theorem Declarations.isNamed_of_messages_eq_nil {declarations : Declarations}
    (h : declarations.messages = []) : declarations.IsNamed := by
  intro m hm
  rw [h] at hm
  cases hm

/-- Declarations without absolute names, behind others without, have none. -/
theorem Declarations.IsNamed.append {a b : Declarations} (ha : a.IsNamed) (hb : b.IsNamed) :
    (a ++ b).IsNamed := by
  intro m hm
  rcases List.mem_append.mp hm with hm | hm
  · exact ha m hm
  · exact hb m hm

/-- The messages that `fieldMembers` declares are those that come with the field. -/
theorem messages_fieldMembers (scope : String) (context : FieldContext) (dialect : Dialect)
    (field : FieldDeclaration) (messages : List MessageDeclaration) :
    (fieldMembers scope context dialect field messages).nested.messages = messages := by
  cases context <;> rfl

/-- Without messages that come with the field, `fieldMembers` declares no absolute name. -/
theorem isNamed_fieldMembers (scope : String) (context : FieldContext) (dialect : Dialect)
    (field : FieldDeclaration) : (fieldMembers scope context dialect field []).nested.IsNamed :=
  Declarations.isNamed_of_messages_eq_nil (messages_fieldMembers ..)

/-- In a scope that is not absolute, `readField?` declares no absolute name. -/
theorem isNamed_of_readField? {dialect : Dialect} {scope : String} {context : FieldContext}
    {tokens : List Token} {members : Members} (hscope : ¬ IsAbsolute scope) (hwords : AreWords tokens)
    (h : readField? dialect scope context tokens = some members) :
    members.nested.IsNamed := by
  unfold readField? at h
  split at h
  · rename_i more
    unfold readMapField? at h
    split at h
    · rename_i more heq
      cases heq
      obtain ⟨key, -, h⟩ := Option.bind_eq_some_iff.mp h
      obtain ⟨⟨value, behind⟩, hvalue, h⟩ := Option.bind_eq_some_iff.mp h
      dsimp only at h
      split at h
      · rename_i last
        obtain ⟨⟨name, number, options⟩, hname, h⟩ := Option.bind_eq_some_iff.mp h
        dsimp only at h
        split at h <;> cases h
        have hsuffix := (List.suffix_cons _ _).trans (suffix_of_readType? hvalue)
        have hlast : last ⊆ _ := hsuffix.subset
        intro m hm
        rw [messages_fieldMembers] at hm
        obtain rfl := List.mem_singleton.mp hm
        apply not_isAbsolute_entryMessage hscope
        exact isIdentifier_of_readFieldRest? hname (hwords.mono fun t ht => by simp [hlast ht])
      · cases h
    · cases h
  · unfold readPlainField? at h
    obtain ⟨⟨type, rest⟩, -, h⟩ := Option.bind_eq_some_iff.mp h
    obtain ⟨⟨name, number, options⟩, -, h⟩ := Option.bind_eq_some_iff.mp h
    obtain ⟨-, hfield⟩ := Option.ite_none_right_eq_some.mp h
    cases hfield
    exact isNamed_fieldMembers _ _ _ _

/-- In a scope that is not absolute, `readPlainMember?` declares no absolute name. -/
theorem isNamed_of_readPlainMember? {dialect : Dialect} {scope : String} {context : FieldContext}
    {tokens : List Token} {members : Members} (hscope : ¬ IsAbsolute scope) (hwords : AreWords tokens)
    (h : readPlainMember? dialect scope context tokens = some members) :
    members.nested.IsNamed := by
  unfold readPlainMember? at h
  split at h
  · obtain ⟨setting, -, rfl⟩ := Option.map_eq_some_iff.mp h
    exact Declarations.isNamed_of_messages_eq_nil rfl
  · obtain ⟨ranges, -, rfl⟩ := Option.map_eq_some_iff.mp h
    exact Declarations.isNamed_of_messages_eq_nil rfl
  · obtain ⟨ranges, -, h⟩ := Option.bind_eq_some_iff.mp h
    obtain ⟨options, -, h⟩ := Option.bind_eq_some_iff.mp h
    split at h <;> cases h
    exact Declarations.isNamed_of_messages_eq_nil rfl
  · obtain ⟨setting, -, rfl⟩ := Option.map_eq_some_iff.mp h
    exact Declarations.isNamed_of_messages_eq_nil rfl
  · exact isNamed_of_readField? hscope hwords h

/-- `messageMembers` adds its own name to those of the nested messages. -/
theorem isNamed_messageMembers {name : String} {members : Members} (hname : ¬ IsAbsolute name)
    (hnested : members.nested.IsNamed) : (messageMembers name members).nested.IsNamed := by
  intro m hm
  rcases List.mem_cons.mp hm with rfl | hm
  · exact hname
  · exact hnested m hm

/-- In a scope that is not absolute, members with `ReadsMembers` declare no absolute name. -/
theorem ReadsMembers.isNamed {dialect : Dialect} {scope : String} {context : FieldContext}
    {statements : List Statement} {members : Members}
    (h : ReadsMembers dialect scope context statements members) (hscope : ¬ IsAbsolute scope)
    (hwords : ∀ s ∈ statements, s.IsWorded) : members.nested.IsNamed := by
  -- The scope changes only where a message or a group opens, to a name that is not absolute either.
  induction h with
  | nil => exact Declarations.isNamed_of_messages_eq_nil rfl
  | plain hfirst _ ihOthers =>
    rw [List.forall_mem_cons, Statement.isWorded_plain] at hwords
    obtain ⟨hhead, hrest⟩ := hwords
    exact (isNamed_of_readPlainMember? hscope hhead hfirst).append (ihOthers hscope hrest)
  | @message _ name _ _ _ _ _ _ ihInner ihOthers =>
    rw [List.forall_mem_cons, Statement.isWorded_block] at hwords
    obtain ⟨⟨hhead, hbody⟩, hrest⟩ := hwords
    have hname := not_isAbsolute_qualified hscope (not_isAbsolute_of_isIdentifier (hhead name (by simp)))
    exact (isNamed_messageMembers hname (ihInner hname hbody)).append (ihOthers hscope hrest)
  | enum _ _ ihOthers =>
    have hrest := (List.forall_mem_cons.mp hwords).2
    exact (Declarations.isNamed_of_messages_eq_nil rfl).append (ihOthers hscope hrest)
  | oneof _ _ _ ihInner ihOthers | extend _ _ _ _ ihInner ihOthers =>
    rw [List.forall_mem_cons, Statement.isWorded_block] at hwords
    obtain ⟨⟨-, hbody⟩, hrest⟩ := hwords
    exact (ihInner hscope hbody).append (ihOthers hscope hrest)
  | group hfield hname _ _ ihInner ihOthers =>
    rw [List.forall_mem_cons, Statement.isWorded_block] at hwords
    obtain ⟨⟨hhead, hbody⟩, hrest⟩ := hwords
    have hgroup := not_isAbsolute_qualified hscope
      (not_isAbsolute_of_isIdentifier (isIdentifier_of_readGroup? hfield hname hhead))
    have hmessage := isNamed_messageMembers hgroup (ihInner hgroup hbody)
    exact ((isNamed_fieldMembers _ _ _ _).append hmessage).append (ihOthers hscope hrest)

/-! ## Documents -/

/-- No message that the file declares has an absolute name. -/
def SchemaFile.IsNamed (file : SchemaFile) : Prop := file.declarations.IsNamed

/-- In a scope that is not absolute, declarations with `ReadsDeclarations` have no absolute name. -/
theorem ReadsDeclarations.isNamed {dialect : Dialect} {scope : String} {statements : List Statement}
    {declarations : Declarations} (h : ReadsDeclarations dialect scope statements declarations)
    (hscope : ¬ IsAbsolute scope) (hwords : ∀ s ∈ statements, s.IsWorded) : declarations.IsNamed := by
  induction h with
  | nil => exact Declarations.isNamed_of_messages_eq_nil rfl
  | plain _ ih => exact ih (List.forall_mem_cons.mp hwords).2
  | service _ _ ih =>
    have hrest := (List.forall_mem_cons.mp hwords).2
    exact (Declarations.isNamed_of_messages_eq_nil rfl).append (ih hrest)
  | block hmembers _ ih =>
    obtain ⟨hblock, hrest⟩ := List.forall_mem_cons.mp hwords
    have hread := readsMembers_of_readMembers? hmembers
    exact (hread.isNamed hscope (List.forall_mem_singleton.mpr hblock)).append (ih hrest)

/-- `readPath?` reads no absolute name, since it begins with a word. -/
theorem not_isAbsolute_of_readPath? {tokens rest : List Token} {path : String} (hwords : AreWords tokens)
    (h : readPath? tokens = some (path, rest)) : ¬ IsAbsolute path := by
  have hrest : ∀ (read : String) (tokens : List Token), read.isEmpty = false → ¬ IsAbsolute read →
      ¬ IsAbsolute (readPathRest read tokens).1 := by
    intro read tokens hne hread
    fun_induction readPathRest read tokens with
    | case1 read name rest ih =>
      apply ih
      · rw [Bool.eq_false_iff, ne_eq, String.isEmpty_iff, ← String.toList_eq_nil_iff]
        simp
      · rwa [String.append_assoc, isAbsolute_append hne]
    | case2 => exact hread
  unfold readPath? at h
  split at h
  · rename_i name more
    have hname := hwords name List.mem_cons_self
    have hpath := hrest name more (isEmpty_eq_false_of_isIdentifier hname)
      (not_isAbsolute_of_isIdentifier hname)
    rwa [Option.some.inj h] at hpath
  · cases h

/-- The package that `readHeaders?` reads is not absolute. -/
theorem not_isAbsolute_of_readHeaders? {statements : List Statement} {file result : SchemaFile}
    (hfile : ¬ IsAbsolute file.package) (hwords : ∀ s ∈ statements, s.IsWorded)
    (h : readHeaders? file statements = some result) : ¬ IsAbsolute result.package := by
  have hheader : ∀ {file result tokens}, ¬ IsAbsolute file.package → AreWords tokens →
      readHeader? file tokens = some result → ¬ IsAbsolute result.package := by
    intro file result tokens hfile hwords h
    unfold readHeader? at h
    split at h
    · rename_i rest
      split at h
      · rename_i package hpath
        split at h <;> cases h
        exact not_isAbsolute_of_readPath? (hwords.mono (List.subset_cons_self _ _)) hpath
      · cases h
    · -- An import is added to the document and leaves its package as it is.
      have himport : ∀ {bytes : Bytes} {isPublic : Bool}, (textOf? bytes).bind (fun path =>
          some { file with imports := file.imports ++ [⟨path, isPublic⟩] }) = some result →
          ¬ IsAbsolute result.package := by
        intro bytes isPublic h
        obtain ⟨path, -, h⟩ := Option.bind_eq_some_iff.mp h
        cases h
        exact hfile
      dsimp only at h
      split at h
      · exact himport h
      · exact himport h
      · exact himport h
      · cases h
    · obtain ⟨setting, -, h⟩ := Option.bind_eq_some_iff.mp h
      cases h
      exact hfile
    · cases h
  induction statements generalizing file with
  | nil =>
    cases h
    exact hfile
  | cons s rest ih =>
    obtain ⟨hfirst, hrest⟩ := List.forall_mem_cons.mp hwords
    cases hfirst with
    | plain hhead =>
      obtain ⟨next, hnext, h⟩ := Option.bind_eq_some_iff.mp h
      exact ih (hheader hfile hhead hnext) hrest h
    | block hhead hbody => exact ih hfile hrest h

/-- A file that `ofText?` reads declares no absolute name. -/
theorem SchemaFile.isNamed_of_ofText? {path text : String} {file : SchemaFile}
    (h : SchemaFile.ofText? path text = some file) : file.IsNamed := by
  unfold SchemaFile.ofText? at h
  obtain ⟨statements, hstatements, h⟩ := Option.bind_eq_some_iff.mp h
  obtain ⟨⟨dialect, rest⟩, hdialect, h⟩ := Option.bind_eq_some_iff.mp h
  obtain ⟨headed, hheaders, h⟩ := Option.bind_eq_some_iff.mp h
  obtain ⟨declarations, hdeclarations, h⟩ := Option.bind_eq_some_iff.mp h
  cases h
  have hsubset : rest ⊆ statements := by
    unfold readDialect? at hdialect
    split at hdialect
    · split at hdialect
      · split at hdialect <;> cases hdialect
        · exact List.subset_cons_self _ _
        · exact List.subset_cons_self _ _
      · cases hdialect
    · cases hdialect
      exact List.Subset.refl _
  have hwords : ∀ s ∈ rest, s.IsWorded := fun s hs => isWorded_of_statements? hstatements s (hsubset hs)
  have hempty : ¬ IsAbsolute "" := by decide
  have hpackage := not_isAbsolute_of_readHeaders? hempty hwords hheaders
  exact (readsDeclarations_of_readDeclarations? hdeclarations).isNamed hpackage hwords

namespace Bundled

/-- The name of each message of the bundled documents is a bundled name. -/
theorem exists_fullName_of_mem_all : ∀ f ∈ all, ∀ m ∈ f.declarations.messages,
    ∃ short, m.name = fullName short := by
  intro f hf
  simp only [all, List.mem_cons, List.not_mem_nil, or_false] at hf
  rcases hf with rfl | rfl | rfl | rfl | rfl | rfl | rfl | rfl | rfl | rfl | rfl | rfl
  all_goals
    simp [any, api, descriptor, duration, empty, fieldMask, sourceContext, struct, timestamp, type,
      wrappers, plugin, labelledDocument, document, message, options, name_entryMessage]

/-- The bundled documents declare no absolute name. -/
theorem isNamed_of_mem_all : ∀ f ∈ all, f.IsNamed := by
  intro f hf m hm
  obtain ⟨short, hname⟩ := exists_fullName_of_mem_all f hf m hm
  rw [hname, fullName, String.append_assoc, isAbsolute_append (by decide)]
  decide

end Bundled

end Schema

end Tagwire
