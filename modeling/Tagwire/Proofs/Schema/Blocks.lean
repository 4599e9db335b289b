import Tagwire.Proofs.Schema.Reading

/-!
# The statements of a block

A block is read statement by statement, and a statement that opens a block of its own is read along with this
one, whose names are in a scope of their own where it declares a message.  Here this is a relation between the
statements and what they declare, so that what holds of all that a document declares is shown for one kind of
statement at a time.
-/

set_option autoImplicit false

namespace Tagwire

namespace Schema

/-- Members that are read behind `first` have been put behind it. -/
theorem exists_append_of_bind {first members : Members} {rest : Option Members}
    (h : (rest.bind fun others => some (first ++ others)) = some members) :
    ∃ others, rest = some others ∧ members = first ++ others := by
  obtain ⟨others, hothers, heq⟩ := Option.bind_eq_some_iff.mp h
  exact ⟨others, hothers, (Option.some.inj heq).symm⟩

/-- The statements of a block in the given scope and context declare the members: one case for each kind of
statement, a plain one, a message, an enumeration, a oneof, an extension or a group. -/
inductive ReadsMembers (dialect : Dialect) : String → FieldContext → List Statement → Members → Prop
  | nil {scope : String} {context : FieldContext} : ReadsMembers dialect scope context [] {}
  | plain {scope : String} {context : FieldContext} {tokens : List Token} {rest : List Statement}
      {first others : Members} (hfirst : readPlainMember? dialect scope context tokens = some first)
      (hothers : ReadsMembers dialect scope context rest others) :
      ReadsMembers dialect scope context (.plain tokens :: rest) (first ++ others)
  | message {scope name : String} {body rest : List Statement} {inner others : Members}
      (hinner : ReadsMembers dialect (qualified scope name) .message body inner)
      (hothers : ReadsMembers dialect scope .message rest others) :
      ReadsMembers dialect scope .message (.block [.word "message", .word name] body :: rest)
        (messageMembers (qualified scope name) inner ++ others)
  | enum {scope name : String} {body rest : List Statement} {enum : EnumDeclaration} {others : Members}
      (henum : readEnum? scope name body = some enum)
      (hothers : ReadsMembers dialect scope .message rest others) :
      ReadsMembers dialect scope .message (.block [.word "enum", .word name] body :: rest)
        ({ nested := { enums := [enum] } } ++ others)
  | oneof {scope name : String} {body rest : List Statement} {inner others : Members}
      (hinner : ReadsMembers dialect scope (.oneof name) body inner)
      (hfields : ¬ inner.fields.isEmpty = true)
      (hothers : ReadsMembers dialect scope .message rest others) :
      ReadsMembers dialect scope .message (.block [.word "oneof", .word name] body :: rest)
        ({ inner with options := [], oneofs := [⟨name, inner.options⟩] } ++ others)
  | extend {scope target : String} {tokens left : List Token} {body rest : List Statement}
      {inner others : Members} (htarget : readTypePath? tokens = some (target, left))
      (hinner : ReadsMembers dialect scope (.extend target) body inner)
      (hextensions : (left.isEmpty && !inner.nested.extensions.isEmpty) = true)
      (hothers : ReadsMembers dialect scope .message rest others) :
      ReadsMembers dialect scope .message (.block (.word "extend" :: tokens) body :: rest) (inner ++ others)
  | group {scope name : String} {context : FieldContext} {tokens : List Token}
      {body rest : List Statement} {field : FieldDeclaration} {inner others : Members}
      (hfield : readGroup? dialect context tokens = some field) (hname : groupName? field = some name)
      (hinner : ReadsMembers dialect (qualified scope name) .message body inner)
      (hothers : ReadsMembers dialect scope context rest others) :
      ReadsMembers dialect scope context (.block tokens body :: rest)
        (fieldMembers scope context dialect field [] ++ messageMembers (qualified scope name) inner ++ others)

/-- The members that `readMembers?` reads are those with `ReadsMembers`. -/
theorem readsMembers_of_readMembers? {dialect : Dialect} {scope : String} {context : FieldContext}
    {statements : List Statement} {members : Members}
    (h : readMembers? dialect scope context statements = some members) :
    ReadsMembers dialect scope context statements members := by
  induction scope, context, statements using readMembers?.induct dialect generalizing members with
  | case1 scope context =>
    rw [readMembers?] at h
    cases h
    exact .nil
  | case2 scope context tokens rest ih =>
    rw [readMembers?] at h
    obtain ⟨first, hfirst, h⟩ := Option.bind_eq_some_iff.mp h
    obtain ⟨others, hothers, rfl⟩ := exists_append_of_bind h
    exact .plain hfirst (ih hothers)
  | case3 scope body rest name ihRest ihBody =>
    rw [readMembers?] at h
    obtain ⟨inner, hinner, h⟩ := Option.bind_eq_some_iff.mp h
    obtain ⟨others, hothers, rfl⟩ := exists_append_of_bind h
    exact .message (ihBody hinner) (ihRest hothers)
  | case4 scope body rest name ihRest =>
    rw [readMembers?] at h
    obtain ⟨enum, henum, h⟩ := Option.bind_eq_some_iff.mp h
    obtain ⟨others, hothers, rfl⟩ := exists_append_of_bind h
    exact .enum henum (ihRest hothers)
  | case5 scope body rest name ihRest ihBody =>
    rw [readMembers?] at h
    obtain ⟨inner, hinner, h⟩ := Option.bind_eq_some_iff.mp h
    split at h
    · cases h
    · rename_i hfields
      obtain ⟨others, hothers, rfl⟩ := exists_append_of_bind h
      exact .oneof (ihBody hinner) hfields (ihRest hothers)
  | case6 scope body rest target ihRest ihBody =>
    rw [readMembers?] at h
    obtain ⟨⟨target, left⟩, htarget, h⟩ := Option.bind_eq_some_iff.mp h
    obtain ⟨inner, hinner, h⟩ := Option.bind_eq_some_iff.mp h
    split at h
    · rename_i hextensions
      obtain ⟨others, hothers, rfl⟩ := exists_append_of_bind h
      exact .extend htarget (ihBody target hinner) hextensions (ihRest hothers)
    · cases h
  | case7 scope body rest tokens context hmessage henum honeof hextend ihRest ihBody =>
    rw [readMembers?.eq_7 _ _ _ _ _ _ hmessage henum honeof hextend] at h
    obtain ⟨field, hfield, h⟩ := Option.bind_eq_some_iff.mp h
    obtain ⟨name, hname, h⟩ := Option.bind_eq_some_iff.mp h
    obtain ⟨inner, hinner, h⟩ := Option.bind_eq_some_iff.mp h
    obtain ⟨others, hothers, rfl⟩ := exists_append_of_bind h
    exact .group hfield hname (ihBody name hinner) (ihRest hothers)

/-- The statements of a document in the given scope declare the declarations: those of its services and those of
its other blocks, with `ReadsMembers` for each. -/
inductive ReadsDeclarations (dialect : Dialect) (scope : String) : List Statement → Declarations → Prop
  | nil : ReadsDeclarations dialect scope [] {}
  | plain {tokens : List Token} {rest : List Statement} {others : Declarations}
      (hothers : ReadsDeclarations dialect scope rest others) :
      ReadsDeclarations dialect scope (.plain tokens :: rest) others
  | service {name : String} {body rest : List Statement} {service : ServiceDeclaration}
      {others : Declarations} (hservice : readService? scope name body = some service)
      (hothers : ReadsDeclarations dialect scope rest others) :
      ReadsDeclarations dialect scope (.block [.word "service", .word name] body :: rest)
        ({ services := [service] } ++ others)
  | block {tokens : List Token} {body rest : List Statement} {members : Members} {others : Declarations}
      (hmembers : readMembers? dialect scope .message [.block tokens body] = some members)
      (hothers : ReadsDeclarations dialect scope rest others) :
      ReadsDeclarations dialect scope (.block tokens body :: rest) (members.nested ++ others)

/-- Declarations that come from the members of one block and from the statements behind it have
`ReadsDeclarations`. -/
theorem ReadsDeclarations.of_bind {dialect : Dialect} {scope : String} {tokens : List Token}
    {body rest : List Statement} {others : Option Declarations} {declarations : Declarations}
    (hothers : ∀ more, others = some more → ReadsDeclarations dialect scope rest more)
    (h : ((readMembers? dialect scope .message [.block tokens body]).bind fun members =>
      others.bind fun more => some (members.nested ++ more)) = some declarations) :
    ReadsDeclarations dialect scope (.block tokens body :: rest) declarations := by
  obtain ⟨members, hmembers, h⟩ := Option.bind_eq_some_iff.mp h
  obtain ⟨more, hmore, h⟩ := Option.bind_eq_some_iff.mp h
  cases h
  exact .block hmembers (hothers more hmore)

/-- The declarations that `readDeclarations?` reads are those with `ReadsDeclarations`. -/
theorem readsDeclarations_of_readDeclarations? {dialect : Dialect} {scope : String}
    {statements : List Statement} {declarations : Declarations}
    (h : readDeclarations? dialect scope statements = some declarations) :
    ReadsDeclarations dialect scope statements declarations := by
  induction statements using readDeclarations?.induct dialect scope generalizing declarations with
  | case1 =>
    rw [readDeclarations?] at h
    cases h
    exact .nil
  | case2 head rest ih =>
    rw [readDeclarations?] at h
    exact .plain (ih h)
  | case3 name body rest ih =>
    rw [readDeclarations?] at h
    obtain ⟨service, hservice, h⟩ := Option.bind_eq_some_iff.mp h
    obtain ⟨others, hothers, h⟩ := Option.bind_eq_some_iff.mp h
    cases h
    exact .service hservice (ih hothers)
  -- A message, an enumeration and an extension are each read as a block with one statement.
  | case4 body rest tail hservice ih | case5 body rest tail hservice ih
  | case6 body rest tail hservice ih =>
    rw [readDeclarations?] at h
    exact .of_bind (fun _ => ih) h
  | case7 tokens body rest hservice hmessage henum hextend ih =>
    rw [readDeclarations?.eq_7 _ _ _ _ _ hservice hmessage henum hextend] at h
    cases h

end Schema

end Tagwire
