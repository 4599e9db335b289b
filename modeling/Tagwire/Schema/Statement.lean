import Tagwire.Schema.Token

/-!
# Statements of a schema document

A statement is a run of tokens that ends with a semicolon or with a block of further statements, whatever
the tokens mean.  Brackets keep what is in them to their statement, and so do the braces of an option's
value.  The tokens are consumed once, by a machine that stacks the blocks that are still open.
-/

set_option autoImplicit false

namespace Tagwire

namespace Schema

/-- A statement: its tokens, and its block if it ends with one. -/
inductive Statement where
  | plain (head : List Token)
  | block (head : List Token) (body : List Statement)
deriving Repr, Inhabited

/-- The state between two tokens: the tokens of the statement so far and the statements before it, both in
reverse, how many brackets are open in the statement, and the same two lists for every open block. -/
structure StatementStack where
  head : List Token := []
  done : List Statement := []
  brackets : Nat := 0
  outer : List (List Token × List Statement) := []

namespace StatementStack

/-- Does the token open a bracket, `[` or an opening brace? -/
def opens (token : Token) : Bool := token == .mark '[' || token == .mark '\x7b'

/-- Does the token close a bracket, `]` or a closing brace? -/
def closes (token : Token) : Bool := token == .mark ']' || token == .mark '\x7d'

/-- Reads a token of a statement within brackets, of which it may open or close one. -/
def within (s : StatementStack) (token : Token) : StatementStack :=
  { s with
    head := token :: s.head
    brackets := if opens token then s.brackets + 1 else if closes token then s.brackets - 1 else s.brackets }

/-- Reads a token: a semicolon ends a statement, an opening brace opens a block and a closing brace ends it, and
any other token joins the statement. -/
def step (s : StatementStack) (token : Token) : Option StatementStack :=
  if s.brackets ≠ 0 then some (s.within token)
  else if token = .mark ';' then
    if s.head.isEmpty then some s
    else some { s with head := [], done := .plain s.head.reverse :: s.done }
  else if token = .mark '\x7b' ∧ s.head.getLast? ≠ some (.word "option") then
    some { head := [], done := [], outer := (s.head, s.done) :: s.outer }
  else if opens token then some (s.within token)
  else if token = .mark '\x7d' then
    match s.head, s.outer with
    | [], (head, done) :: outer =>
      some { head := [], done := .block head.reverse s.done.reverse :: done, outer := outer }
    | _, _ => none
  else some { s with head := token :: s.head }

/-- The statements behind the last token, if no statement and no block is open. -/
def result? (s : StatementStack) : Option (List Statement) :=
  if s.head.isEmpty && s.outer.isEmpty then some s.done.reverse else none

end StatementStack

/-- The statements of a schema document, by `StatementStack.step` over its tokens. -/
def statements? (text : String) : Option (List Statement) := do
  let tokens ← tokens? text
  let final ← tokens.foldlM StatementStack.step {}
  final.result?

end Schema

end Tagwire
