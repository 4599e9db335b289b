import Tagwire.Json.Parser

/-!
# Scalars of a YAML document

A document is read line by line.  A place in it is a column of a line with all that follows; it is fresh
while only indentation stands before it.  A scalar is plain, quoted or a block.  A plain or quoted scalar may
run over several lines: one line break between its words becomes a blank, and of more breaks the first is
dropped.  A block keeps its line breaks, or folds them in the same way.
-/

set_option autoImplicit false

namespace Tagwire

namespace Yaml

/-- Is it a blank within a line? -/
def isBlank (c : Char) : Bool := c = ' ' || c = '\t'

/-- The lines of a text. -/
def linesOf : List Char → List (List Char)
  | [] => [[]]
  | '\r' :: '\n' :: rest => [] :: linesOf rest
  | c :: rest =>
    if c = '\n' || c = '\r' || c = '\x85' then [] :: linesOf rest
    else
      match linesOf rest with
      | line :: below => (c :: line) :: below
      | [] => [[c]]

/-- A place in a document. -/
structure Place where
  column : Nat
  fresh : Bool
  rest : List Char
  below : List (List Char)

/-- How many spaces a line starts with. -/
def indentation (line : List Char) : Nat := (line.takeWhile (· = ' ')).length

/-- The first place at which lines hold more than comments; at the end of the document nothing is left of
its line. -/
def nextContent : List (List Char) → Place
  | [] => ⟨0, true, [], []⟩
  | line :: below =>
    match line.drop (indentation line) with
    | [] => nextContent below
    | '#' :: _ => nextContent below
    | c :: rest => ⟨indentation line, true, c :: rest, below⟩

/-- Does a word end before what follows? -/
def endsWord : List Char → Bool
  | [] => true
  | c :: _ => isBlank c

/-- Does a line start with a marker of the start or the end of a document? -/
def isMarker (line : List Char) : Bool :=
  (line.take 3 = ['-', '-', '-'] || line.take 3 = ['.', '.', '.']) && endsWord (line.drop 3)

namespace Place

/-- The place after some characters of its line. -/
def onLine (place : Place) (rest : List Char) : Place := ⟨0, false, rest, place.below⟩

/-- The next place with content, if nothing but a comment is left of the line. -/
def settle? (place : Place) : Option Place :=
  if place.fresh then some place
  else
    match place.rest.dropWhile isBlank with
    | [] => some (nextContent place.below)
    | '#' :: _ => some (nextContent place.below)
    | _ => none

/-- Is the place a marker, or the end of the document? -/
def isEnd (place : Place) : Bool :=
  place.rest.isEmpty || (place.fresh && place.column = 0 && isMarker place.rest)

end Place

/-! ## Plain scalars -/

/-- Is it one of the marks of collections on one line? -/
def isFlowMark (c : Char) : Bool := c = ',' || c = '[' || c = ']' || c = '\x7b' || c = '\x7d'

/-- Is it a mark that no plain scalar starts with? -/
def isIndicator (c : Char) : Bool :=
  isFlowMark c || c = '#' || c = '&' || c = '*' || c = '!' || c = '|' || c = '>' || c = '\''
    || c = '"' || c = '%' || c = '@' || c = '\x60'

/-- Does a plain scalar start here? -/
def startsPlain (flow : Bool) : List Char → Bool
  | [] => false
  | c :: rest =>
    if c = '-' then !endsWord rest
    else if c = '?' || c = ':' then !flow && !endsWord rest
    else !isBlank c && !isIndicator c

/-- What a line adds to a plain scalar, and what is left of the line. -/
def plainLine (flow : Bool) (afterBlank : Bool) : List Char → List Char × List Char
  | [] => ([], [])
  | c :: rest =>
    if (c = '#' && afterBlank) || (c = ':' && endsWord rest) || (flow && isFlowMark c) then
      ([], c :: rest)
    else
      let (taken, left) := plainLine flow (isBlank c) rest
      (c :: taken, left)

/-- The text without blanks at its end. -/
def withoutTrailing (cs : List Char) : List Char := (cs.reverse.dropWhile isBlank).reverse

/-- What stands for some line breaks between two words. -/
def foldedBreaks (breaks : Nat) : List Char :=
  if breaks = 1 then [' '] else List.replicate (breaks - 1) '\n'

/-- What the lines below add to a plain scalar after some line breaks, and the place behind it.  Outside
collections on one line they must be indented. -/
def plainBelow (flow : Bool) (least : Nat) (breaks : Nat) : List (List Char) → List Char × Place
  | [] => ([], nextContent [])
  | line :: below =>
    let words := line.dropWhile isBlank
    if words.isEmpty then plainBelow flow least (breaks + 1) below
    else if (!flow && indentation line < least) || isMarker line || words.head? = some '#' then
      ([], nextContent (line :: below))
    else
      let (taken, left) := plainLine flow true words
      let added := if taken.isEmpty then [] else foldedBreaks breaks ++ withoutTrailing taken
      if left.isEmpty then
        let (more, place) := plainBelow flow least 1 below
        (added ++ more, place)
      else (added, ⟨0, false, left, below⟩)

/-- The text of the plain scalar at a place, and the place behind it. -/
def readPlain (flow : Bool) (least : Nat) (place : Place) : List Char × Place :=
  let (taken, left) := plainLine flow false place.rest
  if left.isEmpty then
    let (more, place) := plainBelow flow least 1 place.below
    (withoutTrailing taken ++ more, place)
  else (withoutTrailing taken, place.onLine left)

/-! ## Quoted scalars -/

/-- How a line of a quoted scalar ends: with the closing quote, with a break that is folded, or with one
that is left out. -/
inductive LineEnd where
  | closed (rest : List Char)
  | folded
  | joined

/-- The character of an escape with one letter. -/
def shortEscape? : Char → Option Char
  | '0' => some '\x00'
  | 'a' => some '\x07'
  | 'b' => some '\x08'
  | 't' => some '\t'
  | '\t' => some '\t'
  | 'n' => some '\n'
  | 'v' => some '\x0b'
  | 'f' => some '\x0c'
  | 'r' => some '\r'
  | 'e' => some '\x1b'
  | ' ' => some ' '
  | '"' => some '"'
  | '/' => some '/'
  | '\\' => some '\\'
  | 'N' => some '\x85'
  | '_' => some '\xa0'
  | 'L' => some '\u2028'
  | 'P' => some '\u2029'
  | _ => none

/-- How many digits an escape has that starts with a letter. -/
def escapeDigits : Char → Nat
  | 'x' => 2
  | 'u' => 4
  | 'U' => 8
  | _ => 0

/-- The character of an escape behind its backslash, and what follows. -/
def readEscape? : List Char → Option (Char × List Char)
  | [] => none
  | c :: rest =>
    match escapeDigits c with
    | 0 => (shortEscape? c).map fun e => (e, rest)
    | count => do
      let digits ← (rest.take count).mapM Json.hexValue?
      let n := digits.foldl (fun n d => 16 * n + d) 0
      if digits.length = count ∧ n.isValidChar then some (Char.ofNat n, rest.drop count) else none

/-- What a line adds to a quoted scalar, and how it ends. -/
def quotedLine (double : Bool) : Nat → List Char → Option (List Char × LineEnd)
  | 0, _ => none
  | _ + 1, [] => some ([], .folded)
  | fuel + 1, c :: rest =>
    let take (c : Char) (rest : List Char) : Option (List Char × LineEnd) :=
      (quotedLine double fuel rest).map fun (text, lineEnd) => (c :: text, lineEnd)
    if c = (if double then '"' else '\'') then
      match double, rest with
      | false, '\'' :: rest => take '\'' rest
      | _, rest => some ([], .closed rest)
    else if double && c = '\\' then
      if rest.isEmpty then some ([], .joined) else (readEscape? rest).bind fun (c, rest) => take c rest
    else if isBlank c && rest.all isBlank then some ([], .folded)
    else take c rest

/-- What the lines below add to a quoted scalar, and the place behind it.  The `joint` stands for the
breaks so far; empty lines add to it, or replace it when it is `spare`. -/
def quotedBelow? (double : Bool) (joint : List Char) (spare : Bool) :
    List (List Char) → Option (List Char × Place)
  | [] => none
  | line :: below =>
    let words := line.dropWhile isBlank
    if isMarker line then none
    else if words.isEmpty then
      quotedBelow? double (if spare then ['\n'] else joint ++ ['\n']) false below
    else do
      let (text, lineEnd) ← quotedLine double (words.length + 1) words
      let (more, place) ← match lineEnd with
        | .closed rest => some ([], ⟨0, false, rest, below⟩)
        | .folded => quotedBelow? double [' '] true below
        | .joined => quotedBelow? double [] false below
      return (joint ++ text ++ more, place)

/-- The text of a quoted scalar behind its opening quote, and the place behind its closing one. -/
def readQuoted? (double : Bool) (place : Place) : Option (List Char × Place) := do
  let (text, lineEnd) ← quotedLine double (place.rest.length + 1) place.rest
  let (more, place) ← match lineEnd with
    | .closed rest => some ([], place.onLine rest)
    | .folded => quotedBelow? double [' '] true place.below
    | .joined => quotedBelow? double [] false place.below
  return (text ++ more, place)

/-! ## Blocks -/

/-- What becomes of the line breaks at the end of a block. -/
inductive Chomping where
  | strip
  | clip
  | keep

/-- How a block ends and how far it is indented, if its header says so. -/
def readHeader? : List Char → Option (Chomping × Option Nat)
  | cs =>
    let strip := cs.head? = some '-' || (cs.drop 1).head? = some '-'
    let keep := cs.head? = some '+' || (cs.drop 1).head? = some '+'
    let marks := cs.takeWhile fun c => c = '-' || c = '+' || ('1' ≤ c && c ≤ '9')
    let digits := marks.filter Char.isDigit
    let left := (cs.drop marks.length).dropWhile isBlank
    if digits.length ≤ 1 ∧ marks.length ≤ digits.length + 1 ∧ (left.isEmpty ∨ left.head? = some '#') then
      some (if strip then .strip else if keep then .keep else .clip,
        digits.head?.map fun c => c.toNat - '0'.toNat)
    else none

/-- How far the first line with content is indented, or an emptier one above it that is longer. -/
def blockIndentation : List (List Char) → Nat
  | [] => 0
  | line :: below =>
    if indentation line = line.length then max line.length (blockIndentation below)
    else indentation line

/-- The lines of a block without their indentation, and the lines below. -/
def blockLines (least : Nat) : List (List Char) → List (List Char) × List (List Char)
  | [] => ([], [])
  | line :: below =>
    if least ≤ indentation line || indentation line = line.length then
      let (taken, below) := blockLines least below
      (line.drop least :: taken, below)
    else ([], line :: below)

/-- The lines of a block as one text, after some empty lines; `loose` lines start with a blank and keep the
breaks around them. -/
def joinLines (folded : Bool) (loose first : Bool) (empty : Nat) : List (List Char) → List Char
  | [] => []
  | line :: below =>
    if line.isEmpty then joinLines folded loose first (empty + 1) below
    else
      let nowLoose := isBlank (line.headD ' ')
      let joint :=
        if first then List.replicate empty '\n'
        else if folded && !loose && !nowLoose then foldedBreaks (empty + 1)
        else List.replicate (empty + 1) '\n'
      joint ++ line ++ joinLines folded nowLoose false 0 below

/-- The text of a block behind its mark, and the place behind it. -/
def readBlock? (folded : Bool) (least : Nat) (place : Place) : Option (List Char × Place) := do
  let (chomping, stated) ← readHeader? place.rest
  let indent := match stated with
    | some n => least - 1 + n
    | none => max least (blockIndentation place.below)
  let (lines, below) := blockLines indent place.below
  let body := (lines.reverse.dropWhile List.isEmpty).reverse
  let breaks := lines.length - body.length + 1 - (if below.isEmpty then 1 else 0)
  let tail := match chomping with
    | .strip => 0
    | .clip => if body.isEmpty then 0 else min breaks 1
    | .keep => if body.isEmpty then breaks - 1 else breaks
  return (joinLines folded false true 0 body ++ List.replicate tail '\n', nextContent below)

/-! ## Values -/

/-- A plain scalar is a text, or null. -/
def plainValue (text : List Char) : Json :=
  let text := String.ofList text
  if ["", "~", "null", "Null", "NULL"].contains text then .null else .str text

/-- The scalar at a place, and the place behind it; lines below it belong to it from a column on. -/
def readScalar? (flow : Bool) (least : Nat) (place : Place) : Option (Json × Place) :=
  let text : List Char × Place → Json × Place := fun (text, place) => (.str (String.ofList text), place)
  match place.rest with
  | '"' :: rest => (readQuoted? true (place.onLine rest)).map text
  | '\'' :: rest => (readQuoted? false (place.onLine rest)).map text
  | c :: rest =>
    if (c = '|' || c = '>') && !flow then (readBlock? (c = '>') least (place.onLine rest)).map text
    else if startsPlain flow (c :: rest) then
      let (text, place) := readPlain flow least place
      some (plainValue text, place)
    else none
  | [] => none

end Yaml

end Tagwire
