import Tagwire.Yaml.Scalar

/-!
# Flat YAML documents

A configuration is a flat document: one mapping or one sequence whose members are scalars, written line by
line or within brackets, or nothing at all, which is an empty mapping.  Every scalar is a text but the plain
ones that mean null.  Collections within collections, repeated keys and further documents are refused.
-/

set_option autoImplicit false

namespace Tagwire

namespace Yaml

/-- May the character stand in a document? -/
def isPrintable (c : Char) : Bool :=
  c = '\t' || c = '\n' || c = '\r' || (' ' ≤ c && c ≤ '~') || c = '\x85'
    || ('\xa0' ≤ c && c != '\ufffe' && c != '\uffff')

/-- The key at a place, which is a scalar within its line, and the place behind it. -/
def readKey? (flow : Bool) (place : Place) : Option (String × Place) :=
  let quoted (double : Bool) (rest : List Char) : Option (String × Place) :=
    match quotedLine double (rest.length + 1) rest with
    | some (text, .closed rest) => some (String.ofList text, place.onLine (rest.dropWhile isBlank))
    | _ => none
  match place.rest with
  | '"' :: rest => quoted true rest
  | '\'' :: rest => quoted false rest
  | cs =>
    if startsPlain flow cs then
      let (taken, left) := plainLine flow false cs
      some (String.ofList (withoutTrailing taken), place.onLine left)
    else none

/-! ## Within brackets -/

/-- The next place with content within brackets, where indentation is free. -/
def nextWithin : List (List Char) → Place
  | [] => ⟨0, false, [], []⟩
  | line :: below =>
    if isMarker line then ⟨0, false, [], []⟩
    else
      match line.dropWhile isBlank with
      | [] => nextWithin below
      | '#' :: _ => nextWithin below
      | c :: rest => ⟨0, false, c :: rest, below⟩

/-- The place with content that follows within brackets. -/
def within (place : Place) : Place :=
  match place.rest.dropWhile isBlank with
  | [] => nextWithin place.below
  | '#' :: _ => nextWithin place.below
  | c :: rest => place.onLine (c :: rest)

/-- The value behind a key within brackets, null when there is none. -/
def readValueWithin? (place : Place) : Option (Json × Place) :=
  match place.rest with
  | ':' :: rest =>
    let place := within (place.onLine rest)
    match place.rest with
    | c :: _ => if c = ',' || c = '\x7d' then some (.null, place) else readScalar? true 0 place
    | [] => none
  | _ => some (.null, place)

/-- The members of a mapping behind its opening bracket, and the place behind the closing one. -/
def readMappingWithin? : Nat → Place → Option (List (String × Json) × Place)
  | 0, _ => none
  | fuel + 1, place =>
    let place := within place
    match place.rest with
    | '\x7d' :: rest => some ([], place.onLine rest)
    | _ => do
      let (key, place) ← readKey? true place
      let (value, place) ← readValueWithin? place
      let place := within place
      match place.rest with
      | ',' :: rest =>
        let (more, place) ← readMappingWithin? fuel (place.onLine rest)
        return ((key, value) :: more, place)
      | '\x7d' :: rest => some ([(key, value)], place.onLine rest)
      | _ => none

/-- The items of a sequence behind its opening bracket, and the place behind the closing one. -/
def readSequenceWithin? : Nat → Place → Option (List Json × Place)
  | 0, _ => none
  | fuel + 1, place =>
    let place := within place
    match place.rest with
    | ']' :: rest => some ([], place.onLine rest)
    | _ => do
      let (item, place) ← readScalar? true 0 place
      let place := within place
      match place.rest with
      | ',' :: rest =>
        let (more, place) ← readSequenceWithin? fuel (place.onLine rest)
        return (item :: more, place)
      | ']' :: rest => some ([item], place.onLine rest)
      | _ => none

/-! ## Line by line -/

/-- The value behind a mark that stands in a column, null when nothing further right follows it. -/
def readValue? (column : Nat) (place : Place) : Option (Json × Place) :=
  let value : Option (Json × Place) :=
    match place.settle? with
    | some next =>
      if next.isEnd || next.column ≤ column then some (.null, next)
      else readScalar? false (column + 1) next
    | none => readScalar? false (column + 1) (place.onLine (place.rest.dropWhile isBlank))
  value.bind fun (value, place) => place.settle?.map fun place => (value, place)

/-- The members of a mapping whose keys stand in a column, and the place below it. -/
def readMapping? (column : Nat) : Nat → Place → Option (List (String × Json) × Place)
  | 0, _ => none
  | fuel + 1, place =>
    if place.column ≠ column then none
    else do
      let (key, place) ← readKey? false place
      match place.rest with
      | ':' :: rest =>
        if !endsWord rest then none
        else
          let (value, place) ← readValue? column (place.onLine rest)
          if place.isEnd then return ([(key, value)], place)
          else
            let (more, place) ← readMapping? column fuel place
            return ((key, value) :: more, place)
      | _ => none

/-- The items of a sequence whose marks stand in a column, and the place below it. -/
def readSequence? (column : Nat) : Nat → Place → Option (List Json × Place)
  | 0, _ => none
  | fuel + 1, place =>
    match place.rest with
    | '-' :: rest =>
      if place.column ≠ column || !endsWord rest || rest.head? = some '\t' then none
      else do
        let (item, place) ← readValue? column (place.onLine rest)
        if place.isEnd then return ([item], place)
        else
          let (more, place) ← readSequence? column fuel place
          return (item :: more, place)
    | _ => none

/-! ## Documents -/

/-- Nothing but the marker of its end follows a document. -/
def isDone (place : Place) : Bool :=
  match place.settle? with
  | some place =>
    place.rest.isEmpty
      || (place.isEnd && place.rest.head? = some '.'
        && (match (place.onLine (place.rest.drop 3)).settle? with
          | some place => place.rest.isEmpty
          | none => false))
  | none => false

/-- The place at which the content of a document starts, behind the marker of its start. -/
def start? (place : Place) : Option Place :=
  if place.rest.isEmpty || !place.isEnd then some place
  else if place.rest.head? = some '-' then
    let behind := place.onLine (place.rest.drop 3)
    some (behind.settle?.getD (behind.onLine (behind.rest.dropWhile isBlank)))
  else none

/-- An object of members with distinct keys. -/
def objectOf? (members : List (String × Json)) : Option Json :=
  if (members.map Prod.fst).Nodup then some (.ofMembers members) else none

/-- The content of a document, and the place behind it. -/
def readContent? (fuel : Nat) (place : Place) : Option (Json × Place) :=
  match place.rest with
  | [] => some (.obj [], place)
  | '\x7b' :: rest => do
    let (members, place) ← readMappingWithin? fuel (place.onLine rest)
    return (← objectOf? members, place)
  | '[' :: rest => do
    let (items, place) ← readSequenceWithin? fuel (place.onLine rest)
    return (.arr items, place)
  | c :: rest =>
    if place.isEnd then some (.obj [], place)
    else if !place.fresh then none
    else if c = '-' && endsWord rest then do
      let (items, place) ← readSequence? place.column fuel place
      return (.arr items, place)
    else do
      let (members, place) ← readMapping? place.column fuel place
      return (← objectOf? members, place)

/-- What a flat document says. -/
def read? (text : String) : Option Json :=
  let cs := match text.toList with
    | '\ufeff' :: rest => rest
    | cs => cs
  if cs.all isPrintable then
    match (start? (nextContent (linesOf cs))).bind (readContent? (cs.length + 1)) with
    | some (json, place) => if isDone place then some json else none
    | none => none
  else none

end Yaml

end Tagwire
