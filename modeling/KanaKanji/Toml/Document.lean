/-
Reading a TOML document.

A document is a sequence of lines: pairs of a dotted key and a value, headers of tables and
headers of elements of arrays of tables.  `expressions?` reads the lines, `assemble?` puts
them together, and `document?` is both.

Design notes: the readers recurse on a bound that is more than the characters left, since
each step takes at least one.  Arrays and tables in braces may lie inside one another to a
fixed depth only, and keys have a bounded number of parts.
-/
import KanaKanji.Toml.Literal

namespace KanaKanji

namespace Toml

/-- Arrays and tables in braces lie less than this deep inside one another, and keys have
fewer parts. -/
def depthLimit : Nat := 80

/-! ### Between the values -/

/-- The text without the spaces at its front. -/
def skipSpaces (s : Text) : Text :=
  s.dropWhile isSpace

/-- The text without spaces, line ends and comments at its front.  `inComment` holds after
a `#` on the same line. -/
def skipBlankLines : Text → Bool → Text
  | [], _ => []
  | '\r' :: '\n' :: s, _ => skipBlankLines s false
  | c :: s, inComment =>
    if inComment && isPlainChar c then skipBlankLines s true
    else if isSpace c || c == '\n' then skipBlankLines s false
    else if c == '#' && !inComment then skipBlankLines s true
    else c :: s

/-- What follows the end of a line, after spaces and a comment.  The end of the document
ends a line too. -/
def endLine? (s : Text) : Option Text :=
  let afterComment := match skipSpaces s with
    | '#' :: comment => comment.dropWhile isPlainChar
    | rest => rest
  match afterComment with
  | [] => some []
  | '\n' :: rest => some rest
  | '\r' :: '\n' :: rest => some rest
  | _ => none

/-! ### Keys -/

/-- Characters of a key without quotes. -/
def isBareKeyChar (c : Char) : Bool :=
  c.isAlphanum || c == '_' || c == '-'

/-- One part of a key, and what follows it. -/
def keyPart? : Text → Option (Text × Text)
  | '"' :: s => basicText s
  | '\x27' :: s => literalText s
  | s =>
    let part := s.takeWhile isBareKeyChar
    if part.isEmpty then none else some (part, s.dropWhile isBareKeyChar)

/-- The parts of a dotted key, spaces around each of them, and what follows. -/
def keyParts? : Nat → Text → Option (List Text × Text)
  | 0, _ => none
  | bound + 1, s => do
    let (part, rest) ← keyPart? (skipSpaces s)
    match skipSpaces rest with
    | '.' :: rest =>
      let (parts, rest) ← keyParts? bound rest
      some (part :: parts, rest)
    | rest => some ([part], rest)

/-- A dotted key as a path and its last part, and what follows. -/
def key? (s : Text) : Option ((List Text × Text) × Text) := do
  let (parts, rest) ← keyParts? depthLimit s
  if depthLimit ≤ parts.length then none
  else
    let last ← parts.getLast?
    some ((parts.dropLast, last), rest)

/-! ### Values -/

mutual

/-- A value inside `depth` arrays and tables, and what follows it. -/
def value? : Nat → Nat → Text → Option (Item × Text)
  | 0, _, _ => none
  | bound + 1, depth, s =>
    match s with
    | '"' :: _ => (quotation? s).map fun p => (.text p.1, p.2)
    | '\x27' :: _ => (quotation? s).map fun p => (.text p.1, p.2)
    | '[' :: s =>
      if depthLimit ≤ depth + 1 then none
      else (elements? bound (depth + 1) s).map fun p => (.array p.1, p.2)
    | '\x7b' :: s =>
      if depthLimit ≤ depth + 1 then none
      else match skipSpaces s with
        | '\x7d' :: rest => some (.table .braces [], rest)
        | s => do
          let (pairs, rest) ← pairs? bound (depth + 1) s
          let entries ← Entries.insertAll pairs []
          some (.table .braces entries, rest)
    | s => unquoted? s

/-- The rest of an array after its bracket or a comma, and what follows the array. -/
def elements? : Nat → Nat → Text → Option (List Item × Text)
  | 0, _, _ => none
  | bound + 1, depth, s =>
    match skipBlankLines s false with
    | ']' :: rest => some ([], rest)
    | s => do
      let (item, rest) ← value? bound depth s
      match skipBlankLines rest false with
      | ',' :: rest =>
        let (items, rest) ← elements? bound depth rest
        some (item :: items, rest)
      | ']' :: rest => some ([item], rest)
      | _ => none

/-- The pairs of a table in braces, and what follows the table. -/
def pairs? : Nat → Nat → Text → Option (List (List Text × Text × Item) × Text)
  | 0, _, _ => none
  | bound + 1, depth, s => do
    let ((path, key), rest) ← key? s
    let rest ← after? '=' rest
    let (item, rest) ← value? bound depth (skipSpaces rest)
    match skipSpaces rest with
    | ',' :: rest =>
      let (pairs, rest) ← pairs? bound depth rest
      some ((path, key, item) :: pairs, rest)
    | '\x7d' :: rest => some ([(path, key, item)], rest)
    | _ => none

end

/-! ### Lines -/

/-- What a line of a document says. -/
inductive Expression
  | pair (path : List Text) (key : Text) (item : Item)
  | header (path : List Text) (name : Text)
  | element (path : List Text) (name : Text)

/-- A line that is neither blank nor a comment, and what follows it. -/
def expression? (s : Text) : Option (Expression × Text) :=
  match s with
  | '[' :: '[' :: s => do
    let ((path, name), rest) ← key? s
    let rest ← ((after? ']' rest).bind (after? ']')).bind endLine?
    some (.element path name, rest)
  | '[' :: s => do
    let ((path, name), rest) ← key? s
    let rest ← (after? ']' rest).bind endLine?
    some (.header path name, rest)
  | s => do
    let ((path, key), rest) ← key? s
    let rest ← after? '=' rest
    let (item, rest) ← value? (2 * rest.length + 2) 0 (skipSpaces rest)
    let rest ← endLine? rest
    some (.pair path key item, rest)

/-- The lines of a document. -/
def expressions? : Nat → Text → Option (List Expression)
  | 0, _ => none
  | bound + 1, s =>
    match skipSpaces s with
    | [] => some []
    | '#' :: s => (endLine? ('#' :: s)).bind (expressions? bound)
    | '\n' :: s => expressions? bound s
    | '\r' :: '\n' :: s => expressions? bound s
    | s => do
      let (expression, rest) ← expression? s
      let expressions ← expressions? bound rest
      some (expression :: expressions)

/-! ### Putting the lines together -/

/-- Pairs of dotted keys and items, in order. -/
abbrev Pairs := List (List Text × Text × Item)

/-- A header with the pairs under it. -/
structure Section where
  isElement : Bool
  path : List Text
  name : Text
  pairs : Pairs

/-- The pairs before the first header, and the sections. -/
def sections : List Expression → Pairs × List Section
  | [] => ([], [])
  | .pair path key item :: rest =>
    let (pairs, ss) := sections rest
    ((path, key, item) :: pairs, ss)
  | .header path name :: rest =>
    let (pairs, ss) := sections rest
    ([], ⟨false, path, name, pairs⟩ :: ss)
  | .element path name :: rest =>
    let (pairs, ss) := sections rest
    ([], ⟨true, path, name, pairs⟩ :: ss)

/-- The document with a section more. -/
def Section.add? (entries : Entries) (s : Section) : Option Entries :=
  let place := if s.isElement then Entries.placeElement else Entries.placeTable
  Entries.underHeader (place s.name (Entries.insertAll s.pairs)) s.path entries

/-- The table that the lines describe, unless they contradict one another. -/
def assemble? (lines : List Expression) : Option Entries :=
  let (pairs, ss) := sections lines
  (Entries.insertAll pairs []).bind fun entries => ss.foldlM Section.add? entries

/-- A document without the mark that some editors put at its front. -/
def dropByteOrderMark : Text → Text
  | c :: s => if c.toNat = 0xFEFF then s else c :: s
  | [] => []

/-- The table that a document describes. -/
def document? (s : Text) : Option Entries :=
  let s := dropByteOrderMark s
  (expressions? (s.length + 1) s).bind assemble?

end Toml

end KanaKanji
