import Shorthand.Toml.Quoted

/-! # Reading documents

A document is read line by line: a header opens a table, an entry adds a value to the table opened
last.  Comments and line ends may stand around the elements of an array, and around the keys, equals
signs and values of an inline table.  Arrays and inline tables nest at most `maxNesting` deep, and a
value is read with the number of levels that may still be opened.  The loops over lines, elements and
entries stop after as many rounds as there are characters.
-/
namespace Shorthand.Toml

/-- The deepest nesting of arrays and inline tables, and the most keys of a dotted key. -/
def maxNesting : Nat := 80

def isSpace (c : Char) : Bool := c == ' ' || c == '\t'

def skipSpace (text : List Char) : List Char := text.dropWhile isSpace

def skipComment (text : List Char) : List Char := text.dropWhile Quoted.isPlain

/-- What follows the rest of a line that holds nothing more than a comment. -/
def endLine (text : List Char) : Option (List Char) :=
  let behind :=
    match skipSpace text with
    | '#' :: rest => skipComment rest
    | rest => rest
  match behind with
  | [] => some []
  | '\n' :: rest => some rest
  | '\r' :: '\n' :: rest => some rest
  | _ => none

def skipFiller : Nat → List Char → Option (List Char)
  | 0, text => some text
  | rounds + 1, text =>
    match skipSpace text with
    | [] => some []
    | c :: rest =>
      if c = '\n' || c = '\r' || c = '#' then
        (endLine (c :: rest)).bind (skipFiller rounds)
      else some (c :: rest)

def skipAll (text : List Char) : Option (List Char) := skipFiller text.length text

/-! ## Keys -/

def isKeyChar (c : Char) : Bool := c.isAlphanum || c == '_' || c == '-'

def readKey (text : List Char) : Option (String × List Char) :=
  match Quoted.readKey? text with
  | some (key, rest) => some (String.ofList key, rest)
  | none =>
    let key := text.takeWhile isKeyChar
    if key.isEmpty then none else some (String.ofList key, text.dropWhile isKeyChar)

def readKeys : Nat → List Char → Option (List String × List Char)
  | 0, _ => none
  | rounds + 1, text => do
    let (key, rest) ← readKey text
    match skipSpace rest with
    | '.' :: rest => do
      let (keys, rest) ← readKeys rounds (skipSpace rest)
      return (key :: keys, rest)
    | rest => return ([key], rest)

structure Path where
  parents : List String
  key : String

def Path.keys (path : Path) : List String := path.parents ++ [path.key]

def readPath (text : List Char) : Option (Path × List Char) := do
  let (keys, rest) ← readKeys maxNesting text
  let key ← keys.getLast?
  return (⟨keys.dropLast, key⟩, rest)

/-! ## Values -/

abbrev ValueReader := List Char → Option (Value × List Char)

def readFlat : ValueReader := fun text =>
  match Quoted.read? text with
  | some (content, rest) => some (.string (String.ofList content), rest)
  | none =>
    let (scalar, rest) := Scalar.split text
    (Scalar.value? scalar).map fun value => (value, rest)

/-- An entry: its key, the equals sign and its value.  `skip` leaves out what may stand on either
side of the sign. -/
def readEntry (skip : List Char → Option (List Char)) (readValue : ValueReader) (text : List Char) :
    Option ((Path × Value) × List Char) := do
  let (path, rest) ← readPath text
  match ← skip rest with
  | '=' :: rest => do
    let (value, rest) ← readValue (← skip rest)
    return ((path, value), rest)
  | _ => none

def readElements (readValue : ValueReader) : Nat → List Char → Option (List Value × List Char)
  | 0, _ => none
  | rounds + 1, text => do
    match ← skipAll text with
    | ']' :: rest => return ([], rest)
    | text => do
      let (value, rest) ← readValue text
      match ← skipAll rest with
      | ',' :: rest => do
        let (values, rest) ← readElements readValue rounds rest
        return (value :: values, rest)
      | ']' :: rest => return ([value], rest)
      | _ => none

/-- The entries of an inline table behind its brace, added to those read before. -/
def readEntries (readValue : ValueReader) : Nat → Entries → List Char → Option (Entries × List Char)
  | 0, _, _ => none
  | rounds + 1, entries, text => do
    match ← skipAll text with
    | '}' :: rest => return (entries, rest)
    | text => do
      let ((path, value), rest) ← readEntry skipAll readValue text
      let entries ← entries.insert path.parents path.key value
      match ← skipAll rest with
      | ',' :: rest => readEntries readValue rounds entries rest
      | '}' :: rest => return (entries, rest)
      | _ => none

/-- A value in which so many levels may be opened. -/
def readValue : Nat → ValueReader
  | 0 => readFlat
  | levels + 1 => fun text =>
    match text with
    | '[' :: rest =>
      (readElements (readValue levels) (rest.length + 1) rest).map fun (values, rest) =>
        (.array values, rest)
    | '{' :: rest =>
      (readEntries (readValue levels) (rest.length + 1) [] rest).map fun (entries, rest) =>
        (.table .sealed entries, rest)
    | text => readFlat text

/-! ## Lines -/

def readHeader (closing : List Char) (text : List Char) : Option (Path × List Char) := do
  let (path, rest) ← readPath (skipSpace text)
  if closing.isPrefixOf rest then return (path, rest.drop closing.length) else none

/-- Reads lines into a document.  `header` is the path of the table opened last. -/
def readLines : Nat → List String → Entries → List Char → Option Entries
  | 0, _, _, _ => none
  | rounds + 1, header, root, text =>
    match skipSpace text with
    | [] => some root
    | '[' :: '[' :: rest => do
      let (path, rest) ← readHeader [']', ']'] rest
      let root ← root.openElement path.parents path.key
      readLines rounds path.keys root (← endLine rest)
    | '[' :: rest => do
      let (path, rest) ← readHeader [']'] rest
      let root ← root.openTable path.parents path.key
      readLines rounds path.keys root (← endLine rest)
    | c :: rest =>
      if c = '\n' || c = '\r' || c = '#' then do
        readLines rounds header root (← endLine (c :: rest))
      else do
        let ((path, value), rest) ←
          readEntry (some ∘ skipSpace) (readValue maxNesting) (c :: rest)
        let root ← root.insertUnder header path.parents path.key value
        readLines rounds header root (← endLine rest)

def skipMark : List Char → List Char
  | '\uFEFF' :: rest => rest
  | text => text

def read (text : String) : Option Entries :=
  let characters := skipMark text.toList
  readLines (characters.length + 1) [] [] characters

end Shorthand.Toml
