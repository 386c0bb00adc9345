/-! # Documents and their values

A document is a table.  Tables remember how they came to be, because that decides what may be added
to them later.
-/
namespace Shorthand.Toml

inductive TableKind where
  /-- By a header of its own. -/
  | opened
  /-- By a header of a table inside it. -/
  | passed
  /-- By a dotted key. -/
  | dotted
  /-- Between braces; nothing can be added to it. -/
  | sealed
deriving DecidableEq, Repr, Inhabited

inductive Value where
  | string (text : String)
  | integer (n : Int)
  | float
  | boolean (b : Bool)
  /-- A date, a time or both, in its usual spelling. -/
  | dateTime (text : String)
  | array (elements : List Value)
  | table (kind : TableKind) (entries : List (String × Value))
  /-- The tables of a repeated header, in order. -/
  | tables (elements : List (List (String × Value)))
deriving Inhabited

abbrev Entries := List (String × Value)

namespace Entries

def set (key : String) (value : Value) : Entries → Entries
  | [] => [(key, value)]
  | (other, old) :: rest =>
    if other = key then (key, value) :: rest else (other, old) :: set key value rest

/-- Changes the table at the end of a path of keys.  Missing tables are made on the way; tables that
cannot be entered end the attempt. -/
def updateAt (isDotted : Bool) (change : TableKind → Entries → Option Entries) :
    List String → TableKind → Entries → Option Entries
  | [], kind, entries => change kind entries
  | key :: path, _, entries =>
    match entries.lookup key with
    | none =>
      let kind : TableKind := if isDotted then .dotted else .passed
      (updateAt isDotted change path kind []).map fun inner => entries.set key (.table kind inner)
    | some (.table kind inner) =>
      if kind = .sealed || (isDotted && kind = .opened) then none
      else
        (updateAt isDotted change path kind inner).map fun inner =>
          entries.set key (.table kind inner)
    | some (.tables elements) =>
      match elements.getLast? with
      | some last =>
        (updateAt isDotted change path .opened last).map fun last =>
          entries.set key (.tables (elements.dropLast ++ [last]))
      | none => none
    | some _ => none

/-- Adds a value under a dotted key: the keys of the tables around it, then its own.  A table is
added to only in the way it was made. -/
def insert (parents : List String) (key : String) (value : Value) (entries : Entries) :
    Option Entries :=
  let change (kind : TableKind) (entries : Entries) : Option Entries :=
    if (kind = .dotted) != parents.isEmpty && (entries.lookup key).isNone then
      some (entries.set key value)
    else none
  updateAt true change parents .opened entries

def openTable (parents : List String) (key : String) (entries : Entries) : Option Entries :=
  let change (_ : TableKind) (entries : Entries) : Option Entries :=
    match entries.lookup key with
    | none => some (entries.set key (.table .opened []))
    | some (.table .passed inner) => some (entries.set key (.table .opened inner))
    | some _ => none
  updateAt false change parents .opened entries

def openElement (parents : List String) (key : String) (entries : Entries) : Option Entries :=
  let change (_ : TableKind) (entries : Entries) : Option Entries :=
    match entries.lookup key with
    | none => some (entries.set key (.tables [[]]))
    | some (.tables elements) => some (entries.set key (.tables (elements ++ [[]])))
    | some _ => none
  updateAt false change parents .opened entries

/-- Adds a value to the table that the last header opened, at the end of the path `header`. -/
def insertUnder (header : List String) (parents : List String) (key : String) (value : Value)
    (entries : Entries) : Option Entries :=
  updateAt false (fun _ inner => insert parents key value inner) header .opened entries

end Entries

end Shorthand.Toml
