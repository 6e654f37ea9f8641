import Diorama.Number.Binary

/-! # TOML documents

A document is a table of values. Tables and lists remember how they were written, because that
decides whether a later line may add to them.
-/

namespace Diorama.Toml

/-- How a table came to be. -/
inductive TableForm where
  /-- Written between braces, and complete. -/
  | inline
  /-- Opened by a header of its own. -/
  | header
  /-- Only named on the way to another header. -/
  | implied
  /-- Only named on the way to a dotted key. -/
  | dotted
deriving DecidableEq, Repr

inductive Value where
  | integer (n : Int)
  | float (x : Double)
  /-- A number without value: it is too large, it has no digits, or other characters stand among
  them. A document may hold it as long as nothing asks for the value. -/
  | unusable
  | boolean (b : Bool)
  | text (s : String)
  | moment (s : String)
  /-- A list grows if it is made of tables with headers. -/
  | array (grows : Bool) (items : List Value)
  | table (form : TableForm) (entries : List (String × Value))
deriving Repr

abbrev Entries := List (String × Value)

namespace Entries

/-- Puts a value under a key, in the place of the old one if there is one. -/
def set (entries : Entries) (key : String) (value : Value) : Entries :=
  if entries.any (·.1 = key) then
    entries.map fun (k, v) => if k = key then (k, value) else (k, v)
  else entries ++ [(key, value)]

/-- Changes the table at the end of a path. Tables on the way are made where they are missing; the
last table of a growing list stands for the list. A dotted key does not lead into tables with
headers, and no path leads into a complete table. -/
def descend (dotted : Bool) (change : TableForm → Entries → Option Entries) :
    List String → TableForm → Entries → Option Entries
  | [], form, entries => change form entries
  | key :: path, _, entries =>
    match entries.lookup key with
    | none => do
      let form := if dotted then .dotted else .implied
      let inner ← descend dotted change path form []
      return entries.set key (.table form inner)
    | some (.table form inner) =>
      if form = .inline ∨ (dotted ∧ form = .header) then none
      else do
        let inner ← descend dotted change path form inner
        return entries.set key (.table form inner)
    | some (.array true items) =>
      match items.getLast? with
      | some (.table form inner) => do
        let inner ← descend dotted change path form inner
        return entries.set key (.array true (items.dropLast ++ [.table form inner]))
      | _ => none
    | some _ => none

/-- Adds a new key with its value. -/
def add (key : String) (value : Value) (entries : Entries) : Option Entries :=
  if entries.any (·.1 = key) then none else some (entries ++ [(key, value)])

/-- Adds a value under a dotted key. The table that gets it must be dotted throughout. -/
def addDotted (path : List String) (key : String) (value : Value) (entries : Entries) :
    Option Entries :=
  descend true (fun form inner => if path ≠ [] ∧ form ≠ .dotted then none else inner.add key value)
    path .header entries

/-- Opens a table by its header. A table that was only implied becomes one with a header. -/
def openTable (path : List String) (key : String) (entries : Entries) : Option Entries :=
  descend false (fun _ inner =>
    match inner.lookup key with
    | none => some (inner.set key (.table .header []))
    | some (.table .implied old) => some (inner.set key (.table .header old))
    | some _ => none) path .header entries

/-- Opens the next table of a list by its header. -/
def openListed (path : List String) (key : String) (entries : Entries) : Option Entries :=
  descend false (fun _ inner =>
    match inner.lookup key with
    | none => some (inner.set key (.array true [.table .header []]))
    | some (.array true items) => some (inner.set key (.array true (items ++ [.table .header []])))
    | some _ => none) path .header entries

/-- Adds a value to the table that was opened last, the one at the end of `header`. -/
def addUnder (header path : List String) (key : String) (value : Value) (entries : Entries) :
    Option Entries :=
  descend false (fun _ inner => inner.addDotted path key value) header .header entries

end Entries

end Diorama.Toml
