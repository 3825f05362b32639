/-! # Values of TOML

A value of a TOML document, and tables of them.  A table remembers how it came about, since that
decides how it can be added to: a table is defined once by a header or in braces, and tables that
only a longer key or header has called for can still be defined.

`Table.insert` adds an entry by a dotted key, and `Table.define` and `Table.extend` open the table
of a header, where `extend` is for headers that add one more table to an array. -/

namespace ObjectSystem.Toml

/-- How a table came about. -/
inductive Origin
  /-- It has a header of its own. -/
  | header
  /-- A longer header called for it. -/
  | implied
  /-- A dotted key called for it. -/
  | dotted
  /-- It was written in braces. -/
  | braces
  deriving DecidableEq, Repr

/-- A value.  Numbers with a fraction and points in time are kept as they were written; an array is
grown when headers add to it. -/
inductive Value
  | text (s : String)
  | integer (n : Int)
  | float (lexeme : String)
  | boolean (b : Bool)
  | moment (lexeme : String)
  | array (grown : Bool) (items : List Value)
  | table (origin : Origin) (entries : List (String × Value))

/-- The entries of a table. -/
abbrev Table : Type := List (String × Value)

namespace Table

/-- The entries with another value for a key. -/
def replace (t : Table) (key : String) (v : Value) : Table :=
  t.map fun e => if e.1 = key then (key, v) else e

/-- Adds an entry below a path of keys.  On the way tables are made as needed; a table that was
defined in another place is closed. -/
def insert : List String → String → Value → Table → Option Table
  | [], key, v, t => if (t.lookup key).isSome then none else some (t ++ [(key, v)])
  | k :: ks, key, v, t =>
    match t.lookup k with
    | none => do
      let inner ← insert ks key v []
      return t ++ [(k, .table .dotted inner)]
    | some (.table origin inner) =>
      if origin = .dotted || (origin = .implied && !ks.isEmpty) then do
        return t.replace k (.table origin (← insert ks key v inner))
      else none
    | some (.array true items) =>
      match items.reverse with
      | .table origin inner :: before =>
        if ks.isEmpty then none
        else do
          let inner ← insert ks key v inner
          return t.replace k (.array true (before.reverse ++ [.table origin inner]))
      | _ => none
    | some _ => none

/-- Changes the table that a path of header keys leads to.  On the way tables are made as needed,
and in an array that grows the last table is meant. -/
def under : List String → (Table → Option Table) → Table → Option Table
  | [], f, t => f t
  | k :: ks, f, t =>
    match t.lookup k with
    | none => do
      let inner ← under ks f []
      return t ++ [(k, .table .implied inner)]
    | some (.table origin inner) =>
      if origin = .braces then none
      else do return t.replace k (.table origin (← under ks f inner))
    | some (.array true items) =>
      match items.reverse with
      | .table origin inner :: before => do
        let inner ← under ks f inner
        return t.replace k (.array true (before.reverse ++ [.table origin inner]))
      | _ => none
    | some _ => none

/-- Opens the table of a header.  One that a longer header called for is taken over; any other that
is there already is refused. -/
def define (key : String) (t : Table) : Option Table :=
  match t.lookup key with
  | none => some (t ++ [(key, .table .header [])])
  | some (.table .implied inner) => some (t.replace key (.table .header inner))
  | some _ => none

/-- Opens one more table of an array. -/
def extend (key : String) (t : Table) : Option Table :=
  match t.lookup key with
  | none => some (t ++ [(key, .array true [.table .header []])])
  | some (.array true items) => some (t.replace key (.array true (items ++ [.table .header []])))
  | some _ => none

end Table

end ObjectSystem.Toml
