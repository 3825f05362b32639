import ObjectSystem.Toml.Literal
import ObjectSystem.Toml.Moment
import ObjectSystem.Toml.Number

/-! # Documents

A document is a row of lines: entries, headers, comments and blank lines.  `parse` gives the table
of a document, or the number of the first line that has no meaning.

Values can be nested, and keys can be dotted, less than `depthLimit` deep. -/

namespace ObjectSystem.Toml

/-- The depth that is refused. -/
def depthLimit : Nat := 80

/-! ### Keys -/

/-- One part of a key. -/
def keyPart : Reader String := fun s =>
  match s with
  | '"' :: _ | '\'' :: _ => lineText s
  | _ =>
    let name := s.takeWhile isBare
    if name.isEmpty then none else some (.ofList name, s.dropWhile isBare)

/-- The parts of a dotted key, with blanks around them. -/
def keyParts (s : List Char) : Option (List String × List Char) := do
  let (part, r) ← keyPart (skipBlanks s)
  match skipBlanks r with
  | '.' :: r =>
    if r.length < s.length then do
      let (parts, r) ← keyParts r
      return (part :: parts, r)
    else none
  | r => return ([part], r)
termination_by s.length

/-- A key: the path to its table, and its last part. -/
def key (s : List Char) : Option ((List String × String) × List Char) := do
  let (parts, r) ← keyParts s
  if parts.length < depthLimit then
    match parts.reverse with
    | last :: path => return ((path.reverse, last), r)
    | [] => none
  else none

/-! ### Values -/

/-- A character of numbers, points in time and names of values. -/
def isWord (c : Char) : Bool := c.isAlphanum || c = '_' || c = '-' || c = '+' || c = '.' || c = ':'

/-- The value of a word. -/
def ofWord (s : List Char) : Option Value :=
  if s = "true".toList then some (.boolean true)
  else if s = "false".toList then some (.boolean false)
  else if isMoment s then some (.moment (.ofList s))
  else
    match integer? s with
    | some n => some (.integer n)
    | none => if isFloat s then some (.float (.ofList s)) else none

/-- A value that is a word, or a date and a time with a space between them. -/
def word : Reader Value := fun s =>
  let front := s.takeWhile isWord
  let rest := s.dropWhile isWord
  match rest with
  | ' ' :: d :: _ =>
    if isDate front && d.isDigit then
      let time := (rest.drop 1).takeWhile isWord
      if isTimeOfDate time then
        some (.moment (.ofList (front ++ ' ' :: time)), (rest.drop 1).dropWhile isWord)
      else none
    else (ofWord front).map (·, rest)
  | _ => (ofWord front).map (·, rest)

/-- The items of an array up to its end. -/
def items (item : Reader Value) (s : List Char) : Option (List Value × List Char) := do
  match ← skipGap? false s with
  | ']' :: r => return ([], r)
  | s' =>
    let (v, r) ← item s'
    match ← skipGap? false r with
    | ']' :: r => return ([v], r)
    | ',' :: r =>
      if r.length < s.length then do
        let (vs, r) ← items item r
        return (v :: vs, r)
      else none
    | _ => none
termination_by s.length

/-- The entries of a table in braces up to its end. -/
def entries (item : Reader Value) (t : Table) (s : List Char) : Option (Table × List Char) := do
  let ((path, last), r) ← key s
  let (v, r) ← item (skipBlanks (← after '=' r))
  let t ← t.insert path last v
  match skipBlanks r with
  | '}' :: r => return (t, r)
  | ',' :: r => if r.length < s.length then entries item t r else none
  | _ => none
termination_by s.length

/-- A value that is not nested in more than `depth` others. -/
def value : (depth : Nat) → Reader Value
  | 0 => fun s =>
    match s with
    | '"' :: _ | '\'' :: _ => (text s).map fun (t, r) => (.text t, r)
    | _ => word s
  | depth + 1 => fun s =>
    match s with
    | '[' :: r => (items (value depth) r).map fun (vs, r) => (.array false vs, r)
    | '{' :: r =>
      match skipBlanks r with
      | '}' :: r => some (.table .braces [], r)
      | r => (entries (value depth) [] r).map fun (t, r) => (.table .braces t, r)
    | _ => value 0 s

/-! ### Lines -/

/-- What was read of a document: its table, and the path of the header that entries are below. -/
structure Progress where
  table : Table := []
  path : List String := []

/-- A line with something on it. -/
def line (p : Progress) (s : List Char) : Option (Progress × List Char) :=
  match s with
  | '[' :: '[' :: s => do
    let ((path, last), r) ← key s
    let r ← after ']' (← after ']' r)
    let table ← p.table.under path (Table.extend last)
    return (⟨table, path ++ [last]⟩, ← endLine? r)
  | '[' :: s => do
    let ((path, last), r) ← key s
    let r ← after ']' r
    let table ← p.table.under path (Table.define last)
    return (⟨table, path ++ [last]⟩, ← endLine? r)
  | s => do
    let ((path, last), r) ← key s
    let (v, r) ← value (depthLimit - 1) (skipBlanks (← after '=' r))
    let table ← p.table.under p.path (Table.insert path last v)
    return ({ p with table }, ← endLine? r)

/-- The lines of a document.  A failure is told by the text from the line on that has no
meaning. -/
def lines (p : Progress) (s : List Char) : Except (List Char) Table :=
  if s.isEmpty then .ok p.table
  else
    let next := match endLine? s with
      | some r => some (p, r)
      | none => line p (skipBlanks s)
    match next with
    | none => .error s
    | some (p, r) => if r.length < s.length then lines p r else .error s
termination_by s.length

/-- Counts the lines of a text that were passed when only `rest` is left. -/
def linesBefore (s rest : List Char) : Nat := (s.take (s.length - rest.length)).count '\n'

/-- The table of a document, or the number of the first line that has no meaning.  A mark of the
byte order at the front is not part of the document. -/
def parse (s : String) : Except Nat Table :=
  let s := match s.toList with
    | '\ufeff' :: s => s
    | s => s
  match lines {} s with
  | .ok t => .ok t
  | .error rest => .error (linesBefore s rest + 1)

end ObjectSystem.Toml
