/-! # Words of TOML

The plainest parts of a TOML document: blanks, comments, line ends, and the rows of digits in
numbers and points in time. -/

namespace ObjectSystem.Toml

/-- Reads something off the front of a text.  Answers it and the rest. -/
abbrev Reader (α : Type) : Type := List Char → Option (α × List Char)

/-- A space or a tab. -/
def isBlank (c : Char) : Bool := c = ' ' || c = '\t'

/-- A character that can stand for itself: any but the control characters, and the tab. -/
def isPlain (c : Char) : Bool := c = '\t' || (' ' ≤ c && c != '\x7f')

/-- A character of keys without quotation marks. -/
def isBare (c : Char) : Bool := c.isAlphanum || c = '_' || c = '-'

/-- The text without the blanks at its front. -/
def skipBlanks (s : List Char) : List Char := s.dropWhile isBlank

/-- The text behind the line end at its front. -/
def newline? : List Char → Option (List Char)
  | '\n' :: s => some s
  | '\r' :: '\n' :: s => some s
  | _ => none

/-- The text behind the blanks, the comment and the line end at its front. -/
def endLine? (s : List Char) : Option (List Char) :=
  let s := match skipBlanks s with
    | '#' :: s => s.dropWhile isPlain
    | s => s
  if s.isEmpty then some [] else newline? s

/-- The text behind all blanks, comments and line ends at its front. -/
def skipGap? (comment : Bool) : List Char → Option (List Char)
  | [] => some []
  | '\n' :: s => skipGap? false s
  | '\r' :: '\n' :: s => skipGap? false s
  | c :: s =>
    if comment then if isPlain c then skipGap? true s else none
    else if isBlank c then skipGap? false s
    else if c = '#' then skipGap? true s
    else some (c :: s)

/-! ### Digits -/

/-- The value of a digit of base 16. -/
def digitValue (c : Char) : Nat :=
  if c.isDigit then c.toNat - '0'.toNat
  else if 'a' ≤ c && c ≤ 'f' then c.toNat - 'a'.toNat + 10
  else c.toNat - 'A'.toNat + 10

/-- A digit of base 16. -/
def isHexDigit (c : Char) : Bool :=
  c.isDigit || ('a' ≤ c && c ≤ 'f') || ('A' ≤ c && c ≤ 'F')

/-- A digit of base 8. -/
def isOctalDigit (c : Char) : Bool := '0' ≤ c && c ≤ '7'

/-- A digit of base 2. -/
def isBinaryDigit (c : Char) : Bool := c = '0' || c = '1'

/-- The number that digits stand for. -/
def ofDigits (base : Nat) (s : List Char) : Nat :=
  s.foldl (fun n c => n * base + digitValue c) 0

/-- Some digits, between which single underscores can stand. -/
def isGrouped (digit : Char → Bool) : List Char → Bool
  | [] => false
  | [c] => digit c
  | c :: '_' :: s => digit c && isGrouped digit s
  | c :: s => digit c && isGrouped digit s

/-- The digits without the underscores. -/
def ungrouped (s : List Char) : List Char := s.filter (· != '_')

/-- Exactly `n` decimal digits. -/
def digits (n : Nat) : Reader Nat := fun s =>
  let front := s.take n
  if front.length = n && front.all Char.isDigit then some (ofDigits 10 front, s.drop n) else none

end ObjectSystem.Toml
