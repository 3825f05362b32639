import ObjectSystem.Toml.Lexeme

/-! # Texts in quotation marks

There are four ways of writing a text: between quotation marks, where a backslash begins an escape,
or between apostrophes, where every character stands for itself; each of them on one line between
single marks, or on several lines between triple ones.  A text on several lines does not begin with
the line end behind the opening marks, and up to two marks can stand right before the closing
ones. -/

namespace ObjectSystem.Toml

/-- The character of a number in base 16. -/
def ofCodePoint (s : List Char) : Option Char :=
  let n := ofDigits 16 s
  if s.all isHexDigit && n.isValidChar then some (Char.ofNat n) else none

/-- The character of an escape, given the text behind the backslash, and how many characters of
that text the escape takes. -/
def escape? : List Char → Option (Char × Nat)
  | 'b' :: _ => some ('\x08', 1)
  | 't' :: _ => some ('\t', 1)
  | 'n' :: _ => some ('\n', 1)
  | 'f' :: _ => some ('\x0c', 1)
  | 'r' :: _ => some ('\r', 1)
  | '"' :: _ => some ('"', 1)
  | '\\' :: _ => some ('\\', 1)
  | 'u' :: s =>
    if 4 ≤ s.length then (ofCodePoint (s.take 4)).map (·, 5) else none
  | 'U' :: s =>
    if 8 ≤ s.length then (ofCodePoint (s.take 8)).map (·, 9) else none
  | _ => none

/-- How many characters a line end behind a backslash takes, with all blanks and line ends around
it. -/
def lineJoin? (s : List Char) : Option Nat :=
  match newline? (skipBlanks s) with
  | none => none
  | some r =>
    let rec skip : List Char → List Char
      | '\n' :: s => skip s
      | '\r' :: '\n' :: s => skip s
      | c :: s => if isBlank c then skip s else c :: s
      | [] => []
    some (s.length - (skip r).length)

/-- A text up to the closing quotation mark.  The next `skip` characters are passed over. -/
def basicBody (skip : Nat) (read : List Char) : Reader String
  | [] => none
  | c :: s =>
    match skip with
    | skip + 1 => basicBody skip read s
    | 0 =>
      if c = '"' then some (.ofList read.reverse, s)
      else if c = '\\' then
        match escape? s with
        | some (d, n) => basicBody n (d :: read) s
        | none => none
      else if isPlain c then basicBody 0 (c :: read) s
      else none

/-- A text up to the closing apostrophe. -/
def literalBody (read : List Char) : Reader String
  | [] => none
  | c :: s =>
    if c = '\'' then some (.ofList read.reverse, s)
    else if isPlain c then literalBody (c :: read) s
    else none

/-- A text on several lines up to the closing marks.  Escapes are only read in a text between
quotation marks.  The next `skip` characters are passed over. -/
def linesBody (mark : Char) (skip : Nat) (read : List Char) : Reader String
  | [] => none
  | c :: s =>
    match skip with
    | skip + 1 => linesBody mark skip read s
    | 0 =>
      if c = mark then
        if s.take 2 = [mark, mark] then
          let more := min 2 ((s.drop 2).takeWhile (· = mark)).length
          some (.ofList (read.reverse ++ List.replicate more mark), s.drop (2 + more))
        else linesBody mark 0 (c :: read) s
      else if c = '\\' && mark = '"' then
        match escape? s with
        | some (d, n) => linesBody mark n (d :: read) s
        | none =>
          match lineJoin? s with
          | some n => linesBody mark n read s
          | none => none
      else if c = '\n' then linesBody mark 0 ('\n' :: read) s
      else if c = '\r' && s.head? = some '\n' then linesBody mark 0 read s
      else if isPlain c then linesBody mark 0 (c :: read) s
      else none

/-- A text on several lines, without the line end at its front. -/
def linesFrom (mark : Char) (s : List Char) : Option (String × List Char) :=
  linesBody mark 0 [] ((newline? s).getD s)

/-- A text on one line. -/
def lineText : Reader String
  | '"' :: s => basicBody 0 [] s
  | '\'' :: s => literalBody [] s
  | _ => none

/-- A text. -/
def text : Reader String
  | '"' :: '"' :: '"' :: s => linesFrom '"' s
  | '\'' :: '\'' :: '\'' :: s => linesFrom '\'' s
  | s => lineText s

end ObjectSystem.Toml
