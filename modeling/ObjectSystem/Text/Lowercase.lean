import ObjectSystem.Text.CaseTable

/-! # Lower case

`lowercase` maps a text to lower case letter by letter, by the full rules of the Unicode standard:
one capital becomes a letter and a combining dot, and a capital sigma becomes the final form at
the end of a word.  A sigma ends a word if a letter stands before it and none after it, where
characters that do not count as letters or as ends of words are passed over. -/

namespace ObjectSystem.Text

/-- Whether the first character that is not passed over is a letter with a case. -/
def meetsLetter (cs : List Char) : Bool :=
  match cs.dropWhile fun c => inRanges caseIgnorable c.toNat with
  | c :: _ => inRanges casedLetters c.toNat
  | [] => false

/-- The lower case of a character that stands between other letters. -/
def lowerChar (c : Char) : List Char :=
  if c = 'İ' then ['i', '\u0307']
  else
    match lowerShifts.find? (·.covers c.toNat) with
    | some s => [Char.ofNat (s.apply c.toNat)]
    | none => [c]

/-- Lower case of a text of which `before` was read already, last character first. -/
def lowerFrom (before : List Char) : List Char → List Char
  | [] => []
  | c :: after =>
    let low :=
      if c = 'Σ' then if meetsLetter before && !meetsLetter after then ['ς'] else ['σ']
      else lowerChar c
    low ++ lowerFrom (c :: before) after

/-- The lower case of a text. -/
def lowercase (s : String) : String := String.ofList (lowerFrom [] s.toList)

end ObjectSystem.Text
