import ObjectSystem.Text.PrintTable

/-! # Quoted text

`quote` puts a text between quotation marks such that it can be read on one line: quotation marks
and backslashes get a backslash, line ends and the like are named, and other characters that would
not be seen are shown by number. -/

namespace ObjectSystem.Text

/-- A number in base 16. -/
def hexadecimal (n : Nat) : String := String.ofList (Nat.toDigits 16 n)

/-- A character as it stands in quoted text. -/
def quoteChar (c : Char) : String :=
  match c with
  | '\x00' => "\\0"
  | '\t' => "\\t"
  | '\r' => "\\r"
  | '\n' => "\\n"
  | '"' => "\\\""
  | '\\' => "\\\\"
  | _ =>
    if inRanges unprintable c.toNat then "\\u\x7b" ++ hexadecimal c.toNat ++ "\x7d"
    else String.singleton c

/-- A text in quotation marks. -/
def quote (s : String) : String := "\"" ++ String.join (s.toList.map quoteChar) ++ "\""

end ObjectSystem.Text
