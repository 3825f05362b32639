import ObjectSystem.Toml.Lexeme
import ObjectSystem.Toml.Value

/-! # Numbers

Whole numbers of 64 bits in four bases, and numbers with a fraction or an exponent.  The latter
stand for floating point numbers of 64 bits, and one that would be infinite above is refused. -/

namespace ObjectSystem.Toml

/-- A sign at the front, and the rest. -/
def splitSign : List Char → Bool × List Char
  | '-' :: s => (true, s)
  | '+' :: s => (false, s)
  | s => (false, s)

/-- Decimal digits without a leading zero. -/
def isDecimal (s : List Char) : Bool :=
  isGrouped Char.isDigit s && (s.head? != some '0' || s.length = 1)

/-- A whole number that fits into 64 bits. -/
def bounded (n : Int) : Option Int := if n.bmod UInt64.size = n then some n else none

/-- A whole number. -/
def integer? (s : List Char) : Option Int :=
  let inBase (base : Nat) (digit : Char → Bool) (ds : List Char) : Option Int :=
    if isGrouped digit ds then bounded (ofDigits base (ungrouped ds)) else none
  match s with
  | '0' :: 'x' :: ds => inBase 16 isHexDigit ds
  | '0' :: 'o' :: ds => inBase 8 isOctalDigit ds
  | '0' :: 'b' :: ds => inBase 2 isBinaryDigit ds
  | _ =>
    let (negative, ds) := splitSign s
    if isDecimal ds then
      let n : Int := ofDigits 10 (ungrouped ds)
      bounded (if negative then -n else n)
    else none

/-- The least number that is nearer to infinity than to the largest floating point number. -/
def floatLimit : Nat := 1 <<< 1024 - 1 <<< 970

/-- Whether `mantissa` times ten to the `exponent` is beyond all floating point numbers.  Powers of
ten are only worked out where the number of digits does not decide. -/
def isBeyond (mantissa : Nat) (exponent : Int) : Bool :=
  let places : Int := (Nat.toDigits 10 mantissa).length + exponent
  if mantissa = 0 || places < 300 then false
  else if 400 < places then true
  else if 0 ≤ exponent then floatLimit ≤ mantissa * Nat.pow 10 exponent.toNat
  else floatLimit * Nat.pow 10 (-exponent).toNat ≤ mantissa

/-- The parts of a number: the digits before the point, those behind it, and the exponent. -/
structure FloatParts where
  whole : List Char
  fraction : Option (List Char)
  exponent : Option (List Char)

/-- Cuts a number without its sign into its parts. -/
def FloatParts.split (s : List Char) : FloatParts :=
  let isMark (c : Char) : Bool := c = 'e' || c = 'E'
  let exponent := match s.dropWhile (!isMark ·) with
    | [] => none
    | _ :: e => some e
  let s := s.takeWhile (!isMark ·)
  let fraction := match s.dropWhile (· != '.') with
    | [] => none
    | _ :: f => some f
  ⟨s.takeWhile (· != '.'), fraction, exponent⟩

/-- A number with a fraction or an exponent, or one of the named ones. -/
def isFloat (s : List Char) : Bool :=
  let (negative, s) := splitSign s
  if s = "inf".toList || s = "nan".toList then true
  else
    let parts := FloatParts.split s
    let exponent := parts.exponent.map splitSign
    let written := parts.fraction.isSome || parts.exponent.isSome
    let formed := isDecimal parts.whole && parts.fraction.all (isGrouped Char.isDigit) &&
      exponent.all fun e => isGrouped Char.isDigit e.2
    let fraction := ungrouped (parts.fraction.getD [])
    let scale : Int := match exponent with
      | none => 0
      | some (down, e) =>
        let n : Int := ofDigits 10 (ungrouped e)
        if down then -n else n
    written && formed &&
      (negative ||
        !isBeyond (ofDigits 10 (ungrouped parts.whole ++ fraction)) (scale - fraction.length))

end ObjectSystem.Toml
