import ObjectSystem.Toml.Lexeme

/-! # Points in time

Dates, times of day, and both together with or without an offset. -/

namespace ObjectSystem.Toml

/-- The number of days in a month. -/
def daysIn (year month : Nat) : Nat :=
  let leap := year % 4 = 0 && (year % 100 != 0 || year % 400 = 0)
  if month = 2 then if leap then 29 else 28
  else if month = 4 || month = 6 || month = 9 || month = 11 then 30
  else 31

/-- The text behind a character. -/
def after (c : Char) : List Char → Option (List Char)
  | [] => none
  | d :: s => if d = c then some s else none

/-- The text behind a date. -/
def date? (s : List Char) : Option (List Char) := do
  let (year, s) ← digits 4 s
  let (month, s) ← digits 2 (← after '-' s)
  let (day, s) ← digits 2 (← after '-' s)
  if 1 ≤ month && month ≤ 12 && 1 ≤ day && day ≤ daysIn year month then some s else none

/-- The text behind hours and minutes. -/
def clock? (s : List Char) : Option (List Char) := do
  let (hour, s) ← digits 2 s
  let (minute, s) ← digits 2 (← after ':' s)
  if hour ≤ 23 && minute ≤ 59 then some s else none

/-- The text behind a time of day. -/
def time? (s : List Char) : Option (List Char) := do
  let (second, s) ← digits 2 (← after ':' (← clock? s))
  if second ≤ 60 then
    match s with
    | '.' :: c :: f => if c.isDigit then some (f.dropWhile Char.isDigit) else none
    | _ => some s
  else none

/-- Nothing, or the offset of a time, is left. -/
def isOffset : List Char → Bool
  | [] => true
  | ['Z'] | ['z'] => true
  | '+' :: s | '-' :: s => clock? s = some []
  | _ => false

/-- The text is a time of day with what can follow it behind a date. -/
def isTimeOfDate (s : List Char) : Bool := (time? s).any isOffset

/-- The text is a date. -/
def isDate (s : List Char) : Bool := date? s = some []

/-- The text is a point in time, without blanks in it. -/
def isMoment (s : List Char) : Bool :=
  time? s = some [] ||
    match date? s with
    | none => false
    | some [] => true
    | some (c :: s) => (c = 'T' || c = 't') && isTimeOfDate s

end ObjectSystem.Toml
