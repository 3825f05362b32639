/-! # Records as text

`record` writes a value by name: the name of its type, then its fields in braces, each as a name, a
colon and the text of the value, with commas between them. -/

namespace ObjectSystem.Text

/-- The text of a record with these fields. -/
def record (name : String) (fields : List (String × String)) : String :=
  match fields with
  | [] => name
  | _ => name ++ " \x7b " ++ ", ".intercalate (fields.map fun f => f.1 ++ ": " ++ f.2) ++ " \x7d"

/-- The text of a truth value. -/
def ofBool (b : Bool) : String := if b then "true" else "false"

/-- The text of an optional value. -/
def ofOption (o : Option String) : String :=
  match o with
  | none => "None"
  | some s => "Some(" ++ s ++ ")"

end ObjectSystem.Text
