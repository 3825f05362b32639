import ObjectSystem.Config.Settings
import ObjectSystem.Error
import ObjectSystem.Toml.Document

/-! # Settings from text

Settings are written as a TOML document with a table for each section.  Whatever is not written has
its default, and what is not known is passed over, but a setting of the wrong type is refused.

A section can also be written as an array, with its settings in the order of their declaration.  A
point in time is a section without settings. -/

namespace ObjectSystem.Settings

open Toml (Table Value)

/-- The settings that are written in a section, by name, given the names of all settings of the
section. -/
def section? (names : List String) : Value → Option (String → Option Value)
  | .table _ entries => some fun name => entries.lookup name
  | .array _ items => some fun name => (names.zip items).lookup name
  | .moment _ => some fun _ => none
  | _ => none

/-- A whole number that is not negative. -/
def ofNumber : Value → Option Nat
  | .integer n => if 0 ≤ n then some n.toNat else none
  | _ => none

/-- A text. -/
def ofText : Value → Option String
  | .text s => some s
  | _ => none

/-- A truth value. -/
def ofFlag : Value → Option Bool
  | .boolean b => some b
  | _ => none

/-- The setting of a name, or its default.  One of the wrong type is no setting. -/
def setting {α : Type} (written : String → Option Value) (name : String) (read : Value → Option α)
    (default : α) : Option α :=
  match written name with
  | none => some default
  | some v => read v

/-- The settings in a document. -/
def ofTable (t : Table) : Option Settings := do
  let inSection (name : String) (names : List String) : Option (String → Option Value) :=
    match t.lookup name with
    | none => some fun _ => none
    | some v => section? names v
  let registry ← inSection "registry" ["capacity"]
  let sort ← inSection "sort" ["mem_thresh"]
  let logging ← inSection "logging" ["level", "json", "spans", "directory"]
  let defaults : Settings := {}
  return {
    capacity := ← setting registry "capacity" ofNumber defaults.capacity
    memThresh := ← setting sort "mem_thresh" ofNumber defaults.memThresh
    level := ← setting logging "level" ofText defaults.level
    json := ← setting logging "json" ofFlag defaults.json
    spans := ← setting logging "spans" ofFlag defaults.spans
    directory := ← setting logging "directory" (fun v => (ofText v).map some) defaults.directory }

/-- The settings that a text stands for. -/
def parse (s : String) : Except Complaint Settings :=
  match Toml.parse s with
  | .error line => .error (.configParse ("line " ++ toString line ++ " has no meaning"))
  | .ok t =>
    match ofTable t with
    | none => .error (.configParse "a setting has the wrong type")
    | some s => .ok s

end ObjectSystem.Settings
