import ObjectSystem.Config.FileTree
import ObjectSystem.Config.Settings
import ObjectSystem.Step

/-! # Finding settings

Settings are looked for in the files `cfish.toml` and `.cfishrc`, from a directory upward as far as
its path goes.  The first file that is there and can be read counts; files that are there and cannot
be read are told and passed over.  How a text is read is a parameter. -/

namespace ObjectSystem.Settings

/-- How the text of a file is read. -/
abbrev TextReader : Type := String → Except Complaint Settings

/-- The names of files with settings, in the order in which they are looked for. -/
def fileNames : List String := ["cfish.toml", ".cfishrc"]

/-- The settings in the file at the end of a path. -/
def load (read : TextReader) (t : FileTree) (path : String) : Except Complaint Settings :=
  match t.readText path with
  | .error problem => .error (.configRead path problem.message)
  | .ok s => read s

/-- The paths that are looked at from a directory on, in order. -/
def candidates (directory : String) : List String :=
  (FileTree.upward directory).flatMap fun dir => fileNames.map (FileTree.join dir)

/-- The first settings that can be read among some paths. -/
def discoverAmong {σ : Type} (read : TextReader) (t : FileTree) : List String → Step σ Settings
  | [] => pure {}
  | path :: rest =>
    if t.hasPath path then
      match load read t path with
      | .ok s => pure s
      | .error c => do
        Step.emit (.configIgnored c.message)
        discoverAmong read t rest
    else discoverAmong read t rest

/-- The settings for the directory at the end of a path. -/
def discover {σ : Type} (read : TextReader) (t : FileTree) (start : String) : Step σ Settings :=
  discoverAmong read t (candidates start)

end ObjectSystem.Settings
