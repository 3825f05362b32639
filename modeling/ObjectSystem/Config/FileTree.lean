/-! # File trees

A tree of directories and files, with a working directory in it.  Paths are written with slashes;
`FileTree.resolve` follows one, from the top of the tree if it begins with a slash and from the
working directory otherwise, and `FileTree.readText` reads the file that it leads to.

A path also names directories above its end, which `FileTree.upward` lists.  That is a matter of the
text alone: nothing is looked up in a tree. -/

namespace ObjectSystem

/-- What can stand at a place in a file tree. -/
inductive FileEntry
  | directory
  | file (content : ByteArray)

/-- A file tree: the entries that are listed, by the names from the top on, and the directories that
they need. -/
structure FileTree where
  entries : List (List String × FileEntry) := []
  /-- Where paths start that do not start at the top. -/
  workingDirectory : List String := []

/-- Why a file cannot be read. -/
inductive FileProblem
  | missing
  | notDirectory
  | isDirectory
  | nameTooLong
  | zeroInName
  | notText
  deriving DecidableEq, Repr

/-- The text of a problem. -/
def FileProblem.message : FileProblem → String
  | missing => "No such file or directory (os error 2)"
  | notDirectory => "Not a directory (os error 20)"
  | isDirectory => "Is a directory (os error 21)"
  | nameTooLong => "File name too long (os error 36)"
  | zeroInName => "file name contained an unexpected NUL byte"
  | notText => "stream did not contain valid UTF-8"

namespace FileTree

/-- The names in a path, with those that mean no step. -/
def names (path : String) : List String := (path.split '/').toList.map (·.copy)

/-- Whether a name in a path means no step. -/
def isIdle (name : String) : Bool := name = "" || name = "."

/-- The bytes that a name can have. -/
def maxName : Nat := 255

/-- The bytes that a whole path can have. -/
def maxPath : Nat := 4095

/-- Whether a path starts at the top. -/
def isAbsolute (path : String) : Bool := path.startsWith "/"

/-- What stands at a place in the tree. -/
def entry? (t : FileTree) (place : List String) : Option FileEntry :=
  match t.entries.find? (·.1 == place) with
  | some (_, e) => some e
  | none =>
    if place.isEmpty || t.entries.any (fun e => place.isPrefixOf e.1) then some .directory else none

/-- Where one step leads from a place.  Above the top there is only the top. -/
def step (place : List String) (name : String) : Except FileProblem (List String) :=
  if isIdle name then .ok place
  else if name = ".." then .ok place.dropLast
  else if maxName < name.utf8ByteSize then .error .nameTooLong
  else .ok (place ++ [name])

/-- Follows names from a place on.  Every step starts from a directory. -/
def follow (t : FileTree) (place : List String) : List String → Except FileProblem (List String)
  | [] => .ok place
  | n :: ns =>
    match t.entry? place with
    | none => .error .missing
    | some (.file _) => .error .notDirectory
    | some .directory => do t.follow (← step place n) ns

/-- The place that a path leads to. -/
def resolve (t : FileTree) (path : String) : Except FileProblem (List String) :=
  if path.contains '\x00' then .error .zeroInName
  else if maxPath < path.utf8ByteSize then .error .nameTooLong
  else t.follow (if isAbsolute path then [] else t.workingDirectory) (names path)

/-- Whether there is anything at the end of a path. -/
def hasPath (t : FileTree) (path : String) : Bool :=
  match t.resolve path with
  | .ok place => (t.entry? place).isSome
  | .error _ => false

/-- The text of the file at the end of a path. -/
def readText (t : FileTree) (path : String) : Except FileProblem String := do
  match t.entry? (← t.resolve path) with
  | none => .error .missing
  | some .directory => .error .isDirectory
  | some (.file content) =>
    match String.fromUTF8? content with
    | some s => .ok s
    | none => .error .notText

/-! ### Paths as texts -/

/-- Whether a name is a part of the path that it ends, given the names before it.  A dot is one at
the start of a path only. -/
def isPart : (before : List String) → (name : String) → Bool
  | [], name => name ≠ ""
  | _ :: _, name => !isIdle name

/-- Names, last one first, without those at the end that are no parts. -/
def trimmed : List String → List String
  | [] => []
  | n :: ns => if isPart ns n then n :: ns else trimmed ns

/-- The path that names make, given last one first, up to the last one that is a part.  If there is
none, it is the `top`. -/
def pathUpTo (top : String) (ns : List String) : String :=
  match trimmed ns with
  | [] => top
  | n :: ns => "/".intercalate (n :: ns).reverse

/-- The directories that a path names above its end, nearest first, given the names last one
first. -/
def directoriesAbove (top : String) : List String → List String
  | [] => []
  | n :: ns =>
    if isPart ns n then pathUpTo top ns :: directoriesAbove top ns else directoriesAbove top ns

/-- What the directory above the first part of a path is called: the empty path is the working
directory. -/
def topOf (path : String) : String := if isAbsolute path then "/" else ""

/-- A path and the directories that it names above its end. -/
def upward (path : String) : List String :=
  path :: directoriesAbove (topOf path) (names path).reverse

/-- A name behind the path of a directory. -/
def join (directory name : String) : String :=
  if directory = "" || directory.endsWith "/" then directory ++ name
  else directory ++ "/" ++ name

end FileTree

end ObjectSystem
