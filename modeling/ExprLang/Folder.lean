import ExprLang.Text.Quoted

/-!
# Folders

A working folder with the files and folders known around it, and how a path leads to a file. A path
is followed name by name: `.` and the empty name stay, `..` goes one level up, and any other name is
looked up where the names before it lead.
-/

namespace ExprLang

/-- Where the names of a place start. -/
inductive Base where
  /-- The folder that many levels above the working folder. -/
  | above (levels : Nat)
  /-- The topmost folder. -/
  | top
  deriving DecidableEq, Repr

/-- A place in the tree of folders. -/
structure Place where
  base : Base
  /-- The names on the way from the base, the last one first. -/
  names : List String
  deriving DecidableEq, Repr

namespace Place

/-- The working folder. -/
def working : Place :=
  ⟨.above 0, []⟩

/-- The place of a given name within a place. -/
def child (place : Place) (name : String) : Place :=
  { place with names := name :: place.names }

/-- The place one level up. Nothing is above the topmost folder, which stays where it is. -/
def parent (place : Place) : Place :=
  match place.base, place.names with
  | base, _ :: names => ⟨base, names⟩
  | .above levels, [] => ⟨.above (levels + 1), []⟩
  | .top, [] => ⟨.top, []⟩

/-- Where one name of a path leads. -/
def step (place : Place) (name : String) : Place :=
  if name = "" ∨ name = "." then place
  else if name = ".." then place.parent
  else place.child name

/-- Where a path starts. -/
def start (path : String) : Place :=
  if path.toList.head? = some '/' then ⟨.top, []⟩ else working

/-- The places that `names` lead through from `place`, and the place that they lead to. -/
def trail (place : Place) : (names : List String) → List Place × Place
  | [] => ([], place)
  | name :: names =>
    let (passed, last) := (place.step name).trail names
    (place :: passed, last)

end Place

/-- What a path may lead to. -/
inductive Entry where
  | file (content : List UInt8)
  | folder
  deriving DecidableEq, Repr

/-- A working folder with what is known around it. Of two entries at one place the first counts. -/
structure Folder where
  entries : List (Place × Entry)

/-- Why no file is read. -/
inductive FileFault where
  | notFound
  /-- The path leads through a file. -/
  | notFolder
  /-- The path leads to a folder. -/
  | isFolder
  /-- The path, or a name that is looked up, is too long. -/
  | tooLong
  deriving DecidableEq, Repr

/-- The wording of a fault at a path. -/
def FileFault.message (path : String) : FileFault → String
  | notFound => "[Errno 2] No such file or directory: " ++ Text.quoted path
  | notFolder => "[Errno 20] Not a directory: " ++ Text.quoted path
  | isFolder => "[Errno 21] Is a directory: " ++ Text.quoted path
  | tooLong => "[Errno 36] File name too long: " ++ Text.quoted path

namespace Folder

/-- The greatest length of a name in bytes. -/
def maxNameSize : Nat := 255

/-- The greatest length of a path in bytes. -/
def maxPathSize : Nat := 4095

/-- What writing an entry to a path makes known: the entry, and the folders on the way to it. -/
def entriesOf (path : String) (entry : Entry) : List (Place × Entry) :=
  let (passed, last) := (Place.start path).trail (path.splitOn "/")
  (last, entry) :: passed.map fun place => (place, .folder)

/-- The folder after writing entries to their paths one after the other. A later entry replaces an
earlier one at the same place. -/
def ofPaths (entries : List (String × Entry)) : Folder :=
  ⟨entries.reverse.flatMap fun (path, entry) => entriesOf path entry⟩

/-- Follows the names of a path from `place` to the content of a file. -/
def follow (folder : Folder) (place : Place) :
    (names : List String) → Except FileFault (List UInt8)
  | [] => .error .isFolder
  | name :: names =>
    if name = "" ∨ name = "." ∨ name = ".." then follow folder (place.step name) names
    else if maxNameSize < name.utf8ByteSize then .error .tooLong
    else
      match folder.entries.lookup (place.step name) with
      | none => .error .notFound
      | some .folder => follow folder (place.step name) names
      | some (.file content) => if names.isEmpty then .ok content else .error .notFolder

/-- The content of the file at a path. -/
def read (folder : Folder) (path : String) : Except FileFault (List UInt8) :=
  if maxPathSize < path.utf8ByteSize then .error .tooLong
  else follow folder (Place.start path) (path.splitOn "/")

end Folder

end ExprLang
