import Interchange.Bytes

/-!
# File trees

What can be read: files with their bytes, and directories with their entries. A path is a text in
which slashes part the names; a single dot is the directory itself and two dots are the one above.

* `FileSystem.find`: what stands at a path.
* `FileSystem.insert`: a file system with one more file or directory.
* `joinPath`: the path of an entry of a directory.
-/

namespace Interchange.Source

/-- A file or a directory. -/
inductive Node where
  | file (content : Bytes)
  | directory (entries : List (String × Node))

/-- Why something cannot be read. -/
inductive ReadFault where
  | notFound
  | notDirectory
  | isDirectory
  /-- A name or the whole path is longer than the operating system takes. -/
  | tooLong
  /-- The path holds the character that ends paths. -/
  | endsEarly
deriving DecidableEq, Repr

/-- The text that is shown for a fault. -/
def ReadFault.text : ReadFault → String
  | notFound => "No such file or directory (os error 2)"
  | notDirectory => "Not a directory (os error 20)"
  | isDirectory => "Is a directory (os error 21)"
  | tooLong => "File name too long (os error 36)"
  | endsEarly => "file name contained an unexpected NUL byte"

/-- What stands at each path. -/
abbrev Files := String → Except ReadFault Node

/-! ## Paths -/

/-- The path of an entry of the directory at `path`. -/
def joinPath (path entry : String) : String :=
  if path.isEmpty || path.endsWith "/" then path ++ entry else path ++ "/" ++ entry

/-- The names in a path. A slash at the end asks for a directory, as a last dot does. -/
def pathNames (path : String) : List String :=
  let names := ((path.toList.splitOn '/').map String.ofList).filter fun name => !name.isEmpty
  if path.endsWith "/" then names ++ ["."] else names

/-- The greatest size of a name in bytes. -/
def maxNameSize : Nat := 255

/-- The greatest size of a path in bytes. -/
def maxPathSize : Nat := 4095

/-- The path is longer than the operating system takes. -/
def isTooLong (path : String) : Bool :=
  maxPathSize < path.utf8ByteSize

/-- What is wrong with a path wherever it leads. -/
def pathFault? (path : String) : Option ReadFault :=
  if path.toList.contains '\x00' then some .endsEarly
  else if path.isEmpty then some .notFound
  else if isTooLong path then some .tooLong
  else none

/-- Splits a file name into what is before and after its last dot. -/
def splitExtension? : List Char → Option (List Char × List Char)
  | [] => none
  | c :: rest =>
    match splitExtension? rest with
    | some (stem, extension) => some (c :: stem, extension)
    | none => if c = '.' then some ([], rest) else none

/-- The text after the last dot of a file name; a name has none if its only dot comes first. -/
def extension? (name : String) : Option String :=
  match splitExtension? name.toList with
  | some (_ :: _, extension) => some (String.ofList extension)
  | _ => none

namespace Node

/-- Follows the names of a path from `here`. The directories above are `above`, the nearest first;
above the highest one is itself. -/
def follow (above : List Node) (here : Node) : List String → Except ReadFault Node
  | [] => .ok here
  | name :: rest =>
    match here with
    | file _ => .error .notDirectory
    | directory entries =>
      if name == "." then follow above here rest
      else if name == ".." then
        match above with
        | [] => follow [] here rest
        | parent :: higher => follow higher parent rest
      else
        match entries.find? fun entry => entry.1 == name with
        | none => .error (if maxNameSize < name.utf8ByteSize then .tooLong else .notFound)
        | some (_, child) => follow (here :: above) child rest

/-- Gives an entry a node. A node that it had is gone. -/
def setEntry (name : String) (node : Node) : List (String × Node) → List (String × Node)
  | [] => [(name, node)]
  | (other, old) :: rest =>
    if other == name then (name, node) :: rest else (other, old) :: setEntry name node rest

/-- The entries of the directory with a name; none if there is no such directory. -/
def subEntries (name : String) (entries : List (String × Node)) : List (String × Node) :=
  match entries.find? fun entry => entry.1 == name with
  | some (_, directory inner) => inner
  | _ => []

/-- Puts a node below some entries, with the directories that lead to it. A directory that is there
already keeps its entries. -/
def insertBelow (node : Node) : List String → List (String × Node) → List (String × Node)
  | [], entries => entries
  | [name], entries =>
    match node with
    | file content => setEntry name (file content) entries
    | directory inner => setEntry name (directory (subEntries name entries ++ inner)) entries
  | name :: next :: rest, entries =>
    setEntry name (directory (insertBelow node (next :: rest) (subEntries name entries))) entries

/-- Puts a node at the end of a path, with the directories on the way. `above` are the names that
lead to the place so far, the last one first. -/
def insertAlong (node : Node) (above : List String) :
    List String → List (String × Node) → List (String × Node)
  | [], entries => insertBelow node above.reverse entries
  | name :: rest, entries =>
    if name == "." then insertAlong node above rest entries
    else if name == ".." then
      insertAlong node above.tail rest (insertBelow (directory []) above.reverse entries)
    else insertAlong node (name :: above) rest entries

end Node

/-! ## File systems -/

/-- A root directory, and the names that lead from it to the working directory. -/
structure FileSystem where
  root : Node
  working : List String

namespace FileSystem

/-- A file system with some of the directories that every system has, and an empty working
directory. The null device reads as an empty file. -/
def start : FileSystem where
  root := .directory [("dev", .directory [("null", .file [])]), ("etc", .directory []),
    ("home", .directory []), ("proc", .directory []), ("tmp", .directory [("work", .directory [])]),
    ("usr", .directory []), ("var", .directory [])]
  working := ["tmp", "work"]

/-- The names that lead to a path from the root. A path with a slash in front starts at the root,
and all others start in the working directory. -/
def names (system : FileSystem) (path : String) : List String :=
  if path.startsWith "/" then pathNames path else system.working ++ pathNames path

/-- What stands at a path. -/
def find (system : FileSystem) (path : String) : Except ReadFault Node :=
  match pathFault? path with
  | some fault => .error fault
  | none => system.root.follow [] (system.names path)

/-- Puts a node at a path. -/
def insert (system : FileSystem) (path : String) (node : Node) : FileSystem :=
  match system.root with
  | .file _ => system
  | .directory entries =>
    { system with root := .directory (Node.insertAlong node [] (system.names path) entries) }

end FileSystem

/-! ## Reading -/

/-- The bytes of the file at a path. -/
def readFile (files : Files) (path : String) : Except ReadFault Bytes :=
  match files path with
  | .error fault => .error fault
  | .ok (.file content) => .ok content
  | .ok (.directory _) => .error .isDirectory

/-- The entries of the directory at a path. -/
def listDirectory (files : Files) (path : String) : Except ReadFault (List (String × Node)) :=
  match files path with
  | .error fault => .error fault
  | .ok (.file _) => .error .notDirectory
  | .ok (.directory entries) => .ok entries

/-- There is a file at a path. -/
def isFile (files : Files) (path : String) : Bool :=
  match files path with
  | .ok (.file _) => true
  | _ => false

end Interchange.Source
