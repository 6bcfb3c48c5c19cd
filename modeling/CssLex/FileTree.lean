import CssLex.Path

/-!
File trees without links, where every directory can be searched: only files may be kept from being
read. A file system is a tree with a current directory, from which relative paths start.
-/

namespace CssLex

/-- A file with its bytes, a file that must not be read, or a directory with its entries. No
directory hides what is in it: a name in it leads to an entry or there is none. -/
inductive FileTree where
  | file (content : ByteArray)
  | locked
  | directory (entries : List (String × FileTree))

namespace FileTree

/-- The node at the end of some names. -/
def node? : FileTree → List String → Option FileTree
  | tree, [] => some tree
  | file _, _ :: _ => none
  | locked, _ :: _ => none
  | directory entries, name :: names =>
    match entries.lookup name with
    | some tree => tree.node? names
    | none => none

/-- The tree with a node put at the end of some names. Missing directories are made. -/
def insert (new : FileTree) : List String → FileTree → FileTree
  | [], _ => new
  | name :: names, directory entries =>
    let old := (entries.lookup name).getD (directory [])
    directory ((name, insert new names old) :: entries.filter fun entry => entry.1 ≠ name)
  | name :: names, _ => directory [(name, insert new names (directory []))]

/-- The tree with a directory at the end of some names, where one that exists stays as it is. -/
def insertDirectory (names : List String) (tree : FileTree) : FileTree :=
  match tree.node? names with
  | some (directory _) => tree
  | _ => insert (directory []) names tree

end FileTree

/-- Why a path cannot be read. -/
inductive FileError where
  | notFound
  | notDirectory
  | isDirectory
  | permissionDenied
  /-- A name or a whole path is longer than file systems allow. -/
  | tooLong
  /-- A path holds the character that ends texts for the system. -/
  | strayNul
  | invalidText
deriving Repr, DecidableEq

/-- The text that reports an error to a user. -/
def FileError.message : FileError → String
  | notFound => "No such file or directory (os error 2)"
  | notDirectory => "Not a directory (os error 20)"
  | isDirectory => "Is a directory (os error 21)"
  | permissionDenied => "Permission denied (os error 13)"
  | tooLong => "File name too long (os error 36)"
  | strayNul => "file name contained an unexpected NUL byte"
  | invalidText => "stream did not contain valid UTF-8"

/-- A file tree with the names of its current directory. -/
structure FileSystem where
  root : FileTree
  current : List String

namespace FileSystem

/-- The number of bytes that a name may have. -/
def nameLimit : Nat := 255

/-- The number of bytes that a path may have. -/
def pathLimit : Nat := 4095

/-- Goes on from a node by one name, which may be two dots. Only a directory can be left. -/
def step (fs : FileSystem) (here : List String) (name : String) : Except FileError (List String) :=
  match fs.root.node? here with
  | none => .error .notFound
  | some (.file _) | some .locked => .error .notDirectory
  | some (.directory entries) =>
    if name = ".." then .ok here.dropLast
    else if nameLimit < name.utf8ByteSize then .error .tooLong
    else if (entries.lookup name).isSome then .ok (here ++ [name])
    else .error .notFound

/-- Follows the names of a path to a node. -/
def follow (fs : FileSystem) (p : Path) : Except FileError (List String × FileTree) := do
  let names ← p.names.foldlM fs.step (if p.isAbsolute then [] else fs.current)
  match fs.root.node? names with
  | none => .error .notFound
  | some (.directory entries) => .ok (names, .directory entries)
  | some node => if p.endsInDirectory then .error .notDirectory else .ok (names, node)

/-- The names from the root to the node of a path, and the node. The empty path has none. -/
def resolve (fs : FileSystem) (p : Path) : Except FileError (List String × FileTree) :=
  let text := p.render
  if text.toList.contains '\x00' then .error .strayNul
  else if pathLimit < text.utf8ByteSize then .error .tooLong
  else if text = "" then .error .notFound
  else fs.follow p

/-- Whether a path leads to a regular file. -/
def isFile (fs : FileSystem) (p : Path) : Bool :=
  match fs.resolve p with
  | .ok (_, .file _) | .ok (_, .locked) => true
  | _ => false

/-- Whether a path leads to a directory. -/
def isDirectory (fs : FileSystem) (p : Path) : Bool :=
  match fs.resolve p with
  | .ok (_, .directory _) => true
  | _ => false

/-- The absolute path to where a path leads, unless it is too long to be one. -/
def canonical? (fs : FileSystem) (p : Path) : Option Path :=
  match fs.resolve p with
  | .ok (names, _) =>
    let found := Path.ofNames names
    if pathLimit < found.render.utf8ByteSize then none else some found
  | .error _ => none

/-- The text of a file. -/
def readText (fs : FileSystem) (p : Path) : Except FileError String := do
  match ← fs.resolve p with
  | (_, .directory _) => .error .isDirectory
  | (_, .locked) => .error .permissionDenied
  | (_, .file content) =>
    match String.fromUTF8? content with
    | some text => .ok text
    | none => .error .invalidText

end FileSystem
end CssLex
