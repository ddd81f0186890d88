import BracketScript.Console

/-!
# Files

`Files` is what the outside world answers about paths.  A `FileTree` is such a
world in the small: a working directory with the files and directories below it,
found by the usual rules for relative paths.
-/

namespace BracketScript

/-- What the outside world answers about paths.  That a path names a file does not
mean that the file can be read. -/
structure Files where
  /-- What reading a path gives. -/
  read : String → Except IoError ByteArray
  /-- Whether a path names a regular file. -/
  isFile : String → Bool

instance : CoeFun Files fun _ => String → Except IoError ByteArray :=
  ⟨Files.read⟩

/-- A world without files. -/
def Files.none : Files where
  read _ := .error .notFound
  isFile _ := false

/-- A file with its content, or a directory. -/
inductive FileNode where
  | file (content : ByteArray)
  | directory

/-- Nodes below the working directory, by the names on the way to them.
Directories that hold something need not be listed. -/
abbrev FileTree := List (List String × FileNode)

namespace FileTree

/-- The names in a path; an empty name stands for the directory itself. -/
def names (path : String) : List String :=
  path.splitOn "/"

/-- The tree with nodes at the given paths. -/
def ofList (nodes : List (String × FileNode)) : FileTree :=
  nodes.map fun (path, node) => ((names path).filter (· ≠ ""), node)

/-- The node at a place. -/
def node? (tree : FileTree) (place : List String) : Option FileNode :=
  match tree.lookup place with
  | some node => some node
  | none =>
    if tree.any fun (other, _) => place.isPrefixOf other then some .directory
    else if place = [] then some .directory
    else none

/-- Follows names from a place. -/
def walk (tree : FileTree) (place : List String) : List String → Except IoError FileNode
  | [] =>
    match tree.node? place with
    | some node => .ok node
    | none => .error .notFound
  | name :: rest =>
    match tree.node? place with
    | none => .error .notFound
    | some (.file _) => .error .notDirectory
    | some .directory =>
      if name = "" ∨ name = "." then walk tree place rest
      else if name = ".." then
        match place.reverse with
        | [] => .error .notFound
        | _ :: outer => walk tree outer.reverse rest
      else walk tree (place ++ [name]) rest

/-- The node that a path leads to. -/
def find (tree : FileTree) (path : String) : Except IoError FileNode :=
  if path = "" ∨ path.startsWith "/" then .error .notFound
  else walk tree [] (names path)

/-- The files of a tree, all of which can be read. -/
def read (tree : FileTree) : Files where
  read path :=
    match tree.find path with
    | .ok (.file content) => .ok content
    | .ok .directory => .error .isDirectory
    | .error e => .error e
  isFile path :=
    match tree.find path with
    | .ok (.file _) => true
    | _ => false

end FileTree
end BracketScript
