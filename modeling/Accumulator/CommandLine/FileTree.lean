import Accumulator.Source

/-! # File trees

The files that a command finds from the directory it works in. A path is followed one name at a
time, and a listed path is followed in the same way when the tree is made, so that the
directories on its way are there. Places outside the working directory that are not listed are
directories without files.
-/

namespace Accumulator.CommandLine

set_option autoImplicit false

abbrev Name : Type := List UInt8

inductive Node where
  | file (content : ByteArray)
  | directory

/-- The place that names lead to from the working directory. Names of the directory above stand
only in front, and an empty name in front is the root. -/
abbrev Place : Type := List Name

/-- Places with what is there, the latest first. -/
structure FileTree where
  nodes : List (Place × Node)

def splitPath (path : ByteArray) : List Name :=
  path.toList.splitOnP (· == '/'.toUInt8)

def maxName : Nat := 255

def maxPath : Nat := 4095

def here : Name := ".".toByteArray.toList

def above : Name := "..".toByteArray.toList

namespace Place

def root : Place := [[]]

/-- The directory above a place; the root is above itself. -/
def parent (place : Place) : Place :=
  match place.getLast? with
  | none => [above]
  | some name =>
    if name = [] then place
    else if name = above then place ++ [above]
    else place.dropLast

def enter (place : Place) (name : Name) : Place :=
  if name = [] ∨ name = here then place
  else if name = above then place.parent
  else place ++ [name]

/-- Where the names of a path start: at the root behind a slash, else in the working directory. -/
def origin : List Name → Place
  | [] :: _ :: _ => root
  | _ => []

end Place

namespace FileTree

/-- A node with the directories on the way to it, in the order in which they are reached. -/
def route (node : Node) (place : Place) : List Name → List (Place × Node)
  | [] => [(place, node)]
  | name :: rest => (place, .directory) :: route node (place.enter name) rest

/-- The tree of listed paths. Of two nodes in one place the later one counts. -/
def ofPaths (entries : List (ByteArray × Node)) : FileTree :=
  ⟨(entries.flatMap fun (path, node) =>
    let names := splitPath path
    route node (Place.origin names) names).reverse⟩

def node? (tree : FileTree) (place : Place) : Option Node :=
  List.lookup place tree.nodes

def follow (tree : FileTree) (place : Place) : List Name → Except FileFault ByteArray
  | [] => .error .isDirectory
  | name :: rest =>
    if name = [] ∨ name = here ∨ name = above then tree.follow (place.enter name) rest
    else if maxName < name.length then .error .nameTooLong
    else
      match tree.node? (place.enter name) with
      | none => .error .missing
      | some (.file content) => if rest = [] then .ok content else .error .notDirectory
      | some .directory => tree.follow (place.enter name) rest

def read (tree : FileTree) (path : ByteArray) : Except FileFault ByteArray :=
  if path.size = 0 then .error .missing
  else if maxPath < path.size then .error .nameTooLong
  else tree.follow (Place.origin (splitPath path)) (splitPath path)

end FileTree

end Accumulator.CommandLine
