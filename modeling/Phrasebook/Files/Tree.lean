import Phrasebook.Files.Path
import Phrasebook.Json.Value

/-!
Trees of files. `FileTree.find` looks a path up name by name, and `FileTree.put` replaces what
stands there; links are not followed by either of them. `FileTree.files` lists all files, and
`FileTree.changes` those that differ between two trees.
-/

namespace Phrasebook

/-- A file, a directory with its named entries, or a link with the path it leads to. -/
inductive FileTree where
  | file (bytes : ByteArray)
  | directory (entries : List (String × FileTree))
  | link (target : String)
deriving Inhabited

namespace FileTree

open Files

def empty : FileTree := .directory []

def absence (name : String) : Refusal :=
  if name.utf8ByteSize > maxNameBytes then .nameTooLong else .missing

def find : FileTree → Path → Except Refusal FileTree
  | tree, [] => .ok tree
  | .directory entries, name :: rest =>
    match Members.get? entries name with
    | none => .error (absence name)
    | some child => child.find rest
  | _, _ :: _ => .error .notDirectory

/-- Puts a tree at a path. Directories on the way are made; a file or a link on the way stays, and
nothing is put below it. -/
def put : FileTree → Path → FileTree → FileTree
  | _, [], new => new
  | .directory entries, name :: rest, new =>
    .directory (Members.alter entries name fun child => put (child.getD empty) rest new)
  | tree, _ :: _, _ => tree

mutual

/-- The regular files of a tree with their paths, for a tree that stands at `path`. -/
def filesAt (path : Path) : FileTree → List (Path × ByteArray)
  | .file bytes => [(path, bytes)]
  | .link _ => []
  | .directory entries => filesAmong path entries

def filesAmong (path : Path) : List (String × FileTree) → List (Path × ByteArray)
  | [] => []
  | (name, tree) :: rest => filesAt (path ++ [name]) tree ++ filesAmong path rest

end

def files (tree : FileTree) : List (Path × ByteArray) := filesAt [] tree

/-- The files that differ between two trees, in ascending order of their paths, with their new bytes
unless they are gone. -/
def changes (before after : FileTree) : List (Path × Option ByteArray) :=
  let old := before.files
  let new := after.files
  let changed := new.filterMap fun (path, bytes) =>
    if (Members.get? old path).any fun known => known.toList = bytes.toList then none
    else some (path, some bytes)
  let gone := old.filterMap fun (path, _) =>
    if Members.contains new path then none else some (path, none)
  (changed ++ gone).mergeSort fun a b => decide (Path.joined a.1 ≤ Path.joined b.1)

mutual

def linkCount : FileTree → Nat
  | .file _ => 0
  | .link _ => 1
  | .directory entries => linkCountAmong entries

def linkCountAmong : List (String × FileTree) → Nat
  | [] => 0
  | (_, tree) :: rest => linkCount tree + linkCountAmong rest

end

end FileTree

end Phrasebook
