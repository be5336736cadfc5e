import Phrasebook.Files.Resolve
import Phrasebook.Text.Lower
import Phrasebook.Theme.Glob

/-!
The templates of a theme: the files with one of the given endings that no glob leaves out. Links are
not followed, and whole directories are passed by when a glob names them.
-/

namespace Phrasebook.Theme

open Files

structure Scan where
  /-- The endings of templates; upper and lower case are the same. -/
  extensions : List Text
  /-- The globs of files that are left out. -/
  excluded : List Text
deriving DecidableEq, Repr

namespace Scan

/-- Whether a directory is passed by as a whole: a glob names it, and a glob fits its path. -/
def prunes (scan : Scan) (path : List String) : Bool :=
  match path.getLast? with
  | none => false
  | some name =>
    (scan.excluded.filterMap Glob.directoryName?).contains name.toList &&
      Glob.excludes scan.excluded ((Path.joined path).toList ++ ['/'])

def accepts (scan : Scan) (path : List String) : Bool :=
  !Glob.excludes scan.excluded (Path.joined path).toList &&
    (scan.extensions.map Text.lower).contains
      (Text.lower (Path.ending ((path.getLast?.getD "").toList)))

mutual

def templatesAt (scan : Scan) (path : List String) : FileTree → List (List String)
  | .file _ => if scan.accepts path then [path] else []
  | .link _ => []
  | .directory entries => if scan.prunes path then [] else scan.templatesAmong path entries

def templatesAmong (scan : Scan) (path : List String) :
    List (String × FileTree) → List (List String)
  | [] => []
  | (name, tree) :: rest => scan.templatesAt (path ++ [name]) tree ++ scan.templatesAmong path rest

end

end Scan

def discover (tree : FileTree) (root : Path) (scan : Scan) : Except Fault (List String) := do
  let root ← tree.resolve root
  match tree.find root with
  | .ok (.directory entries) =>
    .ok (((scan.templatesAmong [] entries).map Path.joined).mergeSort fun a b => decide (a ≤ b))
  | _ => .ok []

end Phrasebook.Theme
