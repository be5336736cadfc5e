import Phrasebook.Files.Tree

/-!
Following paths through links. `FileTree.resolve` gives every path the place it leads to, also where
nothing stands yet; `FileTree.locate` finds what stands at the end of a path. `FileTree.inside`
resolves a path of a theme and refuses it when it leaves the theme.
-/

namespace Phrasebook.FileTree

open Files

/-! ### Places -/

/-- Follows the pieces of a path from a place without links in it. Names that nothing stands for are
kept, and a link continues with `follow`. An error holds the pieces of a path on which links lead
around in a circle. -/
def resolveAlong (tree : FileTree) (entered : List Path)
    (follow : List Path → Path → List String → Except (List String) Path) (place : Path) :
    List String → Except (List String) Path
  | [] => .ok place
  | name :: rest =>
    if name = up then resolveAlong tree entered follow place.dropLast rest
    else if Path.isIdle name then resolveAlong tree entered follow place rest
    else
      let next := place ++ [name]
      match tree.find next with
      | .ok (.link target) =>
        if entered.contains next then .error (Path.goOn next rest)
        else
          match follow (next :: entered) (if Path.isAbsolute target then [] else place)
              (Path.pieces target) with
          | .ok reached => resolveAlong tree entered follow reached rest
          | .error stuck => .error (Path.goOn stuck rest)
      | _ => resolveAlong tree entered follow next rest

/-- Follows the pieces of a path, entering at most `depth` links inside of one another. -/
def resolveWith (tree : FileTree) :
    Nat → List Path → Path → List String → Except (List String) Path
  | 0, _, place, pieces => .error (place ++ pieces)
  | depth + 1, entered, place, pieces =>
    resolveAlong tree entered
      (fun entered place pieces => resolveWith tree depth entered place pieces) place pieces

/-! ### What stands at the end of a path -/

inductive Progress where
  | arrived (place : Path)
  /-- Nothing stands at the last step, but the directory in front of it is there. -/
  | vacant (place : Path)
  /-- A link in the directory `place`, with the steps that are left behind it. -/
  | atLink (place : Path) (target : String) (rest : List String)
  | stuck (refusal : Refusal)
deriving DecidableEq, Repr

def advance (tree : FileTree) (place : Path) : List String → Progress
  | [] => .arrived place
  | name :: rest =>
    match tree.find place with
    | .error refusal => .stuck refusal
    | .ok (.directory _) =>
      if name = up then advance tree place.dropLast rest
      else if name = single then advance tree place rest
      else
        match tree.find (place ++ [name]) with
        | .error refusal =>
          if refusal = .missing ∧ rest = [] then .vacant (place ++ [name]) else .stuck refusal
        | .ok (.link target) => .atLink place target rest
        | .ok _ => advance tree (place ++ [name]) rest
    | .ok _ => .stuck .notDirectory

inductive Lead where
  | found (place : Path)
  /-- Nothing stands at the place, but the directory of the place is there. -/
  | vacant (place : Path)
  | nowhere (refusal : Refusal)
deriving DecidableEq, Repr

/-- Takes the steps of a path from a place, entering at most `links` links. -/
def followFrom (tree : FileTree) (links : Nat) (place : Path) (steps : List String) : Lead :=
  match tree.advance place steps with
  | .arrived place => .found place
  | .vacant place => .vacant place
  | .stuck refusal => .nowhere refusal
  | .atLink place target rest =>
    match links with
    | 0 => .nowhere .tooManyLinks
    | links + 1 =>
      followFrom tree links (if Path.isAbsolute target then [] else place)
        (Path.steps target ++ rest)

def follow (tree : FileTree) (names : List String) : Lead := followFrom tree maxLinks [] names

def Lead.place : Lead → Except Refusal Path
  | .found place => .ok place
  | .vacant _ => .error .missing
  | .nowhere refusal => .error refusal

def locate (tree : FileTree) (names : List String) : Except Refusal Path :=
  (tree.follow names).place

/-- What stands at the end of a path, links followed. Where the path leads nowhere nothing stands,
but it must not be too long as `written`. -/
def reached (tree : FileTree) (written : String) (names : List String) :
    Except Fault (Option FileTree) :=
  if written.utf8ByteSize > maxPathBytes then .error (.refused .nameTooLong written)
  else
    match tree.locate names with
    | .ok place => .ok (tree.find place).toOption
    | .error .nameTooLong => .error (.refused .nameTooLong written)
    | .error _ => .ok none

def get? (tree : FileTree) (path : Path) : Except Fault (Option FileTree) :=
  tree.reached path.text path

def isFile (tree : FileTree) (path : Path) : Except Fault Bool := do
  match ← tree.get? path with
  | some (.file _) => .ok true
  | _ => .ok false

/-! ### Resolved paths -/

def resolve (tree : FileTree) (names : List String) : Except Fault Path :=
  if names.any fun name => name.toList.contains (Char.ofNat 0) then .error .nullCharacter
  else
    match resolveWith tree (tree.linkCount + 1) [] [] names with
    | .ok place => .ok place
    | .error stuck =>
      let place := Path.normal stuck
      match tree.locate place with
      | .error .tooManyLinks => .error (.loop place)
      | _ => .ok place

/-- The place of a path of a theme. The path must be relative and without steps up, and links may
not lead out of the theme. -/
def inside (tree : FileTree) (root : Path) (relative : String) : Except Fault Path := do
  let parts := Path.parts relative
  if parts = [] ∨ Path.isAbsolute relative ∨ up ∈ parts then
    .error (.blocked (.notInside relative))
  else
    let base ← tree.resolve root
    let place ← tree.resolve (base ++ parts)
    if base.isPrefixOf place then .ok place else .error (.blocked (.outside relative base))

/-! ### Files -/

def read (tree : FileTree) (path : Path) : Except Fault ByteArray :=
  if path.text.utf8ByteSize > maxPathBytes then .error (.refused .nameTooLong path.text)
  else
    match tree.locate path >>= tree.find with
    | .ok (.file bytes) => .ok bytes
    | .ok _ => .error (.refused .isDirectory path.text)
    | .error refusal => .error (.refused refusal path.text)

/-- Writes the file that a path leads to, which is made if nothing stands there yet. -/
def write (tree : FileTree) (path : Path) (bytes : ByteArray) : Except Fault FileTree :=
  if path.text.utf8ByteSize > maxPathBytes then .error (.refused .nameTooLong path.text)
  else
    match tree.follow path with
    | .vacant place => .ok (tree.put place (.file bytes))
    | .found place =>
      match tree.find place with
      | .ok (.file _) => .ok (tree.put place (.file bytes))
      | _ => .error (.refused .isDirectory path.text)
    | .nowhere refusal => .error (.refused refusal path.text)

def append (tree : FileTree) (path : Path) (bytes : ByteArray) : Except Fault FileTree :=
  match tree.read path with
  | .ok present => tree.write path (present ++ bytes)
  | .error _ => tree.write path bytes

end Phrasebook.FileTree

namespace Phrasebook

open Files

/-- How the system takes bytes that are to be written to a file. -/
inductive Reception where
  | taken
  /-- The file is not opened, and stays as it is. -/
  | refused (outage : Outage)
  /-- The file is opened, and the writing breaks off behind some of the bytes. -/
  | interrupted (kept : Nat) (outage : Outage)
deriving DecidableEq, Repr

/-- What a system takes, in every state of its files. Files can always be read. -/
structure Disk where
  /-- How it takes bytes for the file at a path. -/
  reception : FileTree → Path → ByteArray → Reception
  /-- Why it makes no directory at a place. -/
  outage? : FileTree → Path → Option Outage

def Disk.sound : Disk := ⟨fun _ _ _ => .taken, fun _ _ => none⟩

/-- An operation on files. What it has done when it is refused stays done. -/
abbrev FileOperation := ExceptT Fault (StateM FileTree)

namespace FileOperation

def ofResult {β : Type} : Except Fault β → FileOperation β
  | .ok value => pure value
  | .error fault => throw fault

def change (update : FileTree → Except Fault FileTree) : FileOperation Unit := do
  set (← ofResult (update (← get)))

/-- Stores bytes for the file at a path, with as many of them as the system takes. -/
def store (disk : Disk) (path : Path) (bytes : ByteArray)
    (update : ByteArray → FileTree → Except Fault FileTree) : FileOperation Unit := do
  match disk.reception (← get) path bytes with
  | .taken => change (update bytes)
  | .refused outage => throw (.refused (.system outage) path.text)
  | .interrupted kept outage => do
    change (update (bytes.extract 0 kept))
    throw (.interrupted outage)

def write (disk : Disk) (path : Path) (bytes : ByteArray) : FileOperation Unit :=
  store disk path bytes fun bytes tree => tree.write path bytes

def append (disk : Disk) (path : Path) (bytes : ByteArray) : FileOperation Unit :=
  store disk path bytes fun bytes tree => tree.append path bytes

/-- Makes a directory at a path, unless one is there. A link is not followed at the end of the path,
unless it leads to a directory. -/
def makeDirectory (disk : Disk) (path : Path) : FileOperation Unit := do
  let tree ← get
  match ← ofResult (tree.get? path) with
  | some (.directory _) => return ()
  | _ =>
    match tree.locate path.dropLast with
    | .error refusal => throw (.refused refusal path.text)
    | .ok parent =>
      let place := parent ++ path.getLast?.toList
      match tree.find place with
      | .ok _ => throw (.refused .occupied path.text)
      | .error .missing =>
        match disk.outage? tree place with
        | none => set (tree.put place .empty)
        | some outage => throw (.refused (.system outage) path.text)
      | .error refusal => throw (.refused refusal path.text)

/-- Makes a directory at a path, and those above it that are missing, from the top. -/
def makeDirectories (disk : Disk) (path : Path) : FileOperation Unit := do
  match (← get).locate path.dropLast with
  | .error .missing =>
    (List.range path.length).forM fun n => makeDirectory disk (path.take (n + 1))
  | _ => makeDirectory disk path

end FileOperation

end Phrasebook
