import Phrasebook.Text.Blank
import Phrasebook.Text.Quoted

/-!
Paths. A path inside of the file system is the list of names from its root, and a written path is a
text in which slashes separate the names. `Path.parts` reads a written path; a single dot and the
empty name say nothing, and two dots stay for whoever follows the path.
-/

namespace Phrasebook

namespace Text

def split (separator : Char) : Text → List Text
  | [] => [[]]
  | c :: rest =>
    if c = separator then [] :: split separator rest
    else match split separator rest with
      | [] => [[c]]
      | part :: others => (c :: part) :: others

def trim (edge : Char) (text : Text) : Text :=
  ((text.dropWhile (· == edge)).reverse.dropWhile (· == edge)).reverse

end Text

namespace Files

abbrev Path := List String

def up : String := ".."

def single : String := "."

def maxNameBytes : Nat := 255

def maxPathBytes : Nat := 4095

def maxLinks : Nat := 40

namespace Path

def isAbsolute (written : String) : Bool := Text.startsWith written.toList ['/']

def pieces (written : String) : List String := (Text.split '/' written.toList).map String.ofList

def isIdle (piece : String) : Bool := piece = "" || piece = single

/-- The names of a written path. -/
def parts (written : String) : List String := (pieces written).filter fun piece => !isIdle piece

/-- The steps along a written path: its names, and single dots where it says no more than that a
directory stands there. Slashes at the end say so too. -/
def steps (written : String) : List String :=
  let last := if (pieces written).getLast? = some "" then [single] else []
  (pieces written).filter (· ≠ "") ++ last

/-- The names of a path that is written relative to `base`. A path that starts at the root has no
use for it. -/
def startingAt (base : Path) (written : String) : List String :=
  if isAbsolute written then parts written else base ++ parts written

def joined (names : List String) : String := "/".intercalate names

def text (path : Path) : String := "/" ++ joined path

/-- A written path without what says nothing in it. Two slashes at its start stay two. -/
def tidy (written : String) : String :=
  let slashes := (written.toList.takeWhile (· = '/')).length
  let lead := if slashes = 0 then "" else if slashes = 2 then "//" else "/"
  match lead ++ joined (parts written) with
  | "" => single
  | shown => shown

/-- Takes the steps up in the pieces of a path, without a look at what the names stand for. -/
def normal (pieces : List String) : Path :=
  pieces.foldl (fun path piece =>
    if piece = up then path.dropLast else if isIdle piece then path else path ++ [piece]) []

/-- The pieces of a path that goes on from a place. Pieces that begin with a slash go on from the
root. -/
def goOn (place : List String) : List String → List String
  | "" :: piece :: rest => piece :: rest
  | rest => place ++ rest

/-- The ending of a name: its last dot and what follows, unless nothing stands in front of the dot
or behind it. -/
def ending (name : Text) : Text :=
  let tail := (name.reverse.takeWhile (· ≠ '.')).reverse
  if tail = [] ∨ name.length ≤ tail.length + 1 then [] else '.' :: tail

def stem (name : Text) : Text := name.take (name.length - (ending name).length)

end Path

inductive Blocked where
  /-- The path is empty, starts at the root or has a step up in it. -/
  | notInside (relative : String)
  /-- A link on the way leads out of the theme. -/
  | outside (relative : String) (base : Path)
deriving DecidableEq, Repr

namespace Blocked

def reason : Blocked → String
  | .notInside relative => s!"'{relative}' is not a path inside the theme."
  | .outside relative base => s!"'{relative}' resolves outside {base.text}."

def hint : Blocked → String
  | .notInside _ => "Template and catalog paths must be relative, e.g. 'partials/card.hbs'."
  | .outside _ _ => "Replace the symlink with a regular file or directory."

end Blocked

/-- Why the system does not take what is to be written. -/
inductive Outage where
  | failure
  | denied
  | full
  | readOnly
deriving DecidableEq, Repr

namespace Outage

def number : Outage → Nat
  | .failure => 5
  | .denied => 13
  | .full => 28
  | .readOnly => 30

def message : Outage → String
  | .failure => "Input/output error"
  | .denied => "Permission denied"
  | .full => "No space left on device"
  | .readOnly => "Read-only file system"

end Outage

inductive Refusal where
  | missing
  | occupied
  | notDirectory
  | isDirectory
  /-- A name or the whole path is too long. -/
  | nameTooLong
  | tooManyLinks
  /-- The system does not allow it. -/
  | system (outage : Outage)
deriving DecidableEq, Repr

namespace Refusal

def number : Refusal → Nat
  | .missing => 2
  | .occupied => 17
  | .notDirectory => 20
  | .isDirectory => 21
  | .nameTooLong => 36
  | .tooManyLinks => 40
  | .system outage => outage.number

def message : Refusal → String
  | .missing => "No such file or directory"
  | .occupied => "File exists"
  | .notDirectory => "Not a directory"
  | .isDirectory => "Is a directory"
  | .nameTooLong => "File name too long"
  | .tooManyLinks => "Too many levels of symbolic links"
  | .system outage => outage.message

end Refusal

inductive Fault where
  | blocked (why : Blocked)
  /-- Links lead around in a circle. -/
  | loop (path : Path)
  /-- A name holds the null character. -/
  | nullCharacter
  /-- An operation on a path, as written here, is refused. -/
  | refused (refusal : Refusal) (written : String)
  /-- The writing of a file that was opened breaks off. -/
  | interrupted (outage : Outage)
deriving DecidableEq, Repr

def Fault.message : Fault → String
  | .blocked why => why.reason
  | .loop path => s!"Symlink loop from {showText path.text.toList}"
  | .nullCharacter => "embedded null byte"
  | .refused refusal written =>
    s!"[Errno {refusal.number}] {refusal.message}: {showText written.toList}"
  | .interrupted outage => s!"[Errno {outage.number}] {outage.message}"

end Files

end Phrasebook
