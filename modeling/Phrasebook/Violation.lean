import Phrasebook.Text.Position
import Phrasebook.Text.Quoted

/-!
Broken contracts: conditions that the analysis of a template relies on and that stop it when they
fail. `Violation.describe` names the place in front of the message, as far as it is known.
-/

namespace Phrasebook

inductive Breach where
  /-- A marker needs two characters. -/
  | markerWidth (width : Int)
  /-- A marker changed the length of a line. -/
  | lineLength (start stop : Int) (before after : Nat)
  | emptyBlock
  | multilineEdit
  | missingFormat (locale : String)
  | unsupportedNode (kind : String)
  | helperUsage (helper : Text)
  | spanMismatch (text : Text)
deriving DecidableEq, Repr

def minMarkerWidth : Nat := 2

def Breach.message : Breach → String
  | .markerWidth width =>
    s!"Cannot fit a marker into {width} characters; the minimum is {minMarkerWidth}."
  | .lineLength start stop before after =>
    s!"Marking columns {start}-{stop} changed the line length from {before} to {after}."
  | .emptyBlock => "Block statement has neither a program nor an inverse branch."
  | .multilineEdit => "Cannot wrap text that spans multiple lines."
  | .missingFormat locale => s!"Catalog '{locale}' has no formatting metadata; refusing to guess."
  | .unsupportedNode kind => s!"{kind} is not supported."
  | .helperUsage helper =>
    s!"The '{String.ofList helper}' helper expects exactly one string literal key."
  | .spanMismatch text => s!"Extracted text {showText text} does not match its source span."

/-- A place, as far as it is known. -/
structure Place where
  source : Option String
  line : Option Int
  column : Option Int
deriving DecidableEq, Repr

namespace Place

def ofPosition (source : Option String) (position : Position) : Place :=
  ⟨source, some position.line, some position.column⟩

/-- A message with the place in front. Without a source the rest of the place says nothing. -/
def describe (place : Place) (message : String) : String :=
  match place.source, place.line, place.column with
  | none, _, _ => message
  | some source, none, _ => s!"{source}: {message}"
  | some source, some line, none => s!"{source}:{line}: {message}"
  | some source, some line, some column => s!"{source}:{line}:{column + 1}: {message}"

end Place

structure Violation where
  breach : Breach
  place : Place
deriving DecidableEq, Repr

namespace Violation

def message (violation : Violation) : String := violation.breach.message

def describe (violation : Violation) : String := violation.place.describe violation.message

end Violation

end Phrasebook
