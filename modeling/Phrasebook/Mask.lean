import Phrasebook.Text.Slice
import Phrasebook.Violation

/-!
Markers: characters of the private use area that are written over the tags of a template, so that
only its text is left and every character keeps its place. A marker is one start character, any
number of fill characters and one end character; it may go over several lines. `mark` writes a
marker over a range of a buffer of lines.
-/

namespace Phrasebook

namespace Mask

def startChar : Char := '\uE000'

def fillChar : Char := '\uE001'

def endChar : Char := '\uE002'

def isReserved (c : Char) : Bool := c = startChar || c = fillChar || c = endChar

abbrev Buffer := List Text

inductive Fault where
  | violation (violation : Violation)
  | noSuchLine
deriving DecidableEq, Repr

structure Reserved where
  source : String
  position : Position
deriving DecidableEq, Repr

namespace Reserved

def message : String := "Template contains a reserved character (U+E000-U+E002)."

def describe (reserved : Reserved) : String :=
  s!"{reserved.source}:{reserved.position.shown}: reserved character U+E000-U+E002."

end Reserved

def findReserved? (buffer : Buffer) : Option Position :=
  buffer.zipIdx.findSome? fun (line, row) =>
    (line.findIdx? isReserved).map fun column => ⟨row + 1, column⟩

def rejectReserved (source : String) (buffer : Buffer) : Except Reserved Unit :=
  match findReserved? buffer with
  | some position => .error ⟨source, position⟩
  | none => .ok ()

def marker (width : Int) : Except Breach Text :=
  if width < minMarkerWidth then .error (.markerWidth width)
  else .ok (startChar :: (List.replicate (width.toNat - minMarkerWidth) fillChar ++ [endChar]))

def fault (source : Option String) (start : Position) (breach : Breach) : Fault :=
  .violation ⟨breach, .ofPosition source start⟩

/-- The line with the given number, counted from 1. Numbers below 1 count from the end. -/
def row? (buffer : Buffer) (line : Int) : Except Fault Nat :=
  match Text.index? buffer.length (line - 1) with
  | some row => .ok row
  | none => .error .noSuchLine

def markLine (source : Option String) (buffer : Buffer) (start stop : Position) :
    Except Fault Buffer := do
  let row ← row? buffer start.line
  let line := buffer.getD row []
  match marker (stop.column - start.column) with
  | .error breach => .error (fault source start breach)
  | .ok text =>
    let updated := Text.takeTo line start.column ++ text ++ Text.dropTo line stop.column
    if updated.length = line.length then .ok (buffer.set row updated)
    else .error (fault source start
      (.lineLength start.column stop.column line.length updated.length))

structure Segment where
  row : Nat
  start : Int
  stop : Int
deriving DecidableEq, Repr

def lineNumbers (start stop : Position) : List Int :=
  (List.range (stop.line + 1 - start.line).toNat).map fun (i : Nat) => start.line + (i : Int)

def segments (buffer : Buffer) (start stop : Position) : Except Fault (List Segment) :=
  (lineNumbers start stop).mapM fun number => do
    let row ← row? buffer number
    .ok ⟨row, if number = start.line then start.column else 0,
      if number = stop.line then stop.column else (buffer.getD row []).length⟩

/-- Writes a text over segments, each taking as many characters as it is wide. -/
def fill (text : Text) : Buffer → Int → List Segment → Buffer
  | buffer, _, [] => buffer
  | buffer, used, segment :: rest =>
    let line := buffer.getD segment.row []
    let next := used + (segment.stop - segment.start)
    let updated :=
      Text.takeTo line segment.start ++ Text.between text used next ++ Text.dropTo line segment.stop
    fill text (buffer.set segment.row updated) next rest

def totalWidth : List Segment → Int
  | [] => 0
  | segment :: rest => (segment.stop - segment.start) + totalWidth rest

def markLines (source : Option String) (buffer : Buffer) (start stop : Position) :
    Except Fault Buffer := do
  let parts ← segments buffer start stop
  match marker (totalWidth parts) with
  | .error breach => .error (fault source start breach)
  | .ok text => .ok (fill text buffer 0 parts)

/-- Writes a marker over a range of a buffer. An empty range needs none. -/
def mark (source : Option String) (buffer : Buffer) (start stop : Position) :
    Except Fault Buffer :=
  if start = stop then .ok buffer
  else if start.line = stop.line then markLine source buffer start stop
  else markLines source buffer start stop

/-! ### Blocks -/

/-- The ranges of a block outside of its branches: the open tag, the tags between the branches, and
the close tag. -/
def gaps (cursor stop : Position) : List Span → List Span
  | [] => [⟨cursor, stop⟩]
  | branch :: rest => ⟨cursor, branch.start⟩ :: gaps branch.stop stop rest

def markAll (source : Option String) : Buffer → List Span → Buffer × Option Fault
  | buffer, [] => (buffer, none)
  | buffer, gap :: rest =>
    match mark source buffer gap.start gap.stop with
    | .ok marked => markAll source marked rest
    | .error fault => (buffer, some fault)

/-- Two branches in the order in which they start, the positive one first if they start together. -/
def branchSpans (positive negative : Option Span) : List Span :=
  match positive, negative with
  | some positive, some negative =>
    if negative.start < positive.start then [negative, positive] else [positive, negative]
  | some positive, none => [positive]
  | none, some negative => [negative]
  | none, none => []

/-- Marks the tags of a block with the given branches. When a tag cannot be marked, the tags in
front of it stay marked. -/
def markBlock (source : Option String) (buffer : Buffer) (block : Span)
    (positive negative : Option Span) : Buffer × Option Fault :=
  match branchSpans positive negative with
  | [] => (buffer, some (fault source block.start .emptyBlock))
  | branches => markAll source buffer (gaps block.start block.stop branches)

/-! ### Finding markers -/

/-- The length of the marker at the start of a text, if there is one. Newlines may stand between its
characters. -/
def markerLength? : Text → Option Nat
  | [] => none
  | c :: rest =>
    if c = startChar then
      let middle := rest.takeWhile fun c => c = fillChar || c = '\n'
      match rest.drop middle.length with
      | last :: _ => if last = endChar then some (middle.length + 2) else none
      | [] => none
    else none

end Mask

end Phrasebook
