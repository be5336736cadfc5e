import Phrasebook.Text.Blank

/-!
Places in a text. An offset counts characters from the start of the text; a position is a line
number from 1 and a column from 0. `Text.position` takes an offset to its position and
`Text.offset` takes it back.
-/

namespace Phrasebook

/-- A line number, counted from 1, and a column, counted from 0. Positions computed from offsets
outside of a text may lie before its first column, hence the integers. -/
structure Position where
  line : Int
  column : Int
deriving DecidableEq, Repr

namespace Position

instance : LT Position where
  lt p q := p.line < q.line ∨ p.line = q.line ∧ p.column < q.column

instance : LE Position where
  le p q := p < q ∨ p = q

instance (p q : Position) : Decidable (p < q) :=
  inferInstanceAs (Decidable (p.line < q.line ∨ p.line = q.line ∧ p.column < q.column))

instance (p q : Position) : Decidable (p ≤ q) :=
  inferInstanceAs (Decidable (p < q ∨ p = q))

def later (p q : Position) : Position := if p < q then q else p

def earlier (p q : Position) : Position := if q < p then q else p

def shown (p : Position) : String := s!"{p.line}:{p.column + 1}"

end Position

/-- A range of offsets: `start` is inside, `stop` is the first offset outside. -/
structure Extent where
  start : Nat
  stop : Nat
deriving DecidableEq, Repr

structure Span where
  start : Position
  stop : Position
deriving DecidableEq, Repr

namespace Span

def isSingleLine (span : Span) : Bool := span.start.line == span.stop.line

end Span

structure Location where
  source : String
  span : Span
deriving DecidableEq, Repr

structure ReversedSpan where
  source : String
  span : Span
deriving DecidableEq, Repr

namespace ReversedSpan

def message (reversed : ReversedSpan) : String :=
  let span := reversed.span
  s!"Span end {span.stop.line}:{span.stop.column} precedes start " ++
    s!"{span.start.line}:{span.start.column} in {reversed.source}."

end ReversedSpan

namespace Span

def between (source : String) (start stop : Position) : Except ReversedSpan Span :=
  if stop < start then .error ⟨source, ⟨start, stop⟩⟩ else .ok ⟨start, stop⟩

end Span

namespace Text

/-- The position of an offset. Offsets beyond the end count on along the last line. -/
def position (text : Text) (offset : Nat) : Position := go 1 0 text offset
where
  /-- The walk along the text, with the line and column reached. -/
  go (line column : Nat) : Text → Nat → Position
    | _, 0 => ⟨line, column⟩
    | [], n + 1 => ⟨line, column + (n + 1)⟩
    | c :: rest, n + 1 => if c = '\n' then go (line + 1) 0 rest n else go line (column + 1) rest n

def lineStart : Text → Nat → Nat
  | _, 0 => 0
  | [], _ + 1 => 0
  | c :: rest, n + 1 => 1 + if c = '\n' then lineStart rest n else lineStart rest (n + 1)

def offset (text : Text) (position : Position) : Int :=
  lineStart text (position.line - 1).toNat + position.column

def span (text : Text) (extent : Extent) : Span :=
  ⟨text.position extent.start, text.position extent.stop⟩

def newlines (text : Text) : List Nat := go 0 text
where
  go (offset : Nat) : Text → List Nat
    | [] => []
    | c :: rest => if c = '\n' then offset :: go (offset + 1) rest else go (offset + 1) rest

/-- The lines of a text. Only a newline ends a line, so there is one line more than newlines. -/
def lines : Text → List Text
  | [] => [[]]
  | c :: rest =>
    if c = '\n' then [] :: lines rest
    else match lines rest with
      | [] => [[c]]
      | line :: others => (c :: line) :: others

def ofLines (lines : List Text) : Text := List.intercalate ['\n'] lines

end Text

end Phrasebook
