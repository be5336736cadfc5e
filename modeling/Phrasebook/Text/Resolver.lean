import Phrasebook.Text.Position

/-!
Positions of offsets in a block of text that stands somewhere in a larger text. A resolver answers
questions about ranges that come in order: it looks at every newline only once, and refuses to go
back behind a newline that it has passed.
-/

namespace Phrasebook

/-- A block of text by its newlines: those passed, the latest first, and those ahead. -/
structure Resolver where
  /-- The line on which the block starts. -/
  line : Int
  /-- The column at which the block starts. -/
  column : Int
  passed : List Nat
  ahead : List Nat
deriving DecidableEq, Repr

inductive Misuse where
  | reversed (start stop : Int)
  | behind (start : Int) (newline : Nat)
deriving DecidableEq, Repr

def Misuse.message : Misuse → String
  | .reversed start stop => s!"Start offset {start} is after end offset {stop}."
  | .behind start newline =>
    s!"Start offset {start} is before the last resolved newline at {newline}."

namespace Resolver

def ofText (text : Text) (line column : Int) : Resolver := ⟨line, column, [], text.newlines⟩

def advance (resolver : Resolver) (offset : Int) : Resolver :=
  let (passed, ahead) := go resolver.passed resolver.ahead
  { resolver with passed, ahead }
where
  go (passed : List Nat) : List Nat → List Nat × List Nat
    | [] => (passed, [])
    | newline :: rest => if newline < offset then go (newline :: passed) rest
      else (passed, newline :: rest)

def here (resolver : Resolver) (offset : Int) : Position where
  line := resolver.passed.length + resolver.line
  column := match resolver.passed with
    | [] => offset + resolver.column
    | newline :: _ => offset - newline - 1

/-- The span of a range of offsets, and the resolver for the next range. -/
def resolve (resolver : Resolver) (start stop : Int) : Except Misuse (Span × Resolver) :=
  if stop < start then .error (.reversed start stop)
  else
    let answer : Span × Resolver :=
      let atStart := resolver.advance start
      let atStop := atStart.advance stop
      (⟨atStart.here start, atStop.here stop⟩, atStop)
    match resolver.passed with
    | newline :: _ => if start ≤ newline then .error (.behind start newline) else .ok answer
    | [] => .ok answer

end Resolver

end Phrasebook
