import Phrasebook.Markup.Event
import Phrasebook.Text.Position

/-!
Runs of text between markup. A run starts with the first text after markup and goes on until the
next markup, references included; `textRuns` lists the runs of a text as they stand in it.
-/

namespace Phrasebook.Markup

/-- A run of text as written, and the offset at which it starts. -/
structure TextRun where
  raw : Text
  offset : Nat
deriving DecidableEq, Repr

def runBetween (text : Text) (start stop : Nat) : List TextRun :=
  let raw := text.slice start stop
  if raw.isEmpty then [] else [⟨raw, start⟩]

/-- The runs that events make, `started` being the start of the run under way. -/
def runsOf (text : Text) (started : Option Nat) : List Event → List TextRun
  | [] =>
    match started with
    | none => []
    | some start => runBetween text start text.length
  | .text offset :: rest => runsOf text (some (started.getD offset)) rest
  | .markup offset :: rest =>
    match started with
    | none => runsOf text none rest
    | some start => runBetween text start offset ++ runsOf text none rest

def textRuns (text : Text) : Except Refusal (List TextRun) := do
  .ok (runsOf text none (← events text))

end Phrasebook.Markup
