import Phrasebook.Extract.Findings
import Phrasebook.Extract.Masking
import Phrasebook.Markup.TextRun

/-!
Reading the texts of a masked template: the runs of text between markup are cut at the markers, and
every part that is not blank is recorded with its place, its references replaced.
-/

namespace Phrasebook.Extract

/-- The parts of a text between markers, with the offsets at which they start. The first argument
counts the characters of a marker that are still to be skipped. -/
def unmarked (raw : Text) : List (Nat × Text) := go 0 0 0 [] raw
where
  /-- The parts from `offset` on; `part` is the part under way, the latest character first, and
  `start` the offset at which it starts. -/
  go (skip offset start : Nat) (part : Text) : Text → List (Nat × Text)
    | [] => [(start, part.reverse)]
    | c :: rest =>
      match skip with
      | skip + 1 => go skip (offset + 1) start part rest
      | 0 =>
        match Mask.markerLength? (c :: rest) with
        | some length =>
          (start, part.reverse) :: go (length - 1) (offset + 1) (offset + length) [] rest
        | none => go 0 (offset + 1) start (c :: part) rest

def sourceSlice? (lines : List Text) (span : Span) : Option Text := do
  let first ← Text.index? lines.length (span.start.line - 1)
  if span.start.line = span.stop.line then
    some (Text.between (lines.getD first []) span.start.column span.stop.column)
  else
    let last ← Text.index? lines.length (span.stop.line - 1)
    some (Text.ofLines (Text.dropTo (lines.getD first []) span.start.column ::
      (Text.between lines span.start.line (span.stop.line - 1) ++
        [Text.takeTo (lines.getD last []) span.stop.column])))

/-- Records a part of a run, unless it is blank. -/
def record (source : String) (lines : List Text) (texts : Texts) (resolver : Resolver)
    (start : Nat) (part : Text) : Except Fault (Texts × Resolver) :=
  let cut := Text.stripLeft part
  let trimmed := Text.stripRight cut
  if trimmed.isEmpty then .ok (texts, resolver)
  else
    let first := start + (part.length - cut.length)
    match resolver.resolve first (first + trimmed.length) with
    | .error misuse => .error (.misuse misuse)
    | .ok (span, resolver) =>
      match sourceSlice? lines span with
      | none => .error .noSuchLine
      | some slice =>
        if slice = trimmed then
          match Text.unescape trimmed with
          | .error long => .error (.longReference long.digits)
          | .ok text => .ok (texts.add text [⟨source, span⟩], resolver)
        else .error (.violation
          ⟨.spanMismatch trimmed, .ofPosition (some source) span.start⟩)

def recordRun (source : String) (lines : List Text) (masked : Text) (texts : Texts)
    (run : Markup.TextRun) : Except Fault Texts := do
  let position := masked.position run.offset
  let resolver := Resolver.ofText run.raw position.line position.column
  let (texts, _) ← (unmarked run.raw).foldlM
    (fun (texts, resolver) (start, part) => record source lines texts resolver start part)
    (texts, resolver)
  .ok texts

def readTexts (source : String) (lines : List Text) (buffer : Mask.Buffer) (texts : Texts) :
    Except Fault Texts :=
  let masked := Text.ofLines buffer
  match Markup.textRuns masked with
  | .error refusal => .error (.ofRefusal refusal)
  | .ok runs => runs.foldlM (recordRun source lines masked) texts

end Phrasebook.Extract
