import Phrasebook.Extract.Fault
import Phrasebook.Template.Node

/-!
Masking a template: markers are written over its tags as its nodes are visited. Nodes inside of a
tag that is masked already are left alone, since a second marker would split the first.
-/

namespace Phrasebook.Extract

open Template

/-- The buffer so far, and the position up to which tags are masked. -/
structure Masking where
  buffer : Mask.Buffer
  maskedTo : Position

namespace Masking

def start (source : String) (text : Text) : Except Fault Masking :=
  match Mask.rejectReserved source text.lines with
  | .ok () => .ok ⟨text.lines, ⟨0, 0⟩⟩
  | .error reserved => .error (.reserved reserved)

def tag (masking : Masking) (source : String) (span : Span) : Except Fault Masking :=
  if span.start < masking.maskedTo then .ok masking
  else match Mask.mark (some source) masking.buffer span.start span.stop with
    | .ok buffer => .ok ⟨buffer, masking.maskedTo.later span.stop⟩
    | .error fault => .error (.ofMask fault)

def block (masking : Masking) (source : String) (span : Span) (positive negative : Option Span) :
    Except Fault Masking :=
  if span.start < masking.maskedTo then .ok masking
  else match Mask.markBlock (some source) masking.buffer span positive negative with
    | (_, some fault) => .error (.ofMask fault)
    | (buffer, none) =>
      let bodies := match positive, negative with
        | some p, some n => p.start.earlier n.start
        | some p, none => p.start
        | none, some n => n.start
        | none, none => masking.maskedTo
      .ok ⟨buffer, masking.maskedTo.later bodies⟩

end Masking

def unsupported (source : String) (node : Node Span) : Fault :=
  .violation ⟨.unsupportedNode node.kind.name, .ofPosition (some source) node.label.range.start⟩

/-- The ranges of the branches of a block: the one for the positive case and the one for the
negative case. -/
def branchRanges : Node Span → Option Span × Option Span
  | .statement (.block _ _ inverted first second) =>
    ((positiveBranch inverted first second).map (·.label.range),
      (negativeBranch inverted first second).map (·.label.range))
  | _ => (none, none)

def Masking.visit (masking : Masking) (source : String) (node : Node Span) : Except Fault Masking :=
  match node.kind with
  | .mustache | .partialCall | .comment | .sub => masking.tag source node.label.range
  | .block =>
    let (positive, negative) := branchRanges node
    masking.block source node.label.range positive negative
  | .partialBlock | .decorator | .decoratorBlock => .error (unsupported source node)
  | _ => .ok masking

end Phrasebook.Extract
