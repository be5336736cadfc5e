import Phrasebook.Extract.Findings
import Phrasebook.Template.Parser
import Phrasebook.Text.Letter
import Phrasebook.Text.Slice
import Phrasebook.Violation

/-!
Edits that put texts of a template into calls of the helper. The edits of a template are applied
from its end to its start, so that no edit moves the place of one that is still to come.
-/

namespace Phrasebook

/-- The call of the helper with a text. The quote is chosen so that it does not occur in the text; a
text with both quotes has its double quotes escaped. -/
def wrap (helper text : Text) : Text :=
  let call (quote : Char) (body : Text) : Text :=
    ['{', '{'] ++ helper ++ [' ', quote] ++ body ++ [quote, '}', '}']
  if text.contains '"' then
    if text.contains '\'' then call '"' (text.replace ['"'] ['\\', '"']) else call '\'' text
  else call '"' text

structure Edit where
  text : Text
  span : Span
deriving DecidableEq, Repr

structure ChangeSet where
  source : String
  edits : List Edit
deriving DecidableEq, Repr

inductive EditFault where
  | violation (violation : Violation)
  | noSuchLine
deriving DecidableEq, Repr

namespace ChangeSet

/-- The change set of some edits: those that start later come first, and edits that start together
keep their order. -/
def ofEdits (source : String) (edits : List Edit) : ChangeSet :=
  ⟨source, edits.mergeSort fun a b => !decide (a.span.start < b.span.start)⟩

def applyEdit (source : String) (helper : Text) (lines : List Text) (edit : Edit) :
    Except EditFault (List Text) :=
  let span := edit.span
  if span.isSingleLine then
    match Text.index? lines.length (span.start.line - 1) with
    | none => .error .noSuchLine
    | some row =>
      let line := lines.getD row []
      .ok (lines.set row (Text.takeTo line span.start.column ++ wrap helper edit.text ++
        Text.dropTo line span.stop.column))
  else .error (.violation ⟨.multilineEdit, .ofPosition (some source) span.start⟩)

def apply (changes : ChangeSet) (helper contents : Text) : Except EditFault Text := do
  let lines ← changes.edits.foldlM (applyEdit changes.source helper) contents.lines
  .ok (Text.ofLines lines)

def describe (changes : ChangeSet) (label : String) (helper : Text) : List String :=
  changes.edits.reverse.map fun edit =>
    s!"{label}:{edit.span.start.line} {String.ofList edit.text} -> " ++
      String.ofList (wrap helper edit.text)

end ChangeSet

namespace Extract.Texts

/-- The texts to be put into calls: those with a letter, or all of them. -/
def translatable (texts : Texts) (all : Bool) : List Text :=
  (texts.map Prod.fst).filter fun text => all || text.hasLetter

/-- The edits for the texts to be put into calls, grouped by source in the order of first
occurrence. -/
def editsBySource (texts : Texts) (all : Bool) : List (String × List Edit) :=
  let edits := (texts.filter fun (text, _) => all || text.hasLetter).flatMap fun (text, places) =>
    places.map fun place => (place.source, (⟨text, place.span⟩ : Edit))
  edits.foldl (fun groups (source, edit) =>
    Members.alter groups source fun known => known.getD [] ++ [edit]) []

def changes (texts : Texts) (all : Bool) : List (String × ChangeSet) :=
  (texts.editsBySource all).map fun (source, edits) => (source, .ofEdits source edits)

end Extract.Texts

def renderChanges (templates : List Template) (changes : List (String × ChangeSet))
    (helper : Text) : Except EditFault (List (String × Text)) :=
  templates.foldlM (fun rendered template =>
    match Members.get? changes template.source with
    | none => .ok rendered
    | some set => do .ok (Members.put rendered template.source (← set.apply helper template.text)))
    []

end Phrasebook
