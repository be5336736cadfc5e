import Phrasebook.Extract.Reading
import Phrasebook.Template.Parser

/-!
The analysis of a template: its nodes are visited once, and every visitor takes what concerns it.
One visitor masks tags and then reads the texts left; another collects the keys that the helper is
called with. `analyse` runs any list of visitors.
-/

namespace Phrasebook.Extract

open Template

/-! ### Keys -/

abbrev Visits := List (String × Nat)

/-- Records that `owner` meets the node with a number, and whether it does so for the first time. -/
def firstVisit {ι : Type} [BEq ι] (visits : List (String × ι)) (owner : String) (id : ι) :
    List (String × ι) × Bool :=
  if visits.contains (owner, id) then (visits, false) else (visits ++ [(owner, id)], true)

def keyOwner : String := "keys"

def callOf? : Node Span → Option (Call Span)
  | .statement (.mustache _ call _) => some call
  | .expr (.sub _ call) => some call
  | _ => none

def callsHelper (helper : Text) (call : Call Span) : Bool :=
  match call.callee with
  | .path _ path => path.written = helper
  | _ => false

/-- The key that the helper is called with: its only operand, a string. -/
def keyOf? (call : Call Span) : Option Text :=
  match call.params with
  | [.literal _ (.string value)] => some value
  | _ => none

def namesOf (call : Call Span) : List Text :=
  match call.named with
  | some named => named.pairs.map (·.name)
  | none => []

def collectKey (source : String) (helper : Text) (keys : Keys) (node : Node Span)
    (call : Call Span) : Except Fault Keys :=
  if callsHelper helper call then
    match keyOf? call with
    | some key =>
      .ok (keys.add key (namesOf call) [⟨⟨source, node.label.range⟩, namesOf call⟩])
    | none =>
      .error (.violation ⟨.helperUsage helper, .ofPosition (some source) node.label.range.start⟩)
  else .ok keys

/-! ### Visitors -/

inductive Aim where
  | texts
  | keys
deriving DecidableEq, Repr

inductive Visitor where
  | texts (masking : Masking)
  | keys

/-- A walk over a template: its visitors, the visits they recorded, and what was found so far. -/
structure Walk where
  visitors : List Visitor
  visits : Visits
  findings : Findings

structure Subject where
  source : String
  text : Text
  helper : Text

def Visitor.start (subject : Subject) : Aim → Except Fault Visitor
  | .texts => do .ok (.texts (← Masking.start subject.source subject.text))
  | .keys => .ok .keys

def Visitor.meet (subject : Subject) (node : Node Span) (visits : Visits) (findings : Findings) :
    Visitor → Except Fault (Visitor × Visits × Findings)
  | .texts masking => do .ok (.texts (← masking.visit subject.source node), visits, findings)
  | .keys =>
    match callOf? node with
    | none => .ok (.keys, visits, findings)
    | some call =>
      match firstVisit visits keyOwner node.label.id with
      | (_, false) => .ok (.keys, visits, findings)
      | (visits, true) => do
        let keys ← collectKey subject.source subject.helper findings.keys node call
        .ok (.keys, visits, { findings with keys })

def meetAll (subject : Subject) (node : Node Span) (visits : Visits) (findings : Findings) :
    List Visitor → Except Fault (List Visitor × Visits × Findings)
  | [] => .ok ([], visits, findings)
  | visitor :: rest => do
    let (visitor, visits, findings) ← visitor.meet subject node visits findings
    let (rest, visits, findings) ← meetAll subject node visits findings rest
    .ok (visitor :: rest, visits, findings)

def Walk.visit (subject : Subject) (walk : Walk) (node : Node Span) : Except Fault Walk :=
  if node.kind.isKnown then do
    let (visitors, visits, findings) ←
      meetAll subject node walk.visits walk.findings walk.visitors
    .ok ⟨visitors, visits, findings⟩
  else .error (unsupported subject.source node)

def Walk.over (subject : Subject) (aims : List Aim) (program : Program Span) :
    Except Fault Walk := do
  let visitors ← aims.mapM (Visitor.start subject)
  program.nodes.foldlM (Walk.visit subject) ⟨visitors, [], .empty⟩

/-! ### Whole analyses -/

/-- The result of an analysis: the masked buffers in the order in which they were finished, and what
was found, with the visits recorded on the way. -/
structure Outcome where
  masked : List Mask.Buffer
  result : Except Fault (Findings × Visits)

/-- Finishes the visitors after all nodes were visited: a visitor for texts hands out its buffer and
reads it. -/
def finish (subject : Subject) (visits : Visits) (findings : Findings) : List Visitor → Outcome
  | [] => ⟨[], .ok (findings, visits)⟩
  | .keys :: rest => finish subject visits findings rest
  | .texts masking :: rest =>
    match readTexts subject.source subject.text.lines masking.buffer findings.texts with
    | .error fault => ⟨[masking.buffer], .error fault⟩
    | .ok texts =>
      let outcome := finish subject visits { findings with texts } rest
      { outcome with masked := masking.buffer :: outcome.masked }

def analyse (subject : Subject) (aims : List Aim) (program : Program Span) : Outcome :=
  match Walk.over subject aims program with
  | .error fault => ⟨[], .error fault⟩
  | .ok walk => finish subject walk.visits walk.findings walk.visitors

def defaultAims : List Aim := [.texts, .keys]

def repeatBody (count : Nat) (program : Program Span) : Program Span :=
  { program with body := (List.replicate count program.body).flatten }

def analyseTemplate (template : Template) (helper : Text) (aims : List Aim) : Outcome :=
  analyse ⟨template.source, template.text, helper⟩ aims template.program

end Phrasebook.Extract
