import Phrasebook.Json.Value

/-!
Signals: what happens during a run, for whoever keeps a record of it. The details of an event are
sanitised before they are recorded, so that no text of a template gets into a record.
-/

namespace Phrasebook.Record

inductive Detail where
  | json (value : Json)
  /-- A collection of single values without order, in which the same value counts once. -/
  | set (items : List Json)
  /-- A value of which only the kind is known. -/
  | other (kind : String)

def count (n : Nat) : Json := .int n

abbrev Details := List (Text × Detail)

/-- Something that happened, to the file at a path if there is one. -/
structure Event where
  name : String
  path : Option String := none
  ok : Bool := true
  details : Option Details := none

inductive Signal where
  /-- A template whose tags are masked. -/
  | masked (source : String) (lines : List Text)
  | event (event : Event)

/-! ### Collections -/

/-- The size of a number with its sign, as a fraction. Truth values are the numbers one and zero. -/
def fraction? : Json → Option (Int × Nat)
  | .bool value => some (if value then 1 else 0, 1)
  | .int value => some (value, 1)
  | .float (.finite negative significand exponent) =>
    let (size, parts) := Binary64.fraction significand exponent
    some (if negative then -(size : Int) else size, parts)
  | _ => none

/-- Whether two single values are the same: texts by their characters, numbers by their size. -/
def isSame (a b : Json) : Bool :=
  match fraction? a, fraction? b with
  | some (n, d), some (m, e) => n * e == m * d
  | none, none =>
    match a, b with
    | .null, .null => true
    | .string s, .string t => s == t
    | .float x, .float y => x == y
    | _, _ => false
  | _, _ => false

def distinct (items : List Json) : List Json :=
  items.foldl (fun kept item => if kept.any (isSame item) then kept else kept ++ [item]) []

/-! ### Sanitising -/

/-- Named values in ascending order of their names: character by character, a shorter name before
its continuations. -/
def sortedByName {β : Type} (members : List (Text × β)) : List (Text × β) :=
  members.mergeSort fun a b => decide (String.ofList a.1 ≤ String.ofList b.1)

def verbatimNames : List String := ["path", "locale", "command", "reason", "kind", "base_locale"]

/-- What is recorded for a detail: single values as they are, and only the size, the names or the
kind of everything else. -/
def sanitiseOne (name : Text) : Detail → Text × Json
  | .json (.string text) =>
    if verbatimNames.contains (String.ofList name) then (name, .string text)
    else (name ++ "_length".toList, .int text.length)
  | .json (.array items) => (name ++ "_count".toList, .int items.length)
  | .json (.object members) =>
    (name ++ "_keys".toList, .array ((CodePoints.sorted (Members.names members)).map .string))
  | .json value => (name, value)
  | .set items => (name ++ "_count".toList, .int (distinct items).length)
  | .other kind => (name ++ "_type".toList, .text kind)

/-- What is recorded for details, in ascending order of their names. Where two details are recorded
under one name the later one counts. -/
def sanitise (details : Details) : List (Text × Json) :=
  (sortedByName details).foldl (fun recorded (name, detail) =>
    let (name, value) := sanitiseOne name detail
    Members.put recorded name value) []

end Phrasebook.Record
