import Phrasebook.Files.Path

/-!
Globs, the patterns that leave files out of a theme. A star stands for any characters, slashes
included, a question mark for one character, and a set in brackets for one character of the set. A
glob must fit a path from its start to its end. `fit` says what that means, `fits` finds it out, and
`fits_eq_fit` shows that they agree.
-/

namespace Phrasebook.Glob

structure CharRange where
  first : Char
  last : Char
deriving DecidableEq, Repr

inductive Element where
  /-- Any number of characters. -/
  | star
  | any
  | literal (c : Char)
  /-- A character in one of the ranges, or in none of them. -/
  | set (negated : Bool) (ranges : List CharRange)
  /-- Fits nothing. -/
  | never
deriving DecidableEq, Repr

/-! ### Sets -/

/-- The inside of a set and its length, for the text behind an opening bracket. A closing bracket at
the very beginning belongs to the set. -/
def setBody? (text : Text) : Option Text :=
  let lead := match text with
    | '!' :: ']' :: _ => 2
    | '!' :: _ => 1
    | ']' :: _ => 1
    | _ => 0
  let body := text.take lead ++ (text.drop lead).takeWhile (· ≠ ']')
  if body.length < text.length then some body else none

/-- Cuts the inside of a set at the hyphens of its ranges. A hyphen is one only behind `need`
further characters. -/
def chunks (need : Nat) (chunk : Text) : Text → List Text
  | [] => [chunk]
  | c :: rest =>
    if need = 0 ∧ c = '-' then chunk :: chunks 2 [] rest
    else chunks (need - 1) (chunk ++ [c]) rest

/-- A hyphen at the end stands for itself. -/
def joinLast : List Text → List Text
  | [] => []
  | [chunk] => [chunk]
  | [chunk, []] => [chunk ++ ['-']]
  | chunk :: rest => chunk :: joinLast rest

/-- Takes out the ranges whose first character lies behind the last one. -/
def dropEmpty : List Text → List Text
  | [] => []
  | chunk :: rest =>
    match dropEmpty rest with
    | [] => [chunk]
    | next :: others =>
      match chunk.getLast?, next.head? with
      | some first, some last =>
        if last < first then (chunk.dropLast ++ next.drop 1) :: others else chunk :: next :: others
      | _, _ => chunk :: next :: others

/-- A character of a set, or the hyphen of a range. -/
abbrev Mark := Option Char

def marks (chunks : List Text) : List Mark :=
  List.intercalate [none] (chunks.map fun chunk => chunk.map some)

/-- The ranges of a set. A hyphen without a character in front of it stands for itself. -/
def ranges : List Mark → List CharRange
  | some first :: none :: some last :: rest => ⟨first, last⟩ :: ranges rest
  | some c :: rest => ⟨c, c⟩ :: ranges rest
  | none :: rest => ⟨'-', '-'⟩ :: ranges rest
  | [] => []

def setOf (body : Text) : Element :=
  let need := match body with
    | '!' :: _ => 2
    | _ => 1
  match marks (dropEmpty (joinLast (chunks need [] body))) with
  | [] => .never
  | [some '!'] => .any
  | some '!' :: rest => .set true (ranges rest)
  | all => .set false (ranges all)

/-! ### Globs -/

/-- The elements of a glob. `skip` counts the characters of a set that are still to be passed. -/
def elements (skip : Nat) : Text → List Element
  | [] => []
  | c :: rest =>
    match skip, c with
    | skip + 1, _ => elements skip rest
    | 0, '*' => .star :: elements 0 rest
    | 0, '?' => .any :: elements 0 rest
    | 0, '[' =>
      match setBody? rest with
      | some body => setOf body :: elements (body.length + 1) rest
      | none => .literal '[' :: elements 0 rest
    | 0, c => .literal c :: elements 0 rest

def parse (glob : Text) : List Element :=
  (elements 0 glob).foldr (fun element rest =>
    if element = .star ∧ rest.head? = some .star then rest else element :: rest) []

def Element.fits (c : Char) : Element → Bool
  | .star | .never => false
  | .any => true
  | .literal d => c = d
  | .set negated ranges => (ranges.any fun range => range.first ≤ c && c ≤ range.last) != negated

/-- The ends of a text, the longest first: the text itself, and what is left of it without its first
character, without its first two, and so on. -/
def ends : Text → List Text
  | [] => [[]]
  | c :: rest => (c :: rest) :: ends rest

def fit : List Element → Text → Bool
  | [], text => text.isEmpty
  | .star :: rest, text => (ends text).any (fit rest)
  | element :: rest, c :: text => element.fits c && fit rest text
  | _ :: _, [] => false

/-! ### All ends at once

A glob with many stars can be tried in very many ways. `fitEnds` tries it on all ends of a text at
the same time, one element after the other, so that no end is looked at twice for an element. -/

def anyOnwards : List Bool → List Bool
  | [] => []
  | answer :: rest =>
    let onwards := anyOnwards rest
    (answer || onwards.headD false) :: onwards

/-- The answers for an element and what follows it, from the answers for what follows it. -/
def answersBefore (element : Element) : Text → List Bool → List Bool
  | c :: text, _ :: answers =>
    (element.fits c && answers.headD false) :: answersBefore element text answers
  | _, _ => [false]

/-- For every end of a text, the longest first, whether elements fit it. -/
def fitEnds : List Element → Text → List Bool
  | [], text => (ends text).map List.isEmpty
  | .star :: rest, text => anyOnwards (fitEnds rest text)
  | element :: rest, text => answersBefore element text (fitEnds rest text)

@[simp]
theorem head?_ends (text : Text) : (ends text).head? = some text := by
  cases text <;> rfl

theorem anyOnwards_map_ends (test : Text → Bool) (text : Text) :
    anyOnwards ((ends text).map test) = (ends text).map fun text => (ends text).any test := by
  induction text with
  | nil => simp [ends, anyOnwards]
  | cons c rest ih => simp [ends, anyOnwards, ih]

theorem answersBefore_map_ends {element : Element} (h : element ≠ .star) (rest : List Element)
    (text : Text) :
    answersBefore element text ((ends text).map (fit rest)) =
      (ends text).map (fit (element :: rest)) := by
  induction text with
  | nil => cases element <;> simp_all [ends, answersBefore, fit]
  | cons c text ih => simp [ends, answersBefore, fit, ih]

/-- The answers for all ends are those for every end alone. -/
theorem fitEnds_eq_map (elements : List Element) (text : Text) :
    fitEnds elements text = (ends text).map (fit elements) := by
  induction elements with
  | nil => simp [fitEnds, fit]
  | cons element rest ih =>
    by_cases h : element = .star
    · subst h
      simp only [fitEnds, ih, anyOnwards_map_ends, fit]
    · rw [← answersBefore_map_ends h, ← ih]
      cases element <;> simp_all [fitEnds]

def fits (glob text : Text) : Bool := (fitEnds (parse glob) text).headD false

theorem fits_eq_fit (glob text : Text) : fits glob text = fit (parse glob) text := by
  simp [fits, fitEnds_eq_map]

def excludes (globs : List Text) (path : Text) : Bool :=
  globs.any fun glob => fits glob path || fits glob ('/' :: path)

def directoryName? (glob : Text) : Option Text :=
  let lead := "**/".toList
  let trail := "/**".toList
  if lead.isPrefixOf glob ∧ trail.isSuffixOf glob then
    let name := Text.trim '/' ((glob.drop 3).take (glob.length - 6))
    if name = [] ∨ name.any fun c => "*?[]\x7b\x7d".toList.contains c then none else some name
  else none

end Phrasebook.Glob
