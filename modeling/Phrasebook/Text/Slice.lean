import Phrasebook.Text.Position

/-!
Cutting lists at integers. A cut point below zero counts from the end, and cut points outside of
the list move to its nearest end. An excerpt of a list of lines is cut at its first and its last line.
-/

namespace Phrasebook.Text

variable {α : Type}

/-- The place at which a list of the given length is cut. -/
def cutPoint (length : Nat) (point : Int) : Nat :=
  if point < 0 then (length + point).toNat else min point.toNat length

def takeTo (xs : List α) (stop : Int) : List α := xs.take (cutPoint xs.length stop)

def dropTo (xs : List α) (start : Int) : List α := xs.drop (cutPoint xs.length start)

def between (xs : List α) (start stop : Int) : List α :=
  (xs.take (cutPoint xs.length stop)).drop (cutPoint xs.length start)

/-- The index of an element, counted from the end if it is below zero. -/
def index? (length : Nat) (i : Int) : Option Nat :=
  if i < 0 then if 0 ≤ length + i then some (length + i).toNat else none
  else if i < length then some i.toNat else none

/-! ### Excerpts -/

def onFirst {α : Type} (f : α → α) : List α → List α
  | [] => []
  | x :: rest => f x :: rest

def onLast {α : Type} (f : α → α) (xs : List α) : List α := (onFirst f xs.reverse).reverse

/-- The text between two positions of a list of lines. The last line is cut first, so that the
column of the start stays right on a single line. -/
def excerpt (lines : List Text) (start stop : Position) : Text :=
  let selected := between lines (start.line - 1) stop.line
  ofLines (onFirst (dropTo · start.column) (onLast (takeTo · stop.column) selected))

end Phrasebook.Text
