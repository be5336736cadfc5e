import Phrasebook.Text.Slice
import Phrasebook.Proofs.Text.Lines

/-!
Excerpts of lines. `cutLines` gives the parts of the lines between two positions, before they are joined; a
range of lines that was spliced into others is cut out of them again. So the excerpt between the positions of
two offsets of a text is the slice between the offsets.
-/

namespace Phrasebook.Text

/-- The parts of a list of lines between two positions, one for each line. -/
def cutLines (lines : List Text) (start stop : Position) : List Text :=
  onFirst (dropTo · start.column) (onLast (takeTo · stop.column) (between lines (start.line - 1) stop.line))

theorem excerpt_eq (lines : List Text) (start stop : Position) :
    excerpt lines start stop = ofLines (cutLines lines start stop) := rfl

theorem onLast_concat {α : Type} (f : α → α) (xs : List α) (x : α) : onLast f (xs ++ [x]) = xs ++ [f x] := by
  simp [onLast, onFirst]

/-- The rows of a range of lines. -/
theorem between_append {α : Type} (earlier rows later : List α) :
    between (earlier ++ rows ++ later) ((earlier.length : Int) + 1 - 1) ((earlier.length : Int) + rows.length) =
      rows := by
  have stop : (earlier.length : Int) + rows.length = ((earlier.length + rows.length : Nat) : Int) := rfl
  rw [Int.add_sub_cancel, stop, between_natCast, Nat.add_sub_cancel_left, List.append_assoc, List.drop_left,
    List.take_left]

/-- Lines that stand between two texts are cut out again. -/
theorem cutLines_spliced (earlier later rest : List Text) (left last right : Text) :
    cutLines (earlier ++ spliced left (rest ++ [last]) right ++ later) ⟨earlier.length + 1, left.length⟩
        ⟨earlier.length + 1 + rest.length, (if rest = [] then left.length else 0) + last.length⟩ =
      rest ++ [last] := by
  have rows : (earlier.length : Int) + 1 + rest.length =
      earlier.length + (spliced left (rest ++ [last]) right).length := by
    rw [spliced_concat]
    cases rest with
    | nil => rfl
    | cons first rest =>
      simp only [List.length_cons, List.length_append, List.length_nil]
      omega
  rw [cutLines]
  simp only
  rw [rows, between_append, spliced_concat]
  cases rest with
  | nil =>
    have stop : (left.length : Int) + last.length = ((left ++ last).length : Int) := by simp
    simp only [if_true]
    rw [stop, ← List.nil_append [left ++ last ++ right], onLast_concat, takeTo_natCast, List.take_left]
    simp [onFirst, dropTo_natCast]
  | cons first rest =>
    simp only [reduceCtorEq, if_false, Int.cast_ofNat_Int, Int.zero_add]
    rw [← List.cons_append, onLast_concat, takeTo_natCast, List.take_left]
    simp [onFirst, dropTo_natCast]

/-- The excerpt between the positions of two offsets is the slice between the offsets. -/
theorem excerpt_span {text : Text} {start stop : Nat} (forward : start ≤ stop) (bounded : stop ≤ text.length) :
    excerpt text.lines (text.position start) (text.position stop) = text.slice start stop := by
  obtain ⟨earlier, left, rest, last, right, later, parts, cut, atStart, atStop⟩ := exists_span_lines forward bounded
  rw [atStart, atStop, parts, excerpt_eq, cutLines_spliced, ← cut, ofLines_lines]

end Phrasebook.Text
