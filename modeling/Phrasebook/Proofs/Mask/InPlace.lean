import Phrasebook.Proofs.Mask.Markers
import Phrasebook.Proofs.Session.Steps
import Phrasebook.Proofs.Text.Excerpt

/-!
# Marking in place

`mark` gives back a new buffer. The steps here write a marker over the lines of one buffer, one line after the
other, and look every line up again when they come to it. `overwrite_marks` shows that they do the same as
`mark`: what goes wrong goes wrong in front of the first write, and a range that lies in the buffer is taken by
exactly one marker, with everything else where it was.
-/

namespace Phrasebook.Mask

open Text

/-! ### Writing over the lines of a buffer -/

/-- Steps that read and write the lines of a buffer. What is written stays written when a later step fails. -/
abbrev Work := ExceptT Fault (StateM Buffer)

/-- The line with the given number. -/
def lineAt (number : Int) : Work Text := do
  let buffer ← get
  match row? buffer number with
  | .ok row => return buffer.getD row []
  | .error fault => throw fault

/-- Replaces the line with the given number. -/
def putLine (number : Int) (line : Text) : Work Unit := do
  let buffer ← get
  match row? buffer number with
  | .ok row => set (buffer.set row line)
  | .error fault => throw fault

/-- Writes a marker over a range of one line. -/
def overwriteLine (source : Option String) (start stop : Position) : Work Unit := do
  let line ← lineAt start.line
  match marker (stop.column - start.column) with
  | .error breach => throw (fault source start breach)
  | .ok text =>
    let updated := takeTo line start.column ++ text ++ dropTo line stop.column
    if updated.length = line.length then putLine start.line updated
    else throw (fault source start (.lineLength start.column stop.column line.length updated.length))

/-- The part of a line that a range covers, by the number of the line. -/
structure Stretch where
  number : Int
  start : Int
  stop : Int
deriving DecidableEq, Repr

/-- Reads off which parts of which lines a range covers. -/
def survey (start stop : Position) : Work (List Stretch) :=
  (lineNumbers start stop).mapM fun number => do
    let line ← lineAt number
    return ⟨number, if number = start.line then start.column else 0,
      if number = stop.line then stop.column else line.length⟩

/-- The number of characters that stretches take. -/
def widthOf : List Stretch → Int
  | [] => 0
  | stretch :: rest => (stretch.stop - stretch.start) + widthOf rest

/-- Writes a text over parts of lines from its character `used` on. -/
def overwriteStretches (text : Text) : Int → List Stretch → Work Unit
  | _, [] => return
  | used, stretch :: rest => do
    let line ← lineAt stretch.number
    let next := used + (stretch.stop - stretch.start)
    putLine stretch.number (takeTo line stretch.start ++ between text used next ++ dropTo line stretch.stop)
    overwriteStretches text next rest

/-- Writes a marker over a range of several lines. -/
def overwriteLines (source : Option String) (start stop : Position) : Work Unit := do
  let stretches ← survey start stop
  match marker (widthOf stretches) with
  | .error breach => throw (fault source start breach)
  | .ok text => overwriteStretches text 0 stretches

/-- Writes a marker over a range of the buffer. An empty range needs none. -/
def overwrite (source : Option String) (start stop : Position) : Work Unit :=
  if start = stop then return
  else if start.line = stop.line then overwriteLine source start stop
  else overwriteLines source start stop

/-! ### The same as marking -/

/-- How steps end that do the same as `mark`: after a fault the buffer is as it was. -/
def ending (buffer : Buffer) : Except Fault Buffer → Except Fault Unit × Buffer
  | .ok marked => (.ok (), marked)
  | .error fault => (.error fault, buffer)

theorem run_lineAt (buffer : Buffer) (number : Int) :
    (lineAt number).run.run buffer = ((row? buffer number).map (buffer.getD · []), buffer) := by
  rw [lineAt, run_get_bind]
  cases row? buffer number <;> rfl

theorem run_putLine {buffer : Buffer} {number : Int} {row : Nat} (found : row? buffer number = .ok row)
    (line : Text) : (putLine number line).run.run buffer = (.ok (), buffer.set row line) := by
  rw [putLine, run_get_bind, found]
  rfl

theorem run_overwriteLine (source : Option String) (buffer : Buffer) (start stop : Position) :
    (overwriteLine source start stop).run.run buffer = ending buffer (markLine source buffer start stop) := by
  have read := run_lineAt buffer start.line
  rw [overwriteLine, markLine]
  cases found : row? buffer start.line with
  | error fault =>
    rw [found] at read
    exact run_bind_error read _
  | ok row =>
    rw [found] at read
    rw [run_bind_ok read]
    simp only [bind, Except.bind]
    cases marker (stop.column - start.column) with
    | error breach => rfl
    | ok text =>
      simp only
      split
      · exact run_putLine found _
      · rfl

/-- Steps that only read are taken one after the other in the same buffer. -/
theorem run_mapM {α β : Type} {step : α → Work β} {find : α → Except Fault β} {buffer : Buffer}
    (reads : ∀ x, (step x).run.run buffer = (find x, buffer)) (xs : List α) :
    (xs.mapM step).run.run buffer = (xs.mapM find, buffer) := by
  induction xs with
  | nil => rfl
  | cons x rest ih =>
    have read := reads x
    rw [List.mapM_cons, List.mapM_cons]
    cases found : find x with
    | error fault =>
      rw [found] at read
      exact run_bind_error read _
    | ok y =>
      rw [found] at read
      rw [run_bind_ok read]
      cases others : rest.mapM find with
      | error fault =>
        rw [others] at ih
        exact run_bind_error ih _
      | ok ys =>
        rw [others] at ih
        exact run_bind_ok ih _

/-- A stretch and a segment are the same part of a line in buffers of the given length. -/
def Places (length : Nat) (stretch : Stretch) (segment : Segment) : Prop :=
  index? length (stretch.number - 1) = some segment.row ∧ stretch.start = segment.start ∧
    stretch.stop = segment.stop

theorem row?_ok_iff {buffer : Buffer} {number : Int} {row : Nat} :
    row? buffer number = .ok row ↔ index? buffer.length (number - 1) = some row := by
  rw [row?]
  cases index? buffer.length (number - 1) <;> simp

/-- The part of the line with the given number that a range covers. -/
def stretch? (buffer : Buffer) (start stop : Position) (number : Int) : Except Fault Stretch :=
  (row? buffer number).map fun row => ⟨number, if number = start.line then start.column else 0,
    if number = stop.line then stop.column else (buffer.getD row []).length⟩

theorem run_survey (buffer : Buffer) (start stop : Position) :
    (survey start stop).run.run buffer =
      ((lineNumbers start stop).mapM (stretch? buffer start stop), buffer) := by
  refine run_mapM (fun number => ?_) _
  have read := run_lineAt buffer number
  rw [stretch?]
  cases found : row? buffer number with
  | error fault =>
    rw [found] at read
    exact run_bind_error read _
  | ok row =>
    rw [found] at read
    exact run_bind_ok read _

/-- The stretches of a range are its segments, or fail as they do. -/
theorem stretches_segments (buffer : Buffer) (start stop : Position) :
    (∃ fault, segments buffer start stop = .error fault ∧
      (lineNumbers start stop).mapM (stretch? buffer start stop) = .error fault) ∨
    ∃ parts stretches, segments buffer start stop = .ok parts ∧
      (lineNumbers start stop).mapM (stretch? buffer start stop) = .ok stretches ∧
      List.Forall₂ (Places buffer.length) stretches parts := by
  rw [segments]
  -- Both lists are built number by number.
  generalize lineNumbers start stop = numbers
  induction numbers with
  | nil => exact .inr ⟨[], [], rfl, rfl, .nil⟩
  | cons number rest ih =>
    rw [List.mapM_cons, List.mapM_cons, stretch?]
    cases found : row? buffer number with
    | error fault => exact .inl ⟨fault, rfl, rfl⟩
    | ok row =>
      rcases ih with ⟨fault, failed, ran⟩ | ⟨parts, stretches, done, ran, places⟩
      · rw [failed, ran]
        exact .inl ⟨fault, rfl, rfl⟩
      · rw [done, ran]
        let first := if number = start.line then start.column else 0
        let behind : Int := if number = stop.line then stop.column else (buffer.getD row []).length
        exact .inr ⟨⟨row, first, behind⟩ :: parts, ⟨number, first, behind⟩ :: stretches, rfl, rfl,
          .cons ⟨row?_ok_iff.mp found, rfl, rfl⟩ places⟩

/-- A write keeps the number of lines, so every later stretch is still found where the survey saw it. -/
theorem run_overwriteStretches (text : Text) {buffer : Buffer} {stretches : List Stretch} {parts : List Segment}
    (places : List.Forall₂ (Places buffer.length) stretches parts) (used : Int) :
    (overwriteStretches text used stretches).run.run buffer = (.ok (), fill text buffer used parts) := by
  induction stretches generalizing buffer parts used with
  | nil =>
    obtain rfl := List.forall₂_nil_left_iff.mp places
    rfl
  | cons stretch rest ih =>
    obtain ⟨part, parts, here, later, rfl⟩ := List.forall₂_cons_left_iff.mp places
    obtain ⟨row, isStart, isStop⟩ := here
    have found := row?_ok_iff.mpr row
    have read := run_lineAt buffer stretch.number
    rw [found] at read
    rw [overwriteStretches, run_bind_ok read]
    simp only
    rw [run_bind_ok (run_putLine found _), fill, isStart, isStop]
    exact ih (by rwa [List.length_set]) _

theorem widthOf_places {length : Nat} {stretches : List Stretch} {parts : List Segment}
    (places : List.Forall₂ (Places length) stretches parts) :
    widthOf stretches = totalWidth parts := by
  induction places with
  | nil => rfl
  | cons here _ ih =>
    obtain ⟨-, isStart, isStop⟩ := here
    rw [widthOf, ih, totalWidth, isStart, isStop]

theorem run_overwriteLines (source : Option String) (buffer : Buffer) (start stop : Position) :
    (overwriteLines source start stop).run.run buffer = ending buffer (markLines source buffer start stop) := by
  rw [overwriteLines, markLines]
  have surveyed := run_survey buffer start stop
  rcases stretches_segments buffer start stop with ⟨fault, failed, ran⟩ | ⟨parts, stretches, done, ran, places⟩
  · rw [ran] at surveyed
    rw [failed]
    exact run_bind_error surveyed _
  · rw [ran] at surveyed
    rw [run_bind_ok surveyed, done, widthOf_places places]
    simp only [bind, Except.bind]
    cases marker (totalWidth parts) with
    | error breach => rfl
    | ok text => exact run_overwriteStretches text places 0

/-- Writing in place comes to what `mark` gives. -/
theorem run_overwrite (source : Option String) (buffer : Buffer) (start stop : Position) :
    (overwrite source start stop).run.run buffer = ending buffer (mark source buffer start stop) := by
  rw [overwrite, mark]
  split
  · rfl
  · split
    · exact run_overwriteLine source buffer start stop
    · exact run_overwriteLines source buffer start stop

/-! ### Ranges in a buffer -/

/-- A position on a line of the buffer, not behind the end of the line. -/
def Inside (buffer : Buffer) (place : Position) : Prop :=
  ∃ row : Nat, ∃ line, buffer[row]? = some line ∧ place.line = row + 1 ∧ 0 ≤ place.column ∧
    place.column ≤ line.length

/-- The character of a buffer with the given row and column, both counted from 0. -/
def charAt? (buffer : Buffer) (row column : Nat) : Option Char := buffer[row]?.bind (·[column]?)

theorem eq_take_cons_drop {α : Type} {xs : List α} {index : Nat} {x : α} (here : xs[index]? = some x) :
    xs = xs.take index ++ x :: xs.drop (index + 1) := by
  obtain ⟨inside, rfl⟩ := List.getElem?_eq_some_iff.mp here
  rw [← List.drop_eq_getElem_cons inside, List.take_append_drop]

/-- The lines between two positions of a buffer, with what stands around them. -/
theorem exists_spliced {buffer : Buffer} {start stop : Position} (forward : start < stop)
    (startInside : Inside buffer start) (stopInside : Inside buffer stop) :
    ∃ earlier left rest last right later, buffer = earlier ++ spliced left (rest ++ [last]) right ++ later ∧
      start = ⟨earlier.length + 1, left.length⟩ ∧
      stop = ⟨earlier.length + 1 + rest.length, (if rest = [] then left.length else 0) + last.length⟩ := by
  obtain ⟨row, line, here, isRow, startLow, startHigh⟩ := startInside
  obtain ⟨stopRow, stopLine, stopHere, isStopRow, stopLow, stopHigh⟩ := stopInside
  obtain ⟨startLine, startColumn⟩ := start
  obtain ⟨stopLine', stopColumn⟩ := stop
  obtain ⟨first, rfl⟩ := Int.eq_ofNat_of_zero_le startLow
  obtain ⟨behind, rfl⟩ := Int.eq_ofNat_of_zero_le stopLow
  simp only at isRow isStopRow startHigh stopHigh
  subst isRow isStopRow
  rw [Position.lt_iff] at forward
  simp only at forward
  have bounded := (List.getElem?_eq_some_iff.mp here).1
  have stopBounded := (List.getElem?_eq_some_iff.mp stopHere).1
  rcases forward with earlier | ⟨same, ascending⟩
  · -- The range ends on a later line than it starts on.
    obtain ⟨between, rfl⟩ : ∃ between, stopRow = row + 1 + between := ⟨stopRow - (row + 1), by omega⟩
    have behindFirst : (buffer.drop (row + 1))[between]? = some stopLine := by rw [List.getElem?_drop, stopHere]
    refine ⟨buffer.take row, line.take first, line.drop first :: (buffer.drop (row + 1)).take between,
      stopLine.take behind, stopLine.drop behind, (buffer.drop (row + 1)).drop (between + 1), ?_, ?_, ?_⟩
    · have whole := eq_take_cons_drop here
      rw [eq_take_cons_drop behindFirst] at whole
      rw [spliced_concat]
      simpa using whole
    · simp only [List.length_take, Position.mk.injEq]
      omega
    · simp only [List.length_cons, List.length_take, List.length_drop, reduceCtorEq, if_false, Position.mk.injEq]
      omega
  · -- The range lies on one line.
    obtain rfl : row = stopRow := by omega
    obtain rfl : line = stopLine := Option.some.inj (here.symm.trans stopHere)
    have parts := take_slice_drop line (by omega : first ≤ behind)
    refine ⟨buffer.take row, line.take first, [], line.slice first behind, line.drop behind,
      buffer.drop (row + 1), ?_, ?_, ?_⟩
    · simpa [spliced, parts] using eq_take_cons_drop here
    · simp only [List.length_take, Position.mk.injEq]
      omega
    · rw [length_slice line (by omega : behind ≤ line.length)]
      simp only [List.length_nil, List.length_take, if_true, Position.mk.injEq]
      omega

/-! ### Lines of the same lengths in the same place -/

theorem map_length_spliced {lines other : List Text} (same : other.map List.length = lines.map List.length)
    (left right : Text) :
    (spliced left other right).map List.length = (spliced left lines right).map List.length := by
  induction lines generalizing left other with
  | nil =>
    obtain rfl : other = [] := by simpa using same
    rfl
  | cons line rest ih =>
    obtain ⟨line', rest', rfl⟩ := List.exists_cons_of_length_pos (l := other)
      (by rw [← List.length_map (f := List.length), same]; simp)
    obtain ⟨here, later⟩ := List.cons.inj same
    rcases rest with _ | ⟨next, rest⟩
    · obtain rfl : rest' = [] := by simpa using later
      simp [spliced, here]
    · obtain ⟨next', more, rfl⟩ := List.exists_cons_of_length_pos (l := rest')
        (by rw [← List.length_map (f := List.length), later]; simp)
      rw [spliced, spliced, List.map_cons, List.map_cons, ih later, List.length_append, List.length_append, here]

/-- What stands in front of a part of a list and behind it does not depend on the part. -/
theorem getElem?_around {α : Type} (front back : List α) {middle other : List α} (same : other.length = middle.length)
    {index : Nat} (outside : index < front.length ∨ front.length + middle.length ≤ index) :
    (front ++ other ++ back)[index]? = (front ++ middle ++ back)[index]? := by
  rcases outside with before | behind
  · simp only [List.append_assoc, List.getElem?_append_left before]
  · have long : (front ++ other).length = (front ++ middle).length := by simp [same]
    rw [List.getElem?_append_right (by rw [long, List.length_append]; exact behind),
      List.getElem?_append_right (by rw [List.length_append]; exact behind), long]

/-- Characters outside of a range of lines do not depend on the lines, only on their lengths. -/
theorem charAt?_around (earlier later rest : List Text) (left last right : Text) {other : List Text}
    (same : other.map List.length = (rest ++ [last]).map List.length) {row column : Nat}
    (outside : (⟨row + 1, column⟩ : Position) < ⟨earlier.length + 1, left.length⟩ ∨
      (⟨earlier.length + 1 + rest.length, (if rest = [] then left.length else 0) + last.length⟩ : Position) ≤
        ⟨row + 1, column⟩) :
    charAt? (earlier ++ spliced left other right ++ later) row column =
      charAt? (earlier ++ spliced left (rest ++ [last]) right ++ later) row column := by
  have count : other.length = (rest ++ [last]).length := by
    rw [← List.length_map (f := List.length), same, List.length_map]
  have filled : other ≠ [] := by
    rintro rfl
    simp at count
  rw [charAt?, charAt?]
  by_cases inRows : earlier.length ≤ row ∧ row < earlier.length + (rest ++ [last]).length
  · obtain ⟨index, rfl⟩ : ∃ index, row = earlier.length + index := ⟨row - earlier.length, by omega⟩
    have inLines : index < (rest ++ [last]).length := by omega
    have inOther : index < other.length := by omega
    have long : other[index].length = (rest ++ [last])[index].length := by
      have here : (other.map List.length)[index]? = ((rest ++ [last]).map List.length)[index]? := by rw [same]
      rw [List.getElem?_map, List.getElem?_map, List.getElem?_eq_getElem inOther,
        List.getElem?_eq_getElem inLines] at here
      exact Option.some.inj here
    rw [getElem?_middle _ _ _ _ inOther, getElem?_middle _ _ _ _ inLines, List.getElem?_eq_getElem inOther,
      List.getElem?_eq_getElem inLines, count]
    simp only [Option.map_some, Option.bind_some]
    refine getElem?_around _ _ long ?_
    rw [List.length_append, List.length_singleton] at inLines
    rw [Position.le_iff, Position.lt_iff, Position.lt_iff, Position.mk.injEq] at outside
    simp only at outside
    by_cases final : index = rest.length
    · subst final
      have isLast : (rest ++ [last])[rest.length] = last := by simp
      rw [isLast]
      cases rest with
      | nil =>
        simp only [List.length_nil, if_true] at outside ⊢
        omega
      | cons first more =>
        simp only [List.length_cons, reduceCtorEq, if_false, List.length_nil, Nat.succ_ne_zero] at outside ⊢
        omega
    · -- The range goes on behind this line, so the position is in front of it.
      obtain rfl : index = 0 := by omega
      simp only [if_true]
      omega
  · have rows : (spliced left other right).length = (spliced left (rest ++ [last]) right).length := by
      rw [length_spliced _ _ filled, length_spliced _ _ (by simp), count]
    rw [getElem?_around earlier later rows]
    rw [length_spliced _ _ (by simp)]
    omega

/-- Other lines of the same lengths are cut out where the lines were. -/
theorem cutLines_around (earlier later rest : List Text) (left last right : Text) {other : List Text}
    (same : other.map List.length = (rest ++ [last]).map List.length) :
    cutLines (earlier ++ spliced left other right ++ later) ⟨earlier.length + 1, left.length⟩
        ⟨earlier.length + 1 + rest.length, (if rest = [] then left.length else 0) + last.length⟩ = other := by
  rcases List.eq_nil_or_concat' other with rfl | ⟨rest', last', rfl⟩
  · simp at same
  · rw [List.map_append, List.map_append] at same
    obtain ⟨sameRest, sameLast⟩ := List.append_inj' same rfl
    have count : rest'.length = rest.length := by
      rw [← List.length_map (f := List.length), sameRest, List.length_map]
    have bothEmpty : rest' = [] ↔ rest = [] := by rw [← List.length_eq_zero_iff, count, List.length_eq_zero_iff]
    have final : last'.length = last.length := by simpa using sameLast
    have cut := cutLines_spliced earlier later rest' left last' right
    simpa only [count, bothEmpty, final] using cut

/-! ### One marker -/

theorem filter_ofLines (lines : List Text) :
    (ofLines lines).filter (· ≠ '\n') = lines.flatten.filter (· ≠ '\n') := by
  induction lines with
  | nil => rfl
  | cons line rest ih =>
    cases rest with
    | nil => simp [ofLines_singleton]
    | cons next more =>
      rw [ofLines_cons_cons, List.flatten_cons, List.filter_append, List.filter_append, ← ih]
      simp

/-- A text that holds the characters of one marker, with newlines anywhere among them. -/
theorem exists_marker {text : Text} {count : Nat} (inked : text.filter (· ≠ '\n') = ink count) :
    ∃ front marker back, text = front ++ marker ++ back ∧ IsMarker marker ∧ (∀ c ∈ front, c = '\n') ∧
      ∀ c ∈ back, c = '\n' := by
  obtain ⟨front, rest, rfl, blankFront, -, inkedRest⟩ := List.filter_eq_cons_iff.mp inked
  obtain ⟨fills, tail, rfl, inkedFills, inkedTail⟩ := List.filter_eq_append_iff.mp inkedRest
  obtain ⟨more, back, rfl, blankMore, -, blankBack⟩ := List.filter_eq_cons_iff.mp inkedTail
  refine ⟨front, startChar :: (fills ++ more ++ [endChar]), back, by simp, ⟨fills ++ more, ?_, rfl⟩, ?_, ?_⟩
  · intro c member
    rcases List.mem_append.mp member with here | here
    · by_cases newline : c = '\n'
      · exact .inr newline
      · have kept : c ∈ fills.filter (· ≠ '\n') := List.mem_filter.mpr ⟨here, by simpa using newline⟩
        rw [inkedFills] at kept
        exact .inl (List.eq_of_mem_replicate kept)
    · exact .inr (by simpa using blankMore c here)
  · exact fun c member => by simpa using blankFront c member
  · exact fun c member => by simpa using List.filter_eq_nil_iff.mp blankBack c member

/-- Such a text has one marker, around all its characters but the newlines at its ends. -/
theorem markers_inked {text : Text} {count : Nat} (inked : text.filter (· ≠ '\n') = ink count) :
    ∃ extent, markers text = [extent] ∧
      ∀ offset c, text[offset]? = some c → c ≠ '\n' → extent.start ≤ offset ∧ offset < extent.stop := by
  obtain ⟨front, marker, back, rfl, isMarker, blankFront, blankBack⟩ := exists_marker inked
  have plain {part : Text} (blank : ∀ c ∈ part, c = '\n') : ∀ c ∈ part, isReserved c = false := by
    intro c member
    rw [blank c member]
    decide
  refine ⟨⟨front.length, front.length + marker.length⟩, ?_, ?_⟩
  · have ended := markers_go_plain (plain blankBack) [] (front.length + marker.length)
    rw [List.append_nil] at ended
    rw [markers, List.append_assoc, markers_go_plain (plain blankFront), Nat.zero_add, markers_go_marker isMarker,
      ended]
    rfl
  · intro offset c here notNewline
    constructor
    · show front.length ≤ offset
      by_contra before
      rw [List.append_assoc, List.getElem?_append_left (by omega)] at here
      exact notNewline (blankFront c (List.mem_of_getElem? here))
    · show offset < front.length + marker.length
      by_contra behind
      rw [List.getElem?_append_right (by rw [List.length_append]; omega)] at here
      exact notNewline (blankBack c (List.mem_of_getElem? here))

/-! ### Writing a marker over a range -/

/-- Writing a marker over a range does what `mark` does; when it fails, the buffer is as it was. A range between
two positions of the buffer with two characters or more besides newlines does not fail: every line keeps its
length, no character outside of the range changes, and the characters inside are those of the marker of their
number, which is the only marker of the range and holds all of them but the newlines. -/
theorem overwrite_marks (source : Option String) (buffer : Buffer) (start stop : Position) :
    (overwrite source start stop).run.run buffer = ending buffer (mark source buffer start stop) ∧
    (∀ fault after, (overwrite source start stop).run.run buffer = (.error fault, after) → after = buffer) ∧
    (start < stop → Inside buffer start → Inside buffer stop → 2 ≤ width (excerpt buffer start stop) →
      ∃ marked, (overwrite source start stop).run.run buffer = (.ok (), marked) ∧
        marked.map List.length = buffer.map List.length ∧
        (∀ row column : Nat, (⟨row + 1, column⟩ : Position) < start ∨ stop ≤ ⟨row + 1, column⟩ →
          charAt? marked row column = charAt? buffer row column) ∧
        marker (cutLines buffer start stop).flatten.length = .ok (cutLines marked start stop).flatten ∧
        ∃ extent, markers (excerpt marked start stop) = [extent] ∧
          ∀ offset c, (excerpt marked start stop)[offset]? = some c → c ≠ '\n' →
            extent.start ≤ offset ∧ offset < extent.stop) := by
  refine ⟨run_overwrite source buffer start stop, ?_, ?_⟩
  · intro fault after ran
    rw [run_overwrite] at ran
    cases result : mark source buffer start stop with
    | ok marked =>
      rw [result] at ran
      exact nomatch (Prod.mk.inj ran).1
    | error fault =>
      rw [result] at ran
      exact (Prod.mk.inj ran).2.symm
  · intro forward startInside stopInside wide
    obtain ⟨earlier, left, rest, last, right, later, rfl, rfl, rfl⟩ :=
      exists_spliced forward startInside stopInside
    rw [run_overwrite]
    have cut := cutLines_spliced earlier later rest left last right
    rw [excerpt_eq, cut, width, List.countP_eq_length_filter, filter_ofLines] at wide
    rw [cut]
    have enough : 2 ≤ (rest ++ [last]).flatten.length := Nat.le_trans wide (List.length_filter_le _ _)
    generalize isCount : (rest ++ [last]).flatten.length = count at enough ⊢
    have long := length_ink enough
    have same : (inkLines (ink count) (rest ++ [last])).map List.length = (rest ++ [last]).map List.length :=
      map_length_inkLines (by omega)
    have whole : (inkLines (ink count) (rest ++ [last])).flatten = ink count := by
      rw [flatten_inkLines, isCount, List.take_of_length_le (by omega)]
    have marked := mark_spliced source earlier later rest left last right (by omega)
    rw [isCount] at marked
    refine ⟨_, by rw [marked]; rfl, ?_, ?_, ?_, ?_⟩
    · rw [List.map_append, List.map_append, map_length_spliced same, ← List.map_append, ← List.map_append]
    · exact fun row column outside => charAt?_around earlier later rest left last right same outside
    · rw [cutLines_around earlier later rest left last right same, whole]
      exact marker_natCast enough
    · rw [excerpt_eq, cutLines_around earlier later rest left last right same]
      refine @markers_inked _ count ?_
      rw [filter_ofLines, whole, List.filter_eq_self]
      intro c member
      have notNewline : c ≠ '\n' := by
        rintro rfl
        exact newline_not_mem_ink count member
      simpa using notNewline

/-- Over the end of one line, an empty line and the start of another; a range up to a line that is not there. -/
theorem overwrite_marks_empty_line :
    let buffer : Buffer := ["ab\x7b\x7bc".toList, [], "d\x7d\x7de".toList]
    (⟨1, 2⟩ : Position) < ⟨3, 3⟩ ∧ Inside buffer ⟨1, 2⟩ ∧ Inside buffer ⟨3, 3⟩ ∧
      2 ≤ width (excerpt buffer ⟨1, 2⟩ ⟨3, 3⟩) ∧
      (∃ marked, (overwrite none ⟨1, 2⟩ ⟨3, 3⟩).run.run buffer = (.ok (), marked) ∧
        marked.map List.length = [5, 0, 4] ∧ charAt? marked 0 1 = some 'b' ∧ charAt? marked 2 3 = some 'e' ∧
        (cutLines marked ⟨1, 2⟩ ⟨3, 3⟩).flatten = ink 6) ∧
      ∃ after, (overwrite none ⟨1, 0⟩ ⟨4, 1⟩).run.run buffer = (.error .noSuchLine, after) ∧ after = buffer := by
  intro buffer
  have startInside : Inside buffer ⟨1, 2⟩ := ⟨0, _, rfl, rfl, by decide, by decide⟩
  have stopInside : Inside buffer ⟨3, 3⟩ := ⟨2, _, rfl, rfl, by decide, by decide⟩
  have wide : 2 ≤ width (excerpt buffer ⟨1, 2⟩ ⟨3, 3⟩) := by decide
  obtain ⟨-, -, succeeds⟩ := overwrite_marks none buffer ⟨1, 2⟩ ⟨3, 3⟩
  obtain ⟨marked, ran, lengths, outside, inside, -⟩ := succeeds (by decide) startInside stopInside wide
  obtain ⟨fails, restored, -⟩ := overwrite_marks none buffer ⟨1, 0⟩ ⟨4, 1⟩
  refine ⟨by decide, startInside, stopInside, wide, ⟨marked, ran, lengths, ?_, ?_, ?_⟩, buffer, ?_, ?_⟩
  · exact outside 0 1 (by decide)
  · exact outside 2 3 (by decide)
  · exact (Except.ok.inj inside).symm
  · exact fails
  · exact restored .noSuchLine buffer fails

end Phrasebook.Mask
