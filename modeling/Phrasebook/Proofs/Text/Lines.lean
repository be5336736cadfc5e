import Phrasebook.Text.Slice
import Phrasebook.Text.Position
import Mathlib.Data.List.DropRight

/-!
Lines, slices and positions of a text. A text that is cut in two has the lines of both parts, the
last line of the first joined with the first line of the second; `position_length_append` reads the
position of the cut off the first part. Positions grow strictly with offsets.
-/

namespace Phrasebook

namespace Position

theorem lt_iff {p q : Position} :
    p < q ↔ p.line < q.line ∨ p.line = q.line ∧ p.column < q.column := Iff.rfl

theorem le_iff {p q : Position} : p ≤ q ↔ p < q ∨ p = q := Iff.rfl

theorem lt_trans {p q r : Position} (pq : p < q) (qr : q < r) : p < r := by
  rw [lt_iff] at pq qr ⊢
  omega

theorem lt_irrefl (p : Position) : ¬p < p := by
  rw [lt_iff]
  omega

theorem lt_of_lt_of_not_lt {p q r : Position} (pq : p < q) (rq : ¬r < q) : p < r := by
  rw [lt_iff] at pq rq ⊢
  omega

theorem lt_of_le_of_lt {p q r : Position} (pq : p ≤ q) (qr : q < r) : p < r := by
  rcases pq with less | rfl
  · exact lt_trans less qr
  · exact qr

theorem not_lt_trans {p q r : Position} (qp : ¬q < p) (rq : ¬r < q) : ¬r < p := by
  rw [lt_iff] at qp rq ⊢
  omega

theorem not_lt_later {p q r : Position} (rp : ¬r < p) (rq : ¬r < q) : ¬r < p.later q := by
  unfold later
  split
  · exact rq
  · exact rp

theorem lt_later_right {p q r : Position} (rq : r < q) : r < p.later q := by
  unfold later
  split
  · exact rq
  · next notLess => exact lt_of_lt_of_not_lt rq notLess

theorem not_later_lt {p q : Position} : ¬p.later q < p := by
  unfold later
  split
  · next less => exact fun back => lt_irrefl _ (lt_trans less back)
  · exact lt_irrefl _

theorem lt_earlier {p q r : Position} (rp : r < p) (rq : r < q) : r < p.earlier q := by
  unfold earlier
  split
  · exact rq
  · exact rp

end Position

namespace Text

/-! ### Slices -/

theorem length_slice (text : Text) {start stop : Nat} (bounded : stop ≤ text.length) :
    (text.slice start stop).length = stop - start := by
  simp only [slice, List.length_take, List.length_drop]
  omega

theorem slice_append_slice (text : Text) {start middle stop : Nat} (first : start ≤ middle)
    (second : middle ≤ stop) :
    text.slice start middle ++ text.slice middle stop = text.slice start stop := by
  have parts : stop - start = (middle - start) + (stop - middle) := by omega
  have shift : text.drop middle = (text.drop start).drop (middle - start) := by
    rw [List.drop_drop]
    congr 1
    omega
  rw [slice, slice, slice, shift, parts, List.take_add]

theorem slice_self (text : Text) (place : Nat) : text.slice place place = [] := by
  simp [slice]

theorem slice_zero_length (text : Text) : text.slice 0 text.length = text := by
  simp [slice]

theorem take_append_slice (text : Text) {start stop : Nat} (forward : start ≤ stop) :
    text.take start ++ text.slice start stop = text.take stop := by
  have parts : stop = start + (stop - start) := by omega
  rw [slice, parts, List.take_add]
  simp

theorem take_slice_drop (text : Text) {start stop : Nat} (forward : start ≤ stop) :
    text.take start ++ text.slice start stop ++ text.drop stop = text := by
  rw [take_append_slice text forward, List.take_append_drop]

theorem slice_append_of_length {before middle after : Text} {start stop : Nat}
    (atStart : before.length = start) (atStop : start + middle.length = stop) :
    (before ++ middle ++ after).slice start stop = middle := by
  subst atStart atStop
  simp [slice]

theorem slice_append_right (before rest : Text) (start stop : Nat) :
    (before ++ rest).slice (before.length + start) (before.length + stop) = rest.slice start stop := by
  rw [slice, slice, List.drop_length_add_append, Nat.add_sub_add_left]

theorem slice_append_left {text : Text} {start stop : Nat} (forward : start ≤ stop)
    (bounded : stop ≤ text.length) (after : Text) :
    (text ++ after).slice start stop = text.slice start stop := by
  have inside : stop - start ≤ (text.drop start).length := by
    rw [List.length_drop]
    omega
  rw [slice, slice, List.drop_append_of_le_length (Nat.le_trans forward bounded),
    List.take_append_of_le_length inside]

theorem slice_slice (text : Text) {start stop first second : Nat} (inside : start + second ≤ stop) :
    (text.slice start stop).slice first second = text.slice (start + first) (start + second) := by
  have count : min (second - first) (stop - start - first) = second - first := by omega
  have shift : start + second - (start + first) = second - first := by omega
  rw [slice, slice, slice, List.drop_take, List.take_take, List.drop_drop, count, shift]

theorem getElem?_slice {text : Text} {start stop index : Nat} (inside : index < stop - start) :
    (text.slice start stop)[index]? = text[start + index]? := by
  simp [slice, inside]

/-! ### Blanks around a text -/

theorem blanks_append_stripLeft (text : Text) : text.takeWhile isBlank ++ stripLeft text = text :=
  List.takeWhile_append_dropWhile

theorem stripRight_append_blanks (text : Text) :
    stripRight text ++ (text.reverse.takeWhile isBlank).reverse = text := by
  rw [stripRight, ← List.reverse_append, List.takeWhile_append_dropWhile, List.reverse_reverse]

theorem mem_takeWhile_isBlank {text : Text} {c : Char} (member : c ∈ text.takeWhile isBlank) :
    isBlank c = true :=
  List.all_eq_true.mp List.all_takeWhile c member

/-- A text is its stripped form between blanks. -/
theorem strip_parts (text : Text) :
    ∃ lead trail, text = lead ++ strip text ++ trail ∧ (∀ c ∈ lead, isBlank c = true) ∧
      (∀ c ∈ trail, isBlank c = true) ∧ text.length - (stripLeft text).length = lead.length := by
  have left := blanks_append_stripLeft text
  have right := stripRight_append_blanks (stripLeft text)
  refine ⟨text.takeWhile isBlank, ((stripLeft text).reverse.takeWhile isBlank).reverse, ?_,
    fun c => mem_takeWhile_isBlank, ?_, ?_⟩
  · rw [strip, List.append_assoc, right, left]
  · intro c member
    exact mem_takeWhile_isBlank (List.mem_reverse.mp member)
  · have := congrArg List.length left
    rw [List.length_append] at this
    omega

theorem stripLeft_of_head {c : Char} {rest : Text} (h : isBlank c = false) :
    stripLeft (c :: rest) = c :: rest := by
  rw [stripLeft, List.dropWhile_cons_of_neg (by simp [h])]

theorem isBlank_head_stripLeft {text rest : Text} {c : Char} (h : stripLeft text = c :: rest) :
    isBlank c = false := by
  have head := List.head?_dropWhile_not isBlank text
  rw [stripLeft] at h
  rw [h] at head
  simpa using head

theorem stripLeft_strip (text : Text) : stripLeft (strip text) = strip text := by
  have right := stripRight_append_blanks (stripLeft text)
  rw [strip]
  cases stripped : stripRight (stripLeft text) with
  | nil => rfl
  | cons c rest =>
    rw [stripped, List.cons_append] at right
    exact stripLeft_of_head (isBlank_head_stripLeft right.symm)

theorem strip_strip (text : Text) : strip (strip text) = strip text := by
  have right (text : Text) : stripRight (stripRight text) = stripRight text := by
    rw [stripRight, stripRight, List.reverse_reverse, List.dropWhile_idempotent]
  rw [strip, stripLeft_strip, strip, right]

theorem strip_blanks {text : Text} (blank : ∀ c ∈ text, isBlank c = true) : strip text = [] := by
  have nothingLeft : stripLeft text = [] := List.dropWhile_eq_nil_iff.mpr blank
  rw [strip, nothingLeft]
  rfl

/-! ### Cutting at offsets -/

section Cutting

variable {α : Type} (xs : List α)

theorem cutPoint_natCast (length point : Nat) : cutPoint length (point : Int) = min point length := by
  have notNegative : ¬(point : Int) < 0 := by omega
  rw [cutPoint, if_neg notNegative, Int.toNat_natCast]

theorem takeTo_natCast (count : Nat) : takeTo xs (count : Int) = xs.take count := by
  rw [takeTo, cutPoint_natCast, ← List.take_eq_take_min]

theorem dropTo_natCast (count : Nat) : dropTo xs (count : Int) = xs.drop count := by
  rw [dropTo, cutPoint_natCast, ← List.drop_eq_drop_min]

theorem between_natCast (start stop : Nat) :
    between xs (start : Int) (stop : Int) = (xs.drop start).take (stop - start) := by
  rw [between, cutPoint_natCast, cutPoint_natCast, ← List.take_eq_take_min]
  by_cases inside : start ≤ xs.length
  · rw [Nat.min_eq_left inside, List.drop_take]
  · have nothingLeft : xs.drop start = [] := List.drop_eq_nil_of_le (by omega)
    rw [Nat.min_eq_right (by omega), nothingLeft, List.drop_take]
    simp

theorem index?_natCast {length index : Nat} (inside : index < length) :
    index? length (index : Int) = some index := by
  have notNegative : ¬(index : Int) < 0 := by omega
  rw [index?, if_neg notNegative, if_pos (by omega), Int.toNat_natCast]

end Cutting

/-! ### Lines -/

theorem lines_ne_nil (text : Text) : text.lines ≠ [] := by
  cases text with
  | nil => simp [lines]
  | cons c rest =>
    simp only [lines]
    split
    · simp
    · split <;> simp

theorem exists_first_line (text : Text) : ∃ first rest, text.lines = first :: rest :=
  List.exists_cons_of_ne_nil (lines_ne_nil text)

theorem exists_last_line (text : Text) : ∃ earlier last, text.lines = earlier ++ [last] :=
  ⟨_, _, (List.dropLast_concat_getLast (lines_ne_nil text)).symm⟩

theorem lines_cons_newline (rest : Text) : lines ('\n' :: rest) = [] :: rest.lines := by
  simp [lines]

theorem lines_cons {c : Char} {rest first : Text} {others : List Text} (plain : c ≠ '\n')
    (h : rest.lines = first :: others) : lines (c :: rest) = (c :: first) :: others := by
  simp [lines, plain, h]

theorem lines_append {before after first last : Text} {earlier later : List Text}
    (hb : before.lines = earlier ++ [last]) (ha : after.lines = first :: later) :
    (before ++ after).lines = earlier ++ (last ++ first) :: later := by
  induction before generalizing earlier last with
  | nil =>
    rcases earlier with _ | ⟨line, earlier⟩
    · obtain rfl : last = [] := by simpa [lines] using hb.symm
      simpa using ha
    · simp [lines] at hb
  | cons c rest ih =>
    by_cases newline : c = '\n'
    · subst newline
      rw [lines_cons_newline] at hb
      rcases earlier with _ | ⟨line, earlier⟩
      · exact absurd (List.cons.inj hb).2 (lines_ne_nil rest)
      · obtain ⟨rfl, tail⟩ := List.cons.inj hb
        rw [List.cons_append, lines_cons_newline, ih tail]
        rfl
    · obtain ⟨line, others, split⟩ := exists_first_line rest
      rw [lines_cons newline split] at hb
      rcases earlier with _ | ⟨line', earlier⟩
      · obtain ⟨rfl, rfl⟩ := List.cons.inj hb
        have split : lines rest = [] ++ [line] := split
        have joined := ih split
        rw [List.cons_append, lines_cons newline joined]
        rfl
      · obtain ⟨rfl, rfl⟩ := List.cons.inj hb
        have split : lines rest = (line :: earlier) ++ [last] := split
        have joined := ih split
        rw [List.cons_append, lines_cons newline joined]
        rfl

theorem not_mem_of_mem_lines {text line : Text} (h : line ∈ text.lines) : '\n' ∉ line := by
  induction text generalizing line with
  | nil =>
    obtain rfl : line = [] := by simpa [lines] using h
    simp
  | cons c rest ih =>
    by_cases newline : c = '\n'
    · subst newline
      rw [lines_cons_newline] at h
      rcases List.mem_cons.mp h with rfl | member
      · simp
      · exact ih member
    · obtain ⟨first, others, split⟩ := exists_first_line rest
      rw [lines_cons newline split] at h
      rw [split] at ih
      rcases List.mem_cons.mp h with rfl | member
      · have := ih List.mem_cons_self
        simp [Ne.symm newline, this]
      · exact ih (List.mem_cons_of_mem _ member)

theorem ofLines_cons_cons (line next : Text) (rest : List Text) :
    ofLines (line :: next :: rest) = line ++ '\n' :: ofLines (next :: rest) := by
  simp [ofLines, List.intercalate, List.intersperse]

theorem ofLines_singleton (line : Text) : ofLines [line] = line := by
  simp [ofLines, List.intercalate]

theorem ofLines_lines (text : Text) : ofLines text.lines = text := by
  induction text with
  | nil => rfl
  | cons c rest ih =>
    obtain ⟨first, others, split⟩ := exists_first_line rest
    rw [split] at ih
    by_cases newline : c = '\n'
    · subst newline
      rw [lines_cons_newline, split, ofLines_cons_cons, ih]
      rfl
    · rw [lines_cons newline split]
      rcases others with _ | ⟨next, others⟩
      · rw [ofLines_singleton] at ih ⊢
        rw [ih]
      · rw [ofLines_cons_cons] at ih ⊢
        rw [List.cons_append, ih]

/-! ### Positions -/

theorem position_go_succ (text : Text) (offset line column : Nat) :
    position.go line column text (offset + 1) =
      if text[offset]? = some '\n' then ⟨(position.go line column text offset).line + 1, 0⟩
      else ⟨(position.go line column text offset).line,
        (position.go line column text offset).column + 1⟩ := by
  induction offset generalizing text line column with
  | zero =>
    cases text with
    | nil => simp [position.go]
    | cons c rest =>
      by_cases newline : c = '\n'
      · simp [position.go, newline]
      · simp [position.go, newline]
  | succ offset ih =>
    cases text with
    | nil => simp [position.go]; omega
    | cons c rest =>
      by_cases newline : c = '\n'
      · simp only [position.go, newline, if_true, List.getElem?_cons_succ]
        exact ih rest _ _
      · simp only [position.go, newline, if_false, List.getElem?_cons_succ]
        exact ih rest _ _

theorem position_zero (text : Text) : text.position 0 = ⟨1, 0⟩ := by
  cases text <;> rfl

theorem position_succ (text : Text) (offset : Nat) :
    text.position (offset + 1) =
      if text[offset]? = some '\n' then ⟨(text.position offset).line + 1, 0⟩
      else ⟨(text.position offset).line, (text.position offset).column + 1⟩ :=
  position_go_succ text offset 1 0

theorem position_lt_succ (text : Text) (offset : Nat) :
    text.position offset < text.position (offset + 1) := by
  rw [position_succ, Position.lt_iff]
  split
  · exact .inl (Int.lt_succ _)
  · exact .inr ⟨rfl, Int.lt_succ _⟩

theorem position_lt {text : Text} {first second : Nat} (less : first < second) :
    text.position first < text.position second := by
  induction second with
  | zero => omega
  | succ second ih =>
    by_cases same : first = second
    · subst same
      exact position_lt_succ text first
    · exact Position.lt_trans (ih (by omega)) (position_lt_succ text second)

theorem position_lt_iff (text : Text) {first second : Nat} :
    text.position first < text.position second ↔ first < second := by
  constructor
  · intro before
    apply Decidable.byContradiction
    intro notLess
    rcases Nat.lt_or_eq_of_le (Nat.le_of_not_lt notLess) with greater | same
    · exact Position.lt_irrefl _ (Position.lt_trans before (position_lt greater))
    · subst same
      exact Position.lt_irrefl _ before
  · exact position_lt

theorem position_inj {text : Text} {first second : Nat}
    (same : text.position first = text.position second) : first = second := by
  have notLess : ¬first < second := by
    rw [← position_lt_iff text, same]
    exact Position.lt_irrefl _
  have notGreater : ¬second < first := by
    rw [← position_lt_iff text, same]
    exact Position.lt_irrefl _
  omega

theorem position_le_iff {text : Text} {first second : Nat} :
    text.position first ≤ text.position second ↔ first ≤ second := by
  rw [Position.le_iff, position_lt_iff text, Nat.le_iff_lt_or_eq]
  exact or_congr_right ⟨position_inj, congrArg _⟩

@[simp] theorem span_start (text : Text) (extent : Extent) :
    (text.span extent).start = text.position extent.start := rfl

@[simp] theorem span_stop (text : Text) (extent : Extent) :
    (text.span extent).stop = text.position extent.stop := rfl

/-- The position behind the first of two parts is read off the lines of that part. -/
theorem position_length_append {before last : Text} {earlier : List Text} (after : Text)
    (h : before.lines = earlier ++ [last]) :
    (before ++ after).position before.length = ⟨earlier.length + 1, last.length⟩ := by
  have walk : ∀ line column : Nat, position.go line column (before ++ after) before.length =
      ⟨line + earlier.length, if earlier = [] then column + last.length else last.length⟩ := by
    induction before generalizing earlier last with
    | nil =>
      obtain ⟨rfl, rfl⟩ : earlier = [] ∧ last = [] := by
        rcases earlier with _ | ⟨line, earlier⟩
        · simpa [lines] using h.symm
        · simp [lines] at h
      intro line column
      cases after <;> simp [position.go]
    | cons c rest ih =>
      intro line column
      by_cases newline : c = '\n'
      · subst newline
        rw [lines_cons_newline] at h
        rcases earlier with _ | ⟨first, earlier⟩
        · exact absurd (List.cons.inj h).2 (lines_ne_nil rest)
        · obtain ⟨rfl, tail⟩ := List.cons.inj h
          simp only [List.cons_append, List.length_cons, position.go, if_true, ih tail]
          split <;> simp <;> omega
      · obtain ⟨first, others, split⟩ := exists_first_line rest
        rw [lines_cons newline split] at h
        rcases earlier with _ | ⟨first', earlier⟩
        · obtain ⟨rfl, rfl⟩ := List.cons.inj h
          have split : lines rest = [] ++ [first] := split
          simp only [List.cons_append, List.length_cons, position.go, newline, if_false, ih split]
          simp
          omega
        · obtain ⟨rfl, rfl⟩ := List.cons.inj h
          have split : lines rest = (first :: earlier) ++ [last] := split
          simp only [List.cons_append, List.length_cons, position.go, newline, if_false, ih split]
          simp
  rw [position, walk 1 0]
  split
  · next noNewlines => simp [noNewlines]
  · simp only [Position.mk.injEq, and_true]
    omega

theorem exists_row {text : Text} {offset : Nat} (inside : offset ≤ text.length) :
    ∃ row : Nat, row < text.lines.length ∧ (text.position offset).line = row + 1 := by
  obtain ⟨earlier, last, before⟩ := exists_last_line (text.take offset)
  obtain ⟨first, later, after⟩ := exists_first_line (text.drop offset)
  have lines := lines_append before after
  have place := position_length_append (text.drop offset) before
  rw [List.take_append_drop] at lines place
  rw [List.length_take, Nat.min_eq_left inside] at place
  refine ⟨earlier.length, ?_, by rw [place]⟩
  rw [lines]
  simp

/-- A position on a line of a text, not behind the end of the line. -/
def Holds (text : Text) (place : Position) : Prop :=
  ∃ row : Nat, ∃ line, text.lines[row]? = some line ∧ place.line = row + 1 ∧ 0 ≤ place.column ∧
    place.column ≤ line.length

/-- Every offset of a text has a position on one of its lines. -/
theorem holds_position {text : Text} {offset : Nat} (inside : offset ≤ text.length) :
    text.Holds (text.position offset) := by
  obtain ⟨earlier, last, before⟩ := exists_last_line (text.take offset)
  obtain ⟨first, later, after⟩ := exists_first_line (text.drop offset)
  have lines := lines_append before after
  have place := position_length_append (text.drop offset) before
  rw [List.take_append_drop] at lines place
  rw [List.length_take, Nat.min_eq_left inside] at place
  refine ⟨earlier.length, last ++ first, ?_, by rw [place], by rw [place]; exact Int.natCast_nonneg _, ?_⟩
  · rw [lines]
    simp
  · rw [place, List.length_append]
    simp only
    omega

theorem exists_position_go {text line : Text} {row column : Nat} (isLine : text.lines[row]? = some line)
    (inside : column ≤ line.length) :
    ∃ offset ≤ text.length, ∀ first start : Nat, position.go first start text offset =
      ⟨(first + row : Nat), ((if row = 0 then start else 0) + column : Nat)⟩ := by
  induction text generalizing row column line with
  | nil =>
    obtain ⟨rfl, rfl⟩ : row = 0 ∧ line = [] := by
      cases row with
      | zero => simpa [lines] using isLine.symm
      | succ row => simp [lines] at isLine
    obtain rfl := Nat.le_zero.mp inside
    exact ⟨0, Nat.le_refl _, fun first start => by simp [position.go]⟩
  | cons c rest ih =>
    by_cases newline : c = '\n'
    · subst newline
      rw [lines_cons_newline] at isLine
      cases row with
      | zero =>
        obtain rfl := Option.some.inj isLine
        obtain rfl := Nat.le_zero.mp inside
        exact ⟨0, Nat.zero_le _, fun first start => by simp [position.go]⟩
      | succ row =>
        obtain ⟨offset, bounded, place⟩ := ih isLine inside
        refine ⟨offset + 1, Nat.succ_le_succ bounded, fun first start => ?_⟩
        rw [position.go, if_pos rfl, place]
        simp
        omega
    · obtain ⟨head, others, split⟩ := exists_first_line rest
      rw [lines_cons newline split] at isLine
      rw [split] at ih
      -- The first column of the text is no further than the text itself.
      by_cases start : row = 0 ∧ column = 0
      · obtain ⟨rfl, rfl⟩ := start
        exact ⟨0, Nat.zero_le _, fun first start => by simp [position.go]⟩
      have tail : ∃ line, (head :: others)[row]? = some line ∧
          (if row = 0 then column - 1 else column) ≤ line.length := by
        cases row with
        | zero =>
          obtain rfl := Option.some.inj isLine
          rw [List.length_cons] at inside
          exact ⟨head, rfl, by rw [if_pos rfl]; omega⟩
        | succ row => exact ⟨line, isLine, inside⟩
      obtain ⟨line, isLine, inside⟩ := tail
      obtain ⟨offset, bounded, place⟩ := ih isLine inside
      refine ⟨offset + 1, Nat.succ_le_succ bounded, fun first start => ?_⟩
      rw [position.go, if_neg newline, place]
      simp only [Position.mk.injEq, true_and]
      split <;> omega

/-- Every position on a line of a text is the position of an offset. -/
theorem exists_offset {text : Text} {place : Position} (holds : text.Holds place) :
    ∃ offset ≤ text.length, text.position offset = place := by
  obtain ⟨row, line, isLine, isRow, notNegative, inside⟩ := holds
  obtain ⟨column, isColumn⟩ := Int.eq_ofNat_of_zero_le notNegative
  rw [isColumn] at inside
  obtain ⟨offset, bounded, reached⟩ := exists_position_go isLine (Int.ofNat_le.mp inside)
  refine ⟨offset, bounded, ?_⟩
  obtain ⟨placeLine, placeColumn⟩ := place
  simp only at isRow isColumn
  rw [position, reached, isRow, isColumn]
  simp
  omega

theorem lineStart_position_go (text : Text) (offset line column : Nat) :
    ∃ row reached : Nat, position.go line column text offset = ⟨(line + row : Nat), reached⟩ ∧
      lineStart text row + reached = offset + if row = 0 then column else 0 := by
  induction text generalizing offset line column with
  | nil =>
    refine ⟨0, column + offset, ?_, ?_⟩
    · cases offset <;> simp [position.go]
    · simp [lineStart]
      omega
  | cons c rest ih =>
    cases offset with
    | zero => exact ⟨0, column, by simp [position.go], by simp [lineStart]⟩
    | succ offset =>
      by_cases newline : c = '\n'
      · obtain ⟨row, reached, place, start⟩ := ih offset (line + 1) 0
        refine ⟨row + 1, reached, ?_, ?_⟩
        · rw [position.go, if_pos newline, place, Nat.add_right_comm, Nat.add_assoc]
        · simp only [ite_self] at start
          simp only [lineStart, if_pos newline, Nat.add_one_ne_zero, if_false]
          omega
      · obtain ⟨row, reached, place, start⟩ := ih offset line (column + 1)
        refine ⟨row, reached, by rw [position.go, if_neg newline, place], ?_⟩
        cases row with
        | zero =>
          simp only [lineStart, if_pos] at start ⊢
          omega
        | succ row =>
          simp only [lineStart, if_neg newline, Nat.add_one_ne_zero, if_false] at start ⊢
          omega

/-- The offset of a position is the offset that it was taken from. -/
theorem offset_position (text : Text) (offset : Nat) : text.offset (text.position offset) = offset := by
  obtain ⟨row, reached, place, start⟩ := lineStart_position_go text offset 1 0
  rw [ite_self] at start
  have line : ((1 + row : Nat) - 1 : Int).toNat = row := by omega
  rw [position, place, Text.offset, line]
  simp only
  omega

/-! ### Three parts of a text -/

/-- The lines in the middle of a text, `left` being what stands in front of them on the first one and
`right` what stands behind them on the last one. -/
def spliced (left : Text) : List Text → Text → List Text
  | [], right => [left ++ right]
  | [line], right => [left ++ line ++ right]
  | line :: next :: rest, right => (left ++ line) :: spliced [] (next :: rest) right

theorem spliced_concat (left : Text) (lines : List Text) (line right : Text) :
    spliced left (lines ++ [line]) right =
      match lines with
      | [] => [left ++ line ++ right]
      | first :: rest => (left ++ first) :: (rest ++ [line ++ right]) := by
  induction lines generalizing left with
  | nil => rfl
  | cons first rest ih =>
    rcases rest with _ | ⟨next, rest⟩
    · simp [spliced]
    · have tail := ih []
      simp only [List.cons_append] at tail ⊢
      rw [spliced, tail]
      simp

theorem lines_parts {before after left right : Text} {earlier later : List Text}
    (hb : before.lines = earlier ++ [left]) (ha : after.lines = right :: later) (middle : Text) :
    (before ++ middle ++ after).lines = earlier ++ spliced left middle.lines right ++ later := by
  obtain ⟨lines, last, hm⟩ := exists_last_line middle
  rw [hm, spliced_concat]
  rcases lines with _ | ⟨first, rest⟩
  · have joined := lines_append hb (hm : middle.lines = last :: [])
    rw [lines_append joined ha]
    simp
  · have joined := lines_append hb (hm : middle.lines = first :: (rest ++ [last]))
    have ended : (before ++ middle).lines = (earlier ++ (left ++ first) :: rest) ++ [last] := by
      simpa using joined
    rw [lines_append ended ha]
    simp

theorem position_parts_start {before left : Text} {earlier : List Text}
    (hb : before.lines = earlier ++ [left]) (middle after : Text) :
    (before ++ middle ++ after).position before.length = ⟨earlier.length + 1, left.length⟩ := by
  rw [List.append_assoc, position_length_append _ hb]

theorem position_parts_stop {before left middle last : Text} {earlier lines : List Text}
    (hb : before.lines = earlier ++ [left]) (hm : middle.lines = lines ++ [last]) (after : Text) :
    (before ++ middle ++ after).position (before.length + middle.length) =
      ⟨earlier.length + 1 + lines.length, (if lines = [] then left.length else 0) + last.length⟩ := by
  rw [← List.length_append]
  rcases lines with _ | ⟨first, rest⟩
  · have joined := lines_append hb (hm : middle.lines = last :: [])
    rw [position_length_append _ joined]
    simp
  · have joined := lines_append hb (hm : middle.lines = first :: (rest ++ [last]))
    have ended : (before ++ middle).lines = (earlier ++ (left ++ first) :: rest) ++ [last] := by
      simpa using joined
    rw [position_length_append _ ended]
    simp
    omega

/-- A range of a text reaches from its start in one line to its end in the same line or a later one. -/
theorem exists_span_lines {text : Text} {start stop : Nat} (forward : start ≤ stop) (bounded : stop ≤ text.length) :
    ∃ earlier left rest last right later,
      text.lines = earlier ++ spliced left (rest ++ [last]) right ++ later ∧
      (text.slice start stop).lines = rest ++ [last] ∧
      text.position start = ⟨earlier.length + 1, left.length⟩ ∧
      text.position stop =
        ⟨earlier.length + 1 + rest.length, (if rest = [] then left.length else 0) + last.length⟩ := by
  obtain ⟨earlier, left, hb⟩ := exists_last_line (text.take start)
  obtain ⟨right, later, ha⟩ := exists_first_line (text.drop stop)
  obtain ⟨rest, last, hm⟩ := exists_last_line (text.slice start stop)
  have whole := take_slice_drop text forward
  have atStart : (text.take start).length = start := by
    rw [List.length_take]
    omega
  have atStop : (text.take start).length + (text.slice start stop).length = stop := by
    rw [length_slice text bounded]
    omega
  have parts := lines_parts hb ha (text.slice start stop)
  have startPlace := position_parts_start hb (text.slice start stop) (text.drop stop)
  have stopPlace := position_parts_stop hb hm (text.drop stop)
  rw [whole, hm] at parts
  rw [whole, atStart] at startPlace
  rw [whole, atStop] at stopPlace
  exact ⟨earlier, left, rest, last, right, later, parts, hm, startPlace, stopPlace⟩

/-! ### Texts with the same lines -/

/-- Two texts have newlines at the same places. -/
def SameLines (text other : Text) : Prop :=
  text.map (fun c => decide (c = '\n')) = other.map (fun c => decide (c = '\n'))

namespace SameLines

theorem refl (text : Text) : SameLines text text := rfl

theorem symm {text other : Text} (h : SameLines text other) : SameLines other text := Eq.symm h

theorem trans {text middle other : Text} (h₁ : SameLines text middle) (h₂ : SameLines middle other) :
    SameLines text other := Eq.trans h₁ h₂

theorem append {text other text' other' : Text} (h : SameLines text other)
    (h' : SameLines text' other') : SameLines (text ++ text') (other ++ other') := by
  rw [SameLines, List.map_append, List.map_append, h, h']

theorem length_eq {text other : Text} (h : SameLines text other) : text.length = other.length := by
  simpa using congrArg List.length h

theorem getElem?_iff {text other : Text} (h : SameLines text other) (index : Nat) :
    text[index]? = some '\n' ↔ other[index]? = some '\n' := by
  have same : (text.map (fun c => decide (c = '\n')))[index]? =
      (other.map (fun c => decide (c = '\n')))[index]? := by rw [h]
  rw [List.getElem?_map, List.getElem?_map] at same
  cases ht : text[index]? <;> cases ho : other[index]? <;> simp_all

theorem position_eq {text other : Text} (h : SameLines text other) (offset : Nat) :
    text.position offset = other.position offset := by
  induction offset with
  | zero => rw [position_zero, position_zero]
  | succ offset ih =>
    rw [position_succ, position_succ, ih]
    simp only [h.getElem?_iff offset]

theorem span_eq {text other : Text} (h : SameLines text other) (extent : Extent) :
    text.span extent = other.span extent := by
  rw [span, span, h.position_eq, h.position_eq]

theorem lines_length {text other : Text} (h : SameLines text other) :
    text.lines.map List.length = other.lines.map List.length := by
  induction text generalizing other with
  | nil =>
    obtain rfl : other = [] := List.length_eq_zero_iff.mp h.length_eq.symm
    rfl
  | cons c rest ih =>
    rcases other with _ | ⟨d, more⟩
    · simp [SameLines] at h
    · obtain ⟨newline, tail⟩ : decide (c = '\n') = decide (d = '\n') ∧ SameLines rest more := by
        simpa [SameLines] using h
      have lengths := ih tail
      by_cases hc : c = '\n'
      · obtain rfl : d = '\n' := by simpa [hc] using newline.symm
        subst hc
        simp [lines_cons_newline, lengths]
      · have hd : d ≠ '\n' := by simpa [hc] using newline.symm
        obtain ⟨first, others, split⟩ := exists_first_line rest
        obtain ⟨first', others', split'⟩ := exists_first_line more
        rw [split, split'] at lengths
        rw [lines_cons hc split, lines_cons hd split']
        simpa using lengths

end SameLines

end Text

end Phrasebook
