import Phrasebook.Mask
import Phrasebook.Proofs.Text.Lines

/-!
Marking as an operation on texts. `cover` writes one marker over a whole text and leaves its
newlines in place; `mark_parts` shows that marking a range of a buffer of lines covers the middle one
of three parts of the text and nothing else.
-/

namespace Phrasebook.Mask

open Text

/-- The number of characters that a marker over a text takes. -/
def width (region : Text) : Nat := region.countP (· ≠ '\n')

/-- The characters of a marker. -/
def ink (width : Nat) : Text := startChar :: (List.replicate (width - 2) fillChar ++ [endChar])

/-- Writes the characters of `ink` over those of a text, in order; newlines stay in place. -/
def overlay : Text → Text → Text
  | _, [] => []
  | [], rest => rest
  | i :: ink, c :: rest => if c = '\n' then c :: overlay (i :: ink) rest else i :: overlay ink rest

/-- A text under one marker. -/
def cover (region : Text) : Text := overlay (ink (width region)) region

example : cover "\x7b\x7ba\n\nb\x7d\x7d".toList = "\uE000\uE001\uE001\n\n\uE001\uE001\uE002".toList := by
  decide

/-! ### Markers -/

theorem marker_natCast {count : Nat} (wide : 2 ≤ count) : marker (count : Int) = .ok (ink count) := by
  have enough : ¬(count : Int) < minMarkerWidth := by simp only [minMarkerWidth]; omega
  rw [marker, if_neg enough]
  rfl

theorem length_ink {count : Nat} (wide : 2 ≤ count) : (ink count).length = count := by
  simp only [ink, List.length_cons, List.length_append, List.length_replicate, List.length_nil]
  omega

theorem newline_not_mem_ink (count : Nat) : '\n' ∉ ink count := by
  have start : '\n' ≠ startChar := by decide
  have fill : '\n' ≠ fillChar := by decide
  have last : '\n' ≠ endChar := by decide
  simp [ink, start, fill, last]

theorem width_append (first second : Text) : width (first ++ second) = width first + width second :=
  List.countP_append

theorem width_cons_newline (rest : Text) : width ('\n' :: rest) = width rest := by
  simp [width]

theorem width_cons {c : Char} (plain : c ≠ '\n') (rest : Text) :
    width (c :: rest) = width rest + 1 := by
  simp [width, plain]

theorem overlay_nil (region : Text) : overlay [] region = region := by
  cases region <;> rfl

theorem sameLines_overlay {ink : Text} (plain : '\n' ∉ ink) (region : Text) :
    SameLines (overlay ink region) region := by
  induction region generalizing ink with
  | nil =>
    cases ink <;> rfl
  | cons c rest ih =>
    rcases ink with _ | ⟨i, ink⟩
    · rfl
    · have notNewline : i ≠ '\n' := by
        rintro rfl
        exact plain List.mem_cons_self
      by_cases newline : c = '\n'
      · simp only [overlay, newline, if_true]
        exact SameLines.append (.refl ['\n']) (ih plain)
      · have tail := ih fun member => plain (List.mem_cons_of_mem _ member)
        simp only [overlay, newline, if_false]
        have here : SameLines [i] [c] := by simp [SameLines, notNewline, newline]
        exact SameLines.append here tail

theorem sameLines_cover (region : Text) : SameLines (cover region) region :=
  sameLines_overlay (newline_not_mem_ink _) region

/-! ### Lines under a marker -/

/-- The characters of `ink`, dealt out to lines that take as many as they are long. -/
def inkLines : Text → List Text → List Text
  | _, [] => []
  | ink, line :: rest => ink.take line.length :: inkLines (ink.drop line.length) rest

theorem map_length_inkLines {ink : Text} {lines : List Text} (enough : lines.flatten.length ≤ ink.length) :
    (inkLines ink lines).map List.length = lines.map List.length := by
  induction lines generalizing ink with
  | nil => rfl
  | cons line rest ih =>
    rw [List.flatten_cons, List.length_append] at enough
    rw [inkLines, List.map_cons, List.map_cons, ih (by rw [List.length_drop]; omega), List.length_take,
      Nat.min_eq_left (by omega)]

theorem flatten_inkLines (ink : Text) (lines : List Text) :
    (inkLines ink lines).flatten = ink.take lines.flatten.length := by
  induction lines generalizing ink with
  | nil => rfl
  | cons line rest ih =>
    rw [inkLines, List.flatten_cons, ih, List.flatten_cons, List.length_append, List.take_add]

theorem lines_overlay {ink region : Text} (plain : '\n' ∉ ink) (enough : width region ≤ ink.length) :
    (overlay ink region).lines = inkLines ink region.lines := by
  induction region generalizing ink with
  | nil => cases ink <;> rfl
  | cons c rest ih =>
    by_cases newline : c = '\n'
    · subst newline
      rw [width_cons_newline] at enough
      have tail := ih plain enough
      rcases ink with _ | ⟨i, ink⟩
      · rw [overlay_nil] at tail
        rw [overlay, lines_cons_newline, inkLines, List.length_nil, List.drop_zero, ← tail]
        · rfl
        · simp
      · simp only [overlay, if_true]
        rw [lines_cons_newline, lines_cons_newline, inkLines, tail]
        rfl
    · rw [width_cons newline] at enough
      rcases ink with _ | ⟨i, ink⟩
      · simp at enough
      · have notNewline : i ≠ '\n' := by
          rintro rfl
          exact plain List.mem_cons_self
        have tail := ih (fun member => plain (List.mem_cons_of_mem _ member))
          (by simpa using enough)
        obtain ⟨first, others, split⟩ := exists_first_line rest
        rw [split, inkLines] at tail
        simp only [overlay, newline, if_false]
        rw [lines_cons notNewline tail, lines_cons newline split, inkLines]
        simp

/-! ### Ranges of one line -/

theorem markLine_parts (source : Option String) (earlier later : List Text) (left right : Text)
    {region : Text} (wide : 2 ≤ region.length) :
    markLine source (earlier ++ (left ++ region ++ right) :: later)
        ⟨earlier.length + 1, left.length⟩ ⟨earlier.length + 1, left.length + region.length⟩ =
      .ok (earlier ++ (left ++ ink region.length ++ right) :: later) := by
  have row : row? (earlier ++ (left ++ region ++ right) :: later) ((earlier.length : Int) + 1) =
      .ok earlier.length := by
    rw [row?, Int.add_sub_cancel, index?_natCast (by simp)]
  have line : (earlier ++ (left ++ region ++ right) :: later).getD earlier.length [] =
      left ++ region ++ right := by simp
  have count : ((left.length + region.length : Nat) : Int) - left.length = (region.length : Int) := by
    omega
  have stop : (left.length : Int) + region.length = ((left.length + region.length : Nat) : Int) := rfl
  have front : takeTo (left ++ region ++ right) (left.length : Int) = left := by
    rw [takeTo_natCast, List.append_assoc, List.take_left]
  have back : dropTo (left ++ region ++ right) ((left.length + region.length : Nat) : Int) =
      right := by
    rw [dropTo_natCast, ← List.length_append, List.drop_left]
  have same : (left ++ ink region.length ++ right).length = (left ++ region ++ right).length := by
    simp [length_ink wide]
  simp only [markLine, row, bind, Except.bind, line, count, marker_natCast wide, stop, front, back]
  rw [if_pos same]
  simp

/-! ### Ranges of several lines -/

/-- The segments that consecutive lines from a row on fill, the first from a column on. -/
def rowSegments (row column : Nat) : List Text → List Segment
  | [] => []
  | line :: rest => ⟨row, column, column + line.length⟩ :: rowSegments (row + 1) 0 rest

theorem getElem?_rowSegments (row column : Nat) (lines : List Text) (index : Nat) :
    (rowSegments row column lines)[index]? = lines[index]?.map fun line =>
      let start := if index = 0 then column else 0
      ⟨row + index, start, start + line.length⟩ := by
  induction lines generalizing row column index with
  | nil => simp [rowSegments]
  | cons line rest ih =>
    cases index with
    | zero => simp [rowSegments]
    | succ index =>
      rw [rowSegments, List.getElem?_cons_succ, List.getElem?_cons_succ, ih]
      have shifted : row + 1 + index = row + (index + 1) := by omega
      simp [shifted]

/-- The segments of lines are as wide as the lines together. -/
theorem totalWidth_rowSegments (row column : Nat) (lines : List Text) :
    totalWidth (rowSegments row column lines) = lines.flatten.length := by
  induction lines generalizing row column with
  | nil => rfl
  | cons line rest ih =>
    rw [rowSegments, totalWidth, ih, List.flatten_cons, List.length_append]
    simp only
    omega

/-- The lines of a text hold all its characters but the newlines. -/
theorem length_flatten_lines (region : Text) : region.lines.flatten.length = width region := by
  induction region with
  | nil => rfl
  | cons c rest ih =>
    by_cases newline : c = '\n'
    · subst newline
      rw [width_cons_newline, lines_cons_newline, List.flatten_cons, List.nil_append, ih]
    · obtain ⟨first, others, split⟩ := exists_first_line rest
      rw [split, List.flatten_cons, List.length_append] at ih
      rw [width_cons newline, lines_cons newline split, List.flatten_cons, List.length_append, List.length_cons]
      omega

/-- Filling segments writes the text over the lines in the middle. -/
theorem fill_rowSegments (text : Text) (earlier later : List Text) (left right : Text) (used : Nat)
    {lines : List Text} (some : lines ≠ []) :
    fill text (earlier ++ spliced left lines right ++ later) used
        (rowSegments earlier.length left.length lines) =
      earlier ++ spliced left (inkLines (text.drop used) lines) right ++ later := by
  induction lines generalizing earlier left used with
  | nil => exact absurd rfl some
  | cons line rest ih =>
    have next : (used : Int) + (((left.length + line.length : Nat) : Int) - left.length) =
        ((used + line.length : Nat) : Int) := by omega
    have stop : (left.length : Int) + line.length = ((left.length + line.length : Nat) : Int) := rfl
    rcases rest with _ | ⟨following, rest⟩
    · have found : (earlier ++ [left ++ line ++ right] ++ later).getD earlier.length [] =
          left ++ line ++ right := by simp
      have front : takeTo (left ++ line ++ right) (left.length : Int) = left := by
        rw [takeTo_natCast, List.append_assoc, List.take_left]
      have back : dropTo (left ++ line ++ right) ((left.length + line.length : Nat) : Int) =
          right := by
        rw [dropTo_natCast, ← List.length_append, List.drop_left]
      simp only [rowSegments, fill, spliced, inkLines, found, next, stop, front, back,
        between_natCast, Nat.add_sub_cancel_left]
      simp
    · have found : (earlier ++ (left ++ line) :: spliced [] (following :: rest) right ++ later).getD
          earlier.length [] = left ++ line := by simp
      have front : takeTo (left ++ line) (left.length : Int) = left := by
        rw [takeTo_natCast, List.take_left]
      have back : dropTo (left ++ line) ((left.length + line.length : Nat) : Int) = [] := by
        rw [dropTo_natCast, ← List.length_append, List.drop_length]
      have written : (earlier ++ (left ++ line) :: spliced [] (following :: rest) right ++ later).set
          earlier.length (left ++ (text.drop used).take line.length) =
          (earlier ++ [left ++ (text.drop used).take line.length]) ++
            spliced [] (following :: rest) right ++ later := by simp
      have tail := ih (earlier ++ [left ++ (text.drop used).take line.length]) []
        (used + line.length) (by simp)
      simp only [List.length_append, List.length_cons, List.length_nil, Nat.zero_add] at tail
      rw [rowSegments, fill, spliced]
      simp only [found, next, stop, front, back, between_natCast, Nat.add_sub_cancel_left,
        List.append_nil, written]
      rw [tail]
      simp [inkLines, spliced, List.drop_drop]

theorem mapM_ok_of_forall {α β ε : Type} {f : α → Except ε β} {g : α → β} {xs : List α}
    (h : ∀ x ∈ xs, f x = .ok (g x)) : xs.mapM f = .ok (xs.map g) := by
  induction xs with
  | nil => rfl
  | cons x rest ih =>
    rw [List.mapM_cons, h x List.mem_cons_self, ih fun y member => h y (List.mem_cons_of_mem _ member)]
    rfl

theorem getElem?_spliced (left right : Text) (lines : List Text) (index : Nat)
    (inside : index < lines.length) :
    (spliced left lines right)[index]? = lines[index]?.map fun line =>
      (if index = 0 then left else []) ++ line ++ if index + 1 = lines.length then right else [] := by
  induction lines generalizing left index with
  | nil => simp at inside
  | cons line rest ih =>
    rcases rest with _ | ⟨following, rest⟩
    · obtain rfl : index = 0 := by simpa using inside
      simp [spliced]
    · cases index with
      | zero => simp [spliced]
      | succ index =>
        rw [spliced, List.getElem?_cons_succ, List.getElem?_cons_succ,
          ih [] index (by simpa using inside)]
        simp

theorem length_spliced (left right : Text) {lines : List Text} (some : lines ≠ []) :
    (spliced left lines right).length = lines.length := by
  induction lines generalizing left with
  | nil => exact absurd rfl some
  | cons line rest ih =>
    rcases rest with _ | ⟨following, rest⟩
    · rfl
    · rw [spliced, List.length_cons, ih [] (by simp)]
      rfl

/-- One of the lines in the middle of a text. -/
theorem getElem?_middle (earlier later : List Text) (left right : Text) {lines : List Text} {index : Nat}
    (inside : index < lines.length) :
    (earlier ++ spliced left lines right ++ later)[earlier.length + index]? = lines[index]?.map fun line =>
      (if index = 0 then left else []) ++ line ++ if index + 1 = lines.length then right else [] := by
  have bounded : index < (spliced left lines right).length := by
    rw [length_spliced left right (List.ne_nil_of_length_pos (Nat.zero_lt_of_lt inside))]
    exact inside
  rw [List.append_assoc, List.getElem?_append_right (by omega), Nat.add_sub_cancel_left,
    List.getElem?_append_left bounded, getElem?_spliced left right lines index inside]

/-- The length of one of the lines in the middle of a text. -/
theorem length_getD_spliced (earlier later : List Text) (left right : Text) {lines : List Text}
    {line : Text} {index : Nat} (here : lines[index]? = some line) :
    ((earlier ++ spliced left lines right ++ later).getD (earlier.length + index) []).length =
      (if index = 0 then left.length else 0) + line.length +
        if index + 1 = lines.length then right.length else 0 := by
  have inside := (List.getElem?_eq_some_iff.mp here).1
  rw [List.getD_eq_getElem?_getD, getElem?_middle earlier later left right inside, here]
  simp only [Option.map_some, Option.getD_some, List.length_append]
  congr 1
  · congr 1
    split <;> rfl
  · split <;> rfl

/-- The segments of a range over several lines. -/
theorem segments_parts (earlier later : List Text) (left right last : Text) {lines : List Text}
    (several : 0 < lines.length) :
    segments (earlier ++ spliced left (lines ++ [last]) right ++ later)
        ⟨earlier.length + 1, left.length⟩ ⟨earlier.length + 1 + lines.length, last.length⟩ =
      .ok (rowSegments earlier.length left.length (lines ++ [last])) := by
  have count : ((earlier.length : Int) + 1 + lines.length + 1 - (earlier.length + 1)).toNat =
      lines.length + 1 := by omega
  rw [segments, lineNumbers, count, List.mapM_map]
  -- Every line number gives the segment that stands at its index.
  let segment (index : Nat) : Segment :=
    ((rowSegments earlier.length left.length (lines ++ [last]))[index]?).getD ⟨0, 0, 0⟩
  rw [mapM_ok_of_forall (g := segment)]
  · congr 1
    apply List.ext_getElem?
    intro index
    by_cases inside : index < lines.length + 1
    · simp only [List.getElem?_map, List.getElem?_range inside, Option.map_some, segment,
        getElem?_rowSegments]
      rw [List.getElem?_eq_getElem (by simpa using inside)]
      rfl
    · simp [getElem?_rowSegments, inside]
  · intro index member
    have inside : index < (lines ++ [last]).length := by simpa using member
    obtain ⟨line, here⟩ : ∃ line, (lines ++ [last])[index]? = some line :=
      ⟨_, List.getElem?_eq_getElem inside⟩
    have row : row? (earlier ++ spliced left (lines ++ [last]) right ++ later)
        ((earlier.length : Int) + 1 + index) = .ok (earlier.length + index) := by
      have shifted : (earlier.length : Int) + 1 + index - 1 = ((earlier.length + index : Nat) : Int) := by
        omega
      have bounded : earlier.length + index <
          (earlier ++ spliced left (lines ++ [last]) right ++ later).length := by
        simp only [List.length_append, length_spliced left right (by simp : lines ++ [last] ≠ [])] at inside ⊢
        omega
      rw [row?, shifted, index?_natCast bounded]
    have long := length_getD_spliced earlier later left right here
    have isFirst : (earlier.length : Int) + 1 + index = earlier.length + 1 ↔ index = 0 := by omega
    have isLast : (earlier.length : Int) + 1 + index = earlier.length + 1 + lines.length ↔
        index = lines.length := by omega
    simp only [Function.comp_apply, row, bind, Except.bind, long, segment, getElem?_rowSegments, here,
      Option.map_some, Option.getD_some, isFirst, isLast, List.length_append, List.length_cons,
      List.length_nil, Nat.zero_add, Nat.add_right_cancel_iff]
    by_cases final : index = lines.length
    · obtain rfl : line = last := by simpa [final] using here.symm
      have notFirst : ¬lines.length = 0 := by omega
      simp only [final, notFirst, if_true, if_false]
      simp
    · simp only [final, if_false]
      split <;> rfl

/-! ### Ranges of a buffer -/

/-- Marking lines that stand between two texts deals one marker out to them. -/
theorem mark_spliced (source : Option String) (earlier later rest : List Text) (left last right : Text)
    (wide : 2 ≤ (rest ++ [last]).flatten.length) :
    mark source (earlier ++ spliced left (rest ++ [last]) right ++ later) ⟨earlier.length + 1, left.length⟩
        ⟨earlier.length + 1 + rest.length, (if rest = [] then left.length else 0) + last.length⟩ =
      .ok (earlier ++ spliced left (inkLines (ink (rest ++ [last]).flatten.length) (rest ++ [last])) right ++
        later) := by
  rcases rest with _ | ⟨first, rest⟩
  · -- The range lies on one line.
    have count : ([] ++ [last]).flatten.length = last.length := by simp
    rw [count] at wide ⊢
    have apart : ¬(left.length : Int) = left.length + last.length := by omega
    have written := markLine_parts source earlier later left right wide
    have whole : (ink last.length).take last.length = ink last.length := by
      rw [List.take_of_length_le]
      exact Nat.le_of_eq (length_ink wide)
    simpa [mark, apart, spliced, inkLines, whole] using written
  · -- The range goes over several lines.
    have several : 0 < (first :: rest).length := by simp
    have someRows : first :: rest ++ [last] ≠ [] := by simp
    have filled := fill_rowSegments (ink (first :: rest ++ [last]).flatten.length) earlier later left right 0 someRows
    have apart : ¬(earlier.length : Int) + 1 = earlier.length + 1 + (first :: rest).length := by
      simp only [List.length_cons]
      omega
    rw [mark, if_neg (fun same => apart (congrArg Position.line same)), if_neg apart, markLines]
    simp only [reduceCtorEq, if_false, Int.cast_ofNat_Int, Int.zero_add,
      segments_parts earlier later left right last several, bind, Except.bind, totalWidth_rowSegments,
      marker_natCast wide]
    exact congrArg Except.ok filled

/-! ### Ranges of a text -/

/-- Marking the middle one of three parts of a text covers it and leaves the others as they are. -/
theorem mark_parts (source : Option String) (before : Text) {region : Text} (after : Text)
    (wide : 2 ≤ width region) :
    mark source (before ++ region ++ after).lines
        ((before ++ region ++ after).position before.length)
        ((before ++ region ++ after).position (before.length + region.length)) =
      .ok (before ++ cover region ++ after).lines := by
  obtain ⟨earlier, left, hb⟩ := exists_last_line before
  obtain ⟨right, later, ha⟩ := exists_first_line after
  obtain ⟨rest, last, hr⟩ := exists_last_line region
  have enough : width region ≤ (ink (width region)).length := Nat.le_of_eq (length_ink wide).symm
  have full : width region = (rest ++ [last]).flatten.length := by rw [← hr, length_flatten_lines]
  rw [position_parts_start hb region after, position_parts_stop hb hr after, lines_parts hb ha region,
    lines_parts hb ha (cover region), cover, lines_overlay (newline_not_mem_ink _) enough, hr, full]
  rw [full] at wide
  exact mark_spliced source earlier later rest left last right wide

/-- A range that ends in front of its start has no room for a marker. -/
theorem mark_reversed {text : Text} {buffer : Buffer} (source : Option String) {start stop : Nat}
    (reversed : stop < start) (inside : start ≤ text.length)
    (rows : buffer.length = text.lines.length) :
    ∃ width, mark source buffer (text.position start) (text.position stop) =
      .error (.violation ⟨.markerWidth width, .ofPosition source (text.position start)⟩) := by
  have less := (position_lt_iff text).mpr reversed
  have different : text.position start ≠ text.position stop := by
    intro same
    have := position_inj same
    omega
  rw [Position.lt_iff] at less
  rw [mark, if_neg different]
  by_cases oneLine : (text.position start).line = (text.position stop).line
  · obtain ⟨row, bounded, line⟩ := exists_row inside
    have found : row? buffer (text.position start).line = .ok row := by
      rw [row?, line, Int.add_sub_cancel, index?_natCast (by omega)]
    have narrow : (text.position stop).column - (text.position start).column < minMarkerWidth := by
      simp only [minMarkerWidth]
      omega
    refine ⟨(text.position stop).column - (text.position start).column, ?_⟩
    rw [if_pos oneLine]
    simp only [markLine, found, bind, Except.bind, marker, if_pos narrow, fault]
  · have noRows : (text.position stop).line + 1 - (text.position start).line ≤ 0 := by omega
    refine ⟨0, ?_⟩
    rw [if_neg oneLine]
    simp only [markLines, segments, lineNumbers, Int.toNat_of_nonpos noRows]
    rfl

end Phrasebook.Mask
