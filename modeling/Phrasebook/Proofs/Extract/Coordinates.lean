import Phrasebook.Proofs.Extract.Texts
import Phrasebook.Proofs.Text.Excerpt

/-!
# Positions, offsets and slices

Positions can be looked up in a table of line starts, counted by a resolver that passes one newline after the
other, and turned back into text by cutting lines. `coordinates_agree` shows that all of these mean the same
at every offset of a text, and that a resolver may start anywhere in front of the range.
-/

namespace Phrasebook

namespace Text

/-! ### The table of lines -/

/-- The offsets at which the lines of a text start. -/
def lineStarts (text : Text) : List Nat := 0 :: text.newlines.map (· + 1)

/-- The index in an ascending list behind all elements that are at most `value`, searched for from `low` up to
`high` by halving. -/
def bisect (xs : List Nat) (value low high : Nat) : Nat :=
  if low < high then
    let middle := (low + high) / 2
    if value < xs.getD middle 0 then bisect xs value low middle else bisect xs value (middle + 1) high
  else low
termination_by high - low

/-- The position of an offset, found in the table of line starts. -/
def find (text : Text) (offset : Nat) : Position :=
  let line := bisect text.lineStarts offset 0 text.lineStarts.length
  ⟨line, offset - text.lineStarts.getD (line - 1) 0⟩

/-- The offset of a position, read off the table of line starts, if there is a line with its number. -/
def offset? (text : Text) (position : Position) : Option Int :=
  (index? text.lineStarts.length (position.line - 1)).map fun row =>
    text.lineStarts.getD row 0 + position.column

/-- The search ends between the elements that are at most the value and those that are larger. -/
theorem bisect_append {front back : List Nat} {value : Nat} (upTo : ∀ x ∈ front, x ≤ value)
    (beyond : ∀ x ∈ back, value < x) {low high : Nat} (lowLe : low ≤ front.length) (leHigh : front.length ≤ high)
    (inside : high ≤ (front ++ back).length) : bisect (front ++ back) value low high = front.length := by
  -- The end of `front` stays between the two bounds while they come together.
  induction size : high - low using Nat.strongRecOn generalizing low high with
  | ind size ih =>
    rw [bisect]
    by_cases more : low < high
    · rw [if_pos more]
      simp only
      generalize isMiddle : (low + high) / 2 = middle
      by_cases inFront : middle < front.length
      · have element : (front ++ back).getD middle 0 = front[middle] := by
          rw [List.getD_eq_getElem?_getD, List.getElem?_append_left inFront, List.getElem?_eq_getElem inFront]
          rfl
        have small := upTo _ (List.getElem_mem inFront)
        rw [element, if_neg (Nat.not_lt_of_le small)]
        exact ih _ (by omega) (by omega) leHigh inside rfl
      · have inBack : middle - front.length < back.length := by
          rw [List.length_append] at inside
          omega
        have element : (front ++ back).getD middle 0 = back[middle - front.length] := by
          rw [List.getD_eq_getElem?_getD, List.getElem?_append_right (by omega), List.getElem?_eq_getElem inBack]
          rfl
        have large := beyond _ (List.getElem_mem inBack)
        rw [element, if_pos large]
        exact ih _ (by omega) lowLe (by omega) (by omega) rfl
    · rw [if_neg more]
      omega

/-- The starts of the lines up to the one of an offset, and those behind it. -/
theorem lineStarts_split (text : Text) {offset : Nat} (inside : offset ≤ text.length) :
    text.lineStarts = 0 :: (newlinesBetween text 0 offset).map (· + 1) ++
      (newlinesBetween text offset text.length).map (· + 1) := by
  rw [lineStarts, newlines_eq, ← newlinesBetween_append text (Nat.zero_le offset) inside, List.map_append]
  rfl

/-- The line of an offset is found by the number of newlines in front of it, and starts behind the last of
them. -/
theorem bisect_lineStarts (text : Text) {offset : Nat} (inside : offset ≤ text.length) :
    bisect text.lineStarts offset 0 text.lineStarts.length = (newlinesBetween text 0 offset).length + 1 := by
  have upTo : ∀ start ∈ 0 :: (newlinesBetween text 0 offset).map (· + 1), start ≤ offset := by
    rw [List.forall_mem_cons, List.forall_mem_map]
    refine ⟨Nat.zero_le _, fun newline member => ?_⟩
    exact (mem_newlinesBetween.mp member).2.2
  have beyond : ∀ start ∈ (newlinesBetween text offset text.length).map (· + 1), offset < start := by
    rw [List.forall_mem_map]
    intro newline member
    exact Nat.lt_succ_of_le (mem_newlinesBetween.mp member).2.1
  rw [lineStarts_split text inside, bisect_append upTo beyond (Nat.zero_le _) (by simp) (Nat.le_refl _)]
  simp

theorem getD_lineStarts (text : Text) {offset : Nat} (inside : offset ≤ text.length) :
    text.lineStarts.getD (newlinesBetween text 0 offset).length 0 =
      match (newlinesBetween text 0 offset).reverse with
      | [] => 0
      | newline :: _ => newline + 1 := by
  rw [lineStarts_split text inside]
  rcases List.eq_nil_or_concat' (newlinesBetween text 0 offset) with empty | ⟨earlier, newline, isLast⟩
  · simp [empty]
  · rw [isLast, List.reverse_concat]
    simp

/-- The position that is found in the table is the one that counting gives. -/
theorem find_eq_position {text : Text} {offset : Nat} (inside : offset ≤ text.length) :
    text.find offset = text.position offset := by
  have place := position_block [] text [] inside
  simp only [List.nil_append, List.append_nil, List.length_nil, Nat.zero_add, position_zero] at place
  rw [find, bisect_lineStarts text inside, Nat.add_sub_cancel, getD_lineStarts text inside, place, Resolver.here]
  rw [List.length_reverse]
  cases shown : (newlinesBetween text 0 offset).reverse with
  | nil => simp
  | cons newline rest =>
    simp only [Position.mk.injEq]
    omega

/-- The table takes the position of an offset back to the offset. -/
theorem offset?_find {text : Text} {offset : Nat} (inside : offset ≤ text.length) :
    text.offset? (text.find offset) = some (offset : Int) := by
  have row : index? text.lineStarts.length (((newlinesBetween text 0 offset).length + 1 : Nat) - 1 : Int) =
      some (newlinesBetween text 0 offset).length := by
    have bounded : (newlinesBetween text 0 offset).length < text.lineStarts.length := by
      rw [lineStarts_split text inside, List.length_append, List.length_cons, List.length_map]
      omega
    rw [Int.natCast_add, Int.natCast_one, Int.add_sub_cancel, index?_natCast bounded]
  rw [offset?, find, bisect_lineStarts text inside, Nat.add_sub_cancel, row, Option.map_some]
  simp only [Option.some.injEq]
  omega

end Text

/-! ### All of them -/

namespace Extract

open Text

/-- The ways to place a range of a text agree. The positions that are found in the table of line starts grow
strictly with the offsets and lead back to them; they are the ends of the span of the range and what a resolver
of the text answers, and so does a resolver of any part of the text around the range that starts at the
position of this part. Cut out of the lines of the text, the span gives back the characters of the range. -/
theorem coordinates_agree (text : Text) {start stop : Nat} (forward : start ≤ stop) (inside : stop ≤ text.length) :
    text.span ⟨start, stop⟩ = ⟨text.find start, text.find stop⟩ ∧
      (start < stop → text.find start < text.find stop) ∧
      text.offset? (text.find start) = some (start : Int) ∧ text.offset? (text.find stop) = some (stop : Int) ∧
      text.offset (text.find start) = start ∧ text.offset (text.find stop) = stop ∧
      (∃ next, (Resolver.ofText text 1 0).resolve start stop = .ok (text.span ⟨start, stop⟩, next)) ∧
      (∀ first last : Nat, first ≤ start → stop ≤ last → last ≤ text.length →
        ∃ next, (Resolver.ofText (text.slice first last) (text.find first).line (text.find first).column).resolve
          ((start : Int) - first) ((stop : Int) - first) = .ok (text.span ⟨start, stop⟩, next)) ∧
      sourceSlice? text.lines (text.span ⟨start, stop⟩) = some (text.slice start stop) ∧
      excerpt text.lines (text.find start) (text.find stop) = text.slice start stop := by
  have startInside := Nat.le_trans forward inside
  have atStart := find_eq_position startInside
  have atStop := find_eq_position inside
  have run (first last : Nat) (before : first ≤ start) (behind : stop ≤ last) (bounded : last ≤ text.length) :
      ∃ next, (Resolver.ofText (text.slice first last) (text.position first).line
          (text.position first).column).resolve ((start : Int) - first) ((stop : Int) - first) =
        .ok (text.span ⟨start, stop⟩, next) := by
    have whole := take_slice_drop text (Nat.le_trans before (Nat.le_trans forward behind))
    have length : (text.take first).length = first := by
      rw [List.length_take]
      omega
    have inBlock : stop - first ≤ (text.slice first last).length := by
      rw [length_slice text bounded]
      omega
    have resolved := @Resolver.resolve_reached (text.take first) (text.slice first last) (text.drop last) _ _ _
      (Nat.zero_le (start - first)) (Nat.sub_le_sub_right forward first) inBlock
    rw [whole, length, Nat.add_sub_cancel' before, Nat.add_sub_cancel' (Nat.le_trans before forward),
      ← Resolver.ofText_eq_reached, Int.natCast_sub before, Int.natCast_sub (Nat.le_trans before forward)] at resolved
    exact ⟨_, resolved⟩
  refine ⟨by rw [atStart, atStop]; rfl, ?_, offset?_find startInside, offset?_find inside, ?_, ?_, ?_, ?_,
    sourceSlice?_span forward inside, ?_⟩
  · rw [atStart, atStop]
    exact position_lt
  · rw [atStart, offset_position]
  · rw [atStop, offset_position]
  · have resolved := run 0 text.length (Nat.zero_le _) inside (Nat.le_refl _)
    rw [slice_zero_length, position_zero] at resolved
    simpa using resolved
  · intro first last before behind bounded
    rw [find_eq_position (Nat.le_trans before startInside)]
    exact run first last before behind bounded
  · rw [atStart, atStop, excerpt_span forward inside]

/-- From the first of two newlines up to the end of the text, in the text and in its part behind one letter. -/
theorem coordinates_agree_newlines :
    2 ≤ 6 ∧ 6 ≤ "ab\n\ncd".toList.length ∧
      Text.find "ab\n\ncd".toList 2 = ⟨1, 2⟩ ∧ Text.find "ab\n\ncd".toList 6 = ⟨3, 2⟩ ∧
      (∃ next, (Resolver.ofText "b\n\ncd".toList 1 1).resolve 1 5 = .ok (⟨⟨1, 2⟩, ⟨3, 2⟩⟩, next)) ∧
      excerpt ["ab".toList, [], "cd".toList] ⟨1, 2⟩ ⟨3, 2⟩ = "\n\ncd".toList := by
  have atStart : Text.find "ab\n\ncd".toList 2 = ⟨1, 2⟩ := (find_eq_position (by decide)).trans (by decide)
  have atStop : Text.find "ab\n\ncd".toList 6 = ⟨3, 2⟩ := (find_eq_position (by decide)).trans (by decide)
  have atFirst : Text.find "ab\n\ncd".toList 1 = ⟨1, 1⟩ := (find_eq_position (by decide)).trans (by decide)
  have forward : 2 ≤ 6 := by decide
  have inside : 6 ≤ "ab\n\ncd".toList.length := by decide
  obtain ⟨ends, -, -, -, -, -, -, parts, -, cut⟩ := coordinates_agree "ab\n\ncd".toList forward inside
  have part := parts 1 6 (by decide) (by decide) (by decide)
  rw [ends, atStart, atStop, atFirst] at part
  rw [atStart, atStop] at cut
  exact ⟨forward, inside, atStart, atStop, part, cut⟩

end Extract

end Phrasebook
