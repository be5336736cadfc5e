import Phrasebook.Text.Resolver
import Phrasebook.Proofs.Text.Lines

/-!
Resolving ranges of a block of text. The resolver of a block knows the newlines in front of an offset
and those behind it; asked for ranges in order, it gives the positions that the ranges have in the
text around the block.
-/

namespace Phrasebook

namespace Text

/-! ### Newlines -/

/-- The offsets from `start` on and in front of `stop` at which newlines stand. -/
def newlinesBetween (text : Text) (start stop : Nat) : List Nat :=
  (List.range' start (stop - start)).filter fun index => text[index]? = some '\n'

theorem newlinesBetween_append (text : Text) {start middle stop : Nat} (first : start ≤ middle)
    (second : middle ≤ stop) :
    newlinesBetween text start middle ++ newlinesBetween text middle stop =
      newlinesBetween text start stop := by
  have count : stop - start = (middle - start) + (stop - middle) := by omega
  have shift : start + (middle - start) = middle := by omega
  rw [newlinesBetween, newlinesBetween, newlinesBetween, ← List.filter_append, count,
    ← List.range'_append_1, shift]

theorem newlinesBetween_one (text : Text) (offset : Nat) :
    newlinesBetween text offset (offset + 1) =
      if text[offset]? = some '\n' then [offset] else [] := by
  have count : offset + 1 - offset = 1 := by omega
  rw [newlinesBetween, count, List.range'_one]
  simp only [List.filter_cons, List.filter_nil, decide_eq_true_eq]

theorem newlinesBetween_self (text : Text) (offset : Nat) : newlinesBetween text offset offset = [] := by
  rw [newlinesBetween, Nat.sub_self]
  rfl

theorem newlines_go_length (before rest : Text) :
    newlines.go before.length rest =
      newlinesBetween (before ++ rest) before.length (before ++ rest).length := by
  induction rest generalizing before with
  | nil => rw [List.append_nil, newlinesBetween_self, newlines.go]
  | cons c rest ih =>
    have tail := ih (before ++ [c])
    have here : (before ++ c :: rest)[before.length]? = some c := by simp
    rw [List.append_assoc, List.singleton_append, List.length_append, List.length_singleton] at tail
    rw [← newlinesBetween_append _ (Nat.le_succ before.length) (by simp), newlinesBetween_one, here,
      newlines.go, tail]
    by_cases newline : c = '\n'
    · simp [newline]
    · simp [newline]

theorem newlines_eq (text : Text) : text.newlines = newlinesBetween text 0 text.length :=
  newlines_go_length [] text

theorem mem_newlines {text : Text} {newline : Nat} :
    newline ∈ text.newlines ↔ text[newline]? = some '\n' := by
  rw [newlines_eq, newlinesBetween, List.mem_filter, List.mem_range'_1, decide_eq_true_eq]
  constructor
  · intro member
    exact member.2
  · intro here
    obtain ⟨inside, -⟩ := List.getElem?_eq_some_iff.mp here
    exact ⟨by omega, here⟩

theorem mem_newlinesBetween {text : Text} {start stop newline : Nat} :
    newline ∈ newlinesBetween text start stop ↔
      newline ∈ text.newlines ∧ start ≤ newline ∧ newline < stop := by
  rw [mem_newlines, newlinesBetween, List.mem_filter, List.mem_range'_1, decide_eq_true_eq]
  constructor
  · rintro ⟨range, here⟩
    exact ⟨here, by omega⟩
  · rintro ⟨here, range⟩
    exact ⟨by omega, here⟩

theorem lt_length_of_mem_newlines {text : Text} {newline : Nat} (member : newline ∈ text.newlines) :
    newline < text.length :=
  (List.getElem?_eq_some_iff.mp (mem_newlines.mp member)).1

/-- The offset of a text that is nearest to an integer. -/
def nearest (text : Text) (offset : Int) : Nat := min offset.toNat text.length

theorem nearest_le (text : Text) (offset : Int) : text.nearest offset ≤ text.length :=
  Nat.min_le_right _ _

theorem lt_nearest_iff {text : Text} {newline : Nat} (inside : newline < text.length) (offset : Int) :
    newline < text.nearest offset ↔ (newline : Int) < offset := by
  unfold nearest
  omega

/-- The position of an offset of a block in the text around the block: the newlines of the block in
front of the offset and the place of the last one say how far it is from the start of the block. -/
theorem position_block (before block after : Text) {offset : Nat} (inside : offset ≤ block.length) :
    (before ++ block ++ after).position (before.length + offset) =
      Resolver.here
        ⟨((before ++ block ++ after).position before.length).line,
          ((before ++ block ++ after).position before.length).column,
          (newlinesBetween block 0 offset).reverse, newlinesBetween block offset block.length⟩
        offset := by
  induction offset with
  | zero => simp [newlinesBetween_self, Resolver.here]
  | succ offset ih =>
    have here : (before ++ block ++ after)[before.length + offset]? = block[offset]? := by
      have less : offset < block.length := by omega
      simp [List.getElem?_append, less]
    rw [← Nat.add_assoc, position_succ, ih (by omega), here,
      ← newlinesBetween_append block (Nat.zero_le offset) (Nat.le_succ offset), newlinesBetween_one]
    split
    · rw [List.reverse_append]
      simp only [Resolver.here, List.reverse_singleton, List.singleton_append, List.length_cons,
        Position.mk.injEq]
      omega
    · rw [List.append_nil]
      simp only [Resolver.here, Position.mk.injEq, true_and]
      cases (newlinesBetween block 0 offset).reverse with
      | nil =>
        simp only
        omega
      | cons newline rest =>
        simp only
        omega

end Text

/-! ### Resolving -/

namespace Resolver

open Text

/-- The resolver of a block at a position, with the newlines in front of an offset passed. -/
def reached (block : Text) (line column : Int) (offset : Nat) : Resolver :=
  ⟨line, column, (newlinesBetween block 0 offset).reverse, newlinesBetween block offset block.length⟩

theorem ofText_eq_reached (block : Text) (line column : Int) :
    ofText block line column = reached block line column 0 := by
  rw [ofText, reached, newlines_eq, newlinesBetween_self]
  rfl

theorem advance_go_append {offset : Int} {passing ahead : List Nat} (passed : List Nat)
    (before : ∀ newline ∈ passing, (newline : Int) < offset)
    (behind : ∀ newline ∈ ahead, ¬(newline : Int) < offset) :
    advance.go offset passed (passing ++ ahead) = (passing.reverse ++ passed, ahead) := by
  induction passing generalizing passed with
  | nil =>
    cases ahead with
    | nil => rfl
    | cons newline rest =>
      rw [List.nil_append, advance.go, if_neg (behind newline List.mem_cons_self)]
      rfl
  | cons newline rest ih =>
    obtain ⟨here, later⟩ := List.forall_mem_cons.mp before
    rw [List.cons_append, advance.go, if_pos here, ih _ later]
    simp

/-- A resolver that has come to an offset goes on to a later one, and back to none. -/
theorem advance_anywhere {text : Text} {offset : Nat} (line column : Int) (inside : offset ≤ text.length)
    (next : Int) :
    (reached text line column offset).advance next =
      reached text line column (max offset (text.nearest next)) := by
  have bounded : max offset (text.nearest next) ≤ text.length := max_le inside (nearest_le text next)
  have forward : offset ≤ max offset (text.nearest next) := Nat.le_max_left _ _
  have before : ∀ newline ∈ newlinesBetween text offset (max offset (text.nearest next)),
      (newline : Int) < next := by
    intro newline member
    obtain ⟨isNewline, notLess, less⟩ := mem_newlinesBetween.mp member
    exact (lt_nearest_iff (lt_length_of_mem_newlines isNewline) next).mp (by omega)
  have behind : ∀ newline ∈ newlinesBetween text (max offset (text.nearest next)) text.length,
      ¬(newline : Int) < next := by
    intro newline member less
    obtain ⟨isNewline, notLess, -⟩ := mem_newlinesBetween.mp member
    have := (lt_nearest_iff (lt_length_of_mem_newlines isNewline) next).mpr less
    omega
  have step := advance_go_append (newlinesBetween text 0 offset).reverse before behind
  rw [newlinesBetween_append text forward bounded, ← List.reverse_append,
    newlinesBetween_append text (Nat.zero_le offset) forward] at step
  simp only [advance, reached, step]

theorem advance_reached {block : Text} {offset next : Nat} (line column : Int)
    (forward : offset ≤ next) (inside : next ≤ block.length) :
    (reached block line column offset).advance next = reached block line column next := by
  have nearest : block.nearest next = next := by
    rw [Text.nearest, Int.toNat_natCast, Nat.min_eq_left inside]
  rw [advance_anywhere line column (Nat.le_trans forward inside), nearest, Nat.max_eq_right forward]

/-- A range behind the last one is not refused, and its ends get their positions in the text around
the block. -/
theorem resolve_reached {before block after : Text} {offset start stop : Nat}
    (inOrder : offset ≤ start) (forward : start ≤ stop) (inside : stop ≤ block.length) :
    (reached block ((before ++ block ++ after).position before.length).line
        ((before ++ block ++ after).position before.length).column offset).resolve start stop =
      .ok ((before ++ block ++ after).span ⟨before.length + start, before.length + stop⟩,
        reached block ((before ++ block ++ after).position before.length).line
          ((before ++ block ++ after).position before.length).column stop) := by
  generalize place : (before ++ block ++ after).position before.length = position
  have notReversed : ¬(stop : Int) < start := by omega
  have answer : (⟨(reached block position.line position.column start).here start,
      (reached block position.line position.column stop).here stop⟩ : Span) =
        (before ++ block ++ after).span ⟨before.length + start, before.length + stop⟩ := by
    rw [Text.span, position_block before block after (Nat.le_trans forward inside),
      position_block before block after inside, place]
    rfl
  rw [resolve, if_neg notReversed]
  simp only [advance_reached _ _ inOrder (Nat.le_trans forward inside),
    advance_reached _ _ forward inside, answer]
  split
  · next newline rest passed =>
    have member : newline ∈ newlinesBetween block 0 offset := by
      have isPassed : (newlinesBetween block 0 offset).reverse = newline :: rest := passed
      rw [← List.mem_reverse, isPassed]
      exact List.mem_cons_self
    obtain ⟨-, -, less⟩ := mem_newlinesBetween.mp member
    rw [if_neg (by omega)]
  · rfl

end Resolver

end Phrasebook
