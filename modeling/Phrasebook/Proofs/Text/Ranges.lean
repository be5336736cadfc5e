import Phrasebook.Proofs.Text.Resolver

/-!
# Ranges asked for in turn

A resolver keeps how far it has come, so an answer could depend on the ranges before it.
`answers_stateless` shows that only refusals do: a range is refused if it is reversed or starts in
front of a newline that an earlier range has passed, and every other range gets the positions that a
fresh resolver gives.
-/

namespace Phrasebook

namespace Text

/-! ### Positions of any offset -/

/-- The newlines of a text in front of an offset, which may lie outside of the text. -/
def newlinesBefore (text : Text) (offset : Int) : List Nat :=
  text.newlines.filter fun newline : Nat => (newline : Int) < offset

/-- The position of an offset in a block of text that starts at a line and a column. The offset may
lie outside of the block. -/
def placeOf (text : Text) (line column offset : Int) : Position where
  line := line + (text.newlinesBefore offset).length
  column := match (text.newlinesBefore offset).getLast? with
    | none => offset + column
    | some newline => offset - newline - 1

theorem nearest_mono (text : Text) {first second : Int} (forward : first ≤ second) :
    text.nearest first ≤ text.nearest second := by
  unfold nearest
  omega

theorem newlinesBefore_eq (text : Text) (offset : Int) :
    text.newlinesBefore offset = newlinesBetween text 0 (text.nearest offset) := by
  have cut := newlinesBetween_append text (Nat.zero_le (text.nearest offset)) (nearest_le text offset)
  rw [newlinesBefore, newlines_eq, ← cut, List.filter_append]
  have front : (newlinesBetween text 0 (text.nearest offset)).filter
      (fun newline : Nat => (newline : Int) < offset) = newlinesBetween text 0 (text.nearest offset) := by
    apply List.filter_eq_self.mpr
    intro newline member
    obtain ⟨isNewline, -, less⟩ := mem_newlinesBetween.mp member
    exact decide_eq_true ((lt_nearest_iff (lt_length_of_mem_newlines isNewline) offset).mp less)
  have behind : (newlinesBetween text (text.nearest offset) text.length).filter
      (fun newline : Nat => (newline : Int) < offset) = [] := by
    apply List.filter_eq_nil_iff.mpr
    intro newline member less
    obtain ⟨-, notLess, inside⟩ := mem_newlinesBetween.mp member
    have := (lt_nearest_iff inside offset).mpr (of_decide_eq_true less)
    omega
  rw [front, behind, List.append_nil]

/-- Newlines in front of an offset come one after the other. -/
theorem newlinesBetween_ascending (text : Text) (start stop : Nat) :
    (newlinesBetween text start stop).Pairwise (· < ·) :=
  List.Pairwise.filter _ List.pairwise_lt_range'

theorem le_getLast_newlinesBetween {text : Text} {start stop newline last : Nat}
    (member : newline ∈ newlinesBetween text start stop)
    (isLast : (newlinesBetween text start stop).getLast? = some last) : newline ≤ last := by
  obtain ⟨front, parts⟩ := List.getLast?_eq_some_iff.mp isLast
  have ascending := newlinesBetween_ascending text start stop
  rw [parts] at member ascending
  rcases List.mem_append.mp member with earlier | here
  · exact Nat.le_of_lt ((List.pairwise_append.mp ascending).2.2 newline earlier last (by simp))
  · exact Nat.le_of_eq (List.mem_singleton.mp here)

/-- Offsets in order have positions in order. -/
theorem placeOf_not_lt (text : Text) (line column : Int) {start stop : Int} (forward : start ≤ stop) :
    ¬text.placeOf line column stop < text.placeOf line column start := by
  have cut := newlinesBetween_append text (Nat.zero_le _) (nearest_mono text forward)
  rw [← newlinesBefore_eq, ← newlinesBefore_eq] at cut
  rw [Position.lt_iff]
  unfold placeOf
  cases between : newlinesBetween text (text.nearest start) (text.nearest stop) with
  | nil =>
    rw [between, List.append_nil] at cut
    rw [← cut]
    cases (text.newlinesBefore start).getLast? with
    | none =>
      simp only
      omega
    | some newline =>
      simp only
      omega
  | cons newline rest =>
    have longer : (text.newlinesBefore start).length < (text.newlinesBefore stop).length := by
      rw [← cut, between]
      simp
    simp only
    omega

end Text

namespace Resolver

open Text

/-! ### One range -/

section One

variable {text : Text} {offset : Nat} (line column : Int)

/-- The position behind the last newline passed is the one that the text says, if no newline was
passed that the offset lies in front of. -/
theorem here_reached {place : Int} (clear : ∀ newline ∈ newlinesBetween text 0 offset, (newline : Int) < place) :
    (reached text line column (max offset (text.nearest place))).here place =
      text.placeOf line column place := by
  have same : newlinesBetween text 0 (max offset (text.nearest place)) = text.newlinesBefore place := by
    have cut := newlinesBetween_append text (Nat.zero_le (text.nearest place)) (Nat.le_max_right offset _)
    have noNewlines : newlinesBetween text (text.nearest place) (max offset (text.nearest place)) = [] := by
      apply List.eq_nil_iff_forall_not_mem.mpr
      intro newline member
      obtain ⟨isNewline, notLess, less⟩ := mem_newlinesBetween.mp member
      have passed := clear newline (mem_newlinesBetween.mpr ⟨isNewline, Nat.zero_le _, by omega⟩)
      have := (lt_nearest_iff (lt_length_of_mem_newlines isNewline) place).mpr passed
      omega
    rw [newlinesBefore_eq, ← cut, noNewlines, List.append_nil]
  unfold here reached placeOf
  rw [same, List.length_reverse, ← List.head?_reverse, Position.mk.injEq]
  refine ⟨Int.add_comm _ _, ?_⟩
  cases (text.newlinesBefore place).reverse <;> rfl

/-- What becomes of a range: it is reversed, it starts in front of the last newline passed, or its
ends get their positions and the resolver has come to the end of it. -/
theorem resolve_anywhere (inside : offset ≤ text.length) (start stop : Int) :
    (stop < start ∧ (reached text line column offset).resolve start stop = .error (.reversed start stop)) ∨
    (start ≤ stop ∧ ∃ newline, (newlinesBetween text 0 offset).getLast? = some newline ∧ start ≤ newline ∧
      (reached text line column offset).resolve start stop = .error (.behind start newline)) ∨
    (start ≤ stop ∧ (∀ newline ∈ newlinesBetween text 0 offset, (newline : Int) < start) ∧
      (reached text line column offset).resolve start stop =
        .ok (⟨text.placeOf line column start, text.placeOf line column stop⟩,
          reached text line column (max offset (text.nearest stop)))) := by
  by_cases reversed : stop < start
  · refine .inl ⟨reversed, ?_⟩
    rw [resolve, if_pos reversed]
  have forward : start ≤ stop := by omega
  have passed : (reached text line column offset).passed = (newlinesBetween text 0 offset).reverse := rfl
  have answer (clear : ∀ newline ∈ newlinesBetween text 0 offset, (newline : Int) < start) :
      ((⟨((reached text line column offset).advance start).here start,
          (((reached text line column offset).advance start).advance stop).here stop⟩ : Span),
        ((reached text line column offset).advance start).advance stop) =
      (⟨text.placeOf line column start, text.placeOf line column stop⟩,
        reached text line column (max offset (text.nearest stop))) := by
    have onward : max (max offset (text.nearest start)) (text.nearest stop) =
        max offset (text.nearest stop) := by
      have := nearest_mono text forward
      omega
    have atStart := here_reached line column clear
    have clearStop : ∀ newline ∈ newlinesBetween text 0 offset, (newline : Int) < stop := by
      intro newline member
      have := clear newline member
      omega
    have atStop := here_reached line column clearStop
    rw [advance_anywhere line column inside, advance_anywhere line column
      (max_le inside (nearest_le text start)), onward, atStart, atStop]
  refine .inr ?_
  rw [resolve, if_neg reversed, passed]
  cases last : (newlinesBetween text 0 offset).getLast? with
  | none =>
    have empty := List.getLast?_eq_none_iff.mp last
    refine .inr ⟨forward, by simp [empty], ?_⟩
    rw [← answer (by simp [empty]), empty]
    rfl
  | some newline =>
    obtain ⟨front, parts⟩ := List.getLast?_eq_some_iff.mp last
    have shown : (newlinesBetween text 0 offset).reverse = newline :: front.reverse := by
      rw [parts, List.reverse_concat]
    rw [shown]
    by_cases behind : start ≤ newline
    · refine .inl ⟨forward, newline, rfl, behind, ?_⟩
      simp only [if_pos behind]
    · have clear : ∀ other ∈ newlinesBetween text 0 offset, (other : Int) < start := by
        intro other member
        have := le_getLast_newlinesBetween member last
        omega
      refine .inr ⟨forward, clear, ?_⟩
      rw [← answer clear]
      simp only [if_neg behind]

/-- A resolver that has passed nothing refuses reversed ranges only. -/
theorem resolve_fresh (text : Text) {start stop : Int} (forward : start ≤ stop) :
    ∃ next, (ofText text line column).resolve start stop =
      .ok (⟨text.placeOf line column start, text.placeOf line column stop⟩, next) := by
  have noNewlines := newlinesBetween_self text 0
  rw [ofText_eq_reached]
  rcases resolve_anywhere line column (Nat.zero_le text.length) start stop with
    ⟨reversed, -⟩ | ⟨-, newline, isLast, -, -⟩ | ⟨-, -, resolved⟩
  · omega
  · rw [noNewlines] at isLast
    cases isLast
  · exact ⟨_, resolved⟩

/-- A range that goes on where the last one ended is not refused. -/
theorem resolve_adjacent {start stop further : Int} (inside : offset ≤ text.length)
    (clear : ∀ newline ∈ newlinesBetween text 0 offset, (newline : Int) < start) (forward : start ≤ stop)
    (onward : stop ≤ further) :
    ∃ next, (reached text line column (max offset (text.nearest stop))).resolve stop further =
      .ok (⟨text.placeOf line column stop, text.placeOf line column further⟩, next) := by
  rcases resolve_anywhere line column (max_le inside (nearest_le text stop)) stop further with
    ⟨reversed, -⟩ | ⟨-, newline, isLast, behind, -⟩ | ⟨-, -, resolved⟩
  · omega
  · -- Newlines passed before stand in front of `start`, those passed now in front of `stop`.
    obtain ⟨isNewline, -, passed⟩ := mem_newlinesBetween.mp (List.mem_of_getLast? isLast)
    have less : (newline : Int) < stop := by
      by_cases before : newline < offset
      · have := clear newline (mem_newlinesBetween.mpr ⟨isNewline, Nat.zero_le _, before⟩)
        omega
      · exact (lt_nearest_iff (lt_length_of_mem_newlines isNewline) stop).mp (by omega)
    omega
  · exact ⟨_, resolved⟩

end One

/-! ### Ranges in turn -/

/-- Asks a resolver for a range. A refusal leaves the resolver as it is. -/
def ask (resolver : Resolver) (range : Int × Int) : Except Misuse Span × Resolver :=
  match resolver.resolve range.1 range.2 with
  | .ok (span, next) => (.ok span, next)
  | .error misuse => (.error misuse, resolver)

/-- The answers to ranges asked for in turn. -/
def answers (resolver : Resolver) : List (Int × Int) → List (Except Misuse Span)
  | [] => []
  | range :: rest => (resolver.ask range).1 :: (resolver.ask range).2.answers rest

/-- The resolver after ranges asked for in turn. -/
def after (resolver : Resolver) (ranges : List (Int × Int)) : Resolver :=
  ranges.foldl (fun resolver range => (resolver.ask range).2) resolver

/-- The ranges that are not refused when they are asked for in turn. -/
def accepted (resolver : Resolver) : List (Int × Int) → List (Int × Int)
  | [] => []
  | range :: rest =>
    match resolver.ask range with
    | (.ok _, next) => range :: next.accepted rest
    | (.error _, next) => next.accepted rest

theorem answers_append (resolver : Resolver) (earlier later : List (Int × Int)) :
    resolver.answers (earlier ++ later) = resolver.answers earlier ++ (resolver.after earlier).answers later := by
  induction earlier generalizing resolver with
  | nil => rfl
  | cons range rest ih =>
    rw [List.cons_append, answers, answers, ih, List.cons_append]
    rfl

/-- How far into a text ranges reach. -/
def reach (text : Text) (ranges : List (Int × Int)) : Nat :=
  ranges.foldr (fun range reached => max (text.nearest range.2) reached) 0

theorem reach_cons (text : Text) (range : Int × Int) (ranges : List (Int × Int)) :
    reach text (range :: ranges) = max (text.nearest range.2) (reach text ranges) := rfl

theorem reach_le (text : Text) (ranges : List (Int × Int)) : reach text ranges ≤ text.length := by
  induction ranges with
  | nil => exact Nat.zero_le _
  | cons range rest ih => exact max_le (nearest_le text range.2) ih

theorem lt_reach_iff {text : Text} {newline : Nat} (member : newline ∈ text.newlines)
    (ranges : List (Int × Int)) :
    newline < reach text ranges ↔ ∃ last ∈ (ranges.map Prod.snd).max?, (newline : Int) < last := by
  have some_range : newline < reach text ranges ↔ ∃ range ∈ ranges, (newline : Int) < range.2 := by
    induction ranges with
    | nil => simp [reach]
    | cons range rest ih =>
      have here := lt_nearest_iff (lt_length_of_mem_newlines member) range.2
      rw [List.exists_mem_cons_iff, ← ih, ← here, reach_cons]
      omega
  rw [some_range]
  constructor
  · rintro ⟨range, isRange, less⟩
    have inEnds : range.2 ∈ ranges.map Prod.snd := List.mem_map_of_mem isRange
    obtain ⟨last, isLast⟩ := Option.isSome_iff_exists.mp (List.isSome_max?_of_mem inEnds)
    have := (List.max?_eq_some_iff.mp isLast).2 range.2 inEnds
    exact ⟨last, isLast, by omega⟩
  · rintro ⟨last, isLast, less⟩
    obtain ⟨range, isRange, rfl⟩ := List.mem_map.mp (List.max?_eq_some_iff.mp isLast).1
    exact ⟨range, isRange, less⟩

/-- A resolver has come as far as the ranges reach that were not refused. -/
theorem after_reached {text : Text} {offset : Nat} (line column : Int) (inside : offset ≤ text.length)
    (ranges : List (Int × Int)) :
    (reached text line column offset).after ranges =
      reached text line column
        (max offset (reach text ((reached text line column offset).accepted ranges))) := by
  induction ranges generalizing offset with
  | nil => simp [after, accepted, reach]
  | cons range rest ih =>
    have step : (reached text line column offset).after (range :: rest) =
      ((reached text line column offset).ask range).2.after rest := rfl
    rw [step, accepted]
    rcases resolve_anywhere line column inside range.1 range.2 with
      ⟨-, refused⟩ | ⟨-, newline, -, -, refused⟩ | ⟨-, -, resolved⟩
    · simp only [ask, refused]
      exact ih inside
    · simp only [ask, refused]
      exact ih inside
    · simp only [ask, resolved]
      rw [ih (max_le inside (nearest_le text range.2)), reach_cons, Nat.max_assoc]

section Fresh

variable (text : Text) (line column : Int)

theorem after_ofText (earlier : List (Int × Int)) :
    (ofText text line column).after earlier =
      reached text line column (reach text ((ofText text line column).accepted earlier)) := by
  rw [ofText_eq_reached, after_reached line column (Nat.zero_le _), Nat.zero_max]

/-- What becomes of a range asked for after others: it is refused and changes nothing, or its ends get
their positions, and so do those of a range that goes on where it ends. -/
theorem ask_after (earlier : List (Int × Int)) (start stop : Int) :
    ((stop < start ∨ ∃ newline ∈ text.newlines, start ≤ newline ∧
        newline < reach text ((ofText text line column).accepted earlier)) ∧
      ∃ misuse, ((ofText text line column).after earlier).ask (start, stop) =
        (.error misuse, (ofText text line column).after earlier)) ∨
    (start ≤ stop ∧ (∀ newline ∈ text.newlines,
        newline < reach text ((ofText text line column).accepted earlier) → (newline : Int) < start) ∧
      ∃ next, ((ofText text line column).after earlier).ask (start, stop) =
          (.ok ⟨text.placeOf line column start, text.placeOf line column stop⟩, next) ∧
        ∀ further, stop ≤ further → (next.ask (stop, further)).1 =
          .ok ⟨text.placeOf line column stop, text.placeOf line column further⟩) := by
  have inside := reach_le text ((ofText text line column).accepted earlier)
  rw [after_ofText]
  rcases resolve_anywhere line column inside start stop with
    ⟨reversed, refused⟩ | ⟨-, newline, isLast, behind, refused⟩ | ⟨forward, clear, resolved⟩
  · exact .inl ⟨.inl reversed, .reversed start stop, by simp only [ask, refused]⟩
  · obtain ⟨isNewline, -, passed⟩ := mem_newlinesBetween.mp (List.mem_of_getLast? isLast)
    exact .inl ⟨.inr ⟨newline, isNewline, behind, passed⟩, .behind start newline, by simp only [ask, refused]⟩
  · refine .inr ⟨forward, ?_, _, by simp only [ask, resolved]; rfl, ?_⟩
    · intro newline isNewline passed
      exact clear newline (mem_newlinesBetween.mpr ⟨isNewline, Nat.zero_le _, passed⟩)
    · intro further onward
      obtain ⟨next, adjacent⟩ := resolve_adjacent line column inside clear forward onward
      simp only [ask, adjacent]

/-- Among ranges asked for in turn, a range is refused if and only if it is reversed or starts in front
of a newline that lies in front of the largest end of the ranges accepted before it. A refusal changes no
later answer. Every other range gets the span that a fresh resolver gives it, whose ends are the positions
of the two offsets; with a range that goes on where it ends it reaches over the span of both. -/
theorem answers_stateless (earlier later : List (Int × Int)) (start stop : Int) :
    ∃ answer rest,
      (ofText text line column).answers (earlier ++ (start, stop) :: later) =
        (ofText text line column).answers earlier ++ answer :: rest ∧
      ((∃ misuse, answer = .error misuse) ↔ stop < start ∨ ∃ newline ∈ text.newlines, start ≤ newline ∧
        ∃ last ∈ (((ofText text line column).accepted earlier).map Prod.snd).max?, (newline : Int) < last) ∧
      ((∃ misuse, answer = .error misuse) → (ofText text line column).answers (earlier ++ later) =
        (ofText text line column).answers earlier ++ rest) ∧
      ∀ span, answer = .ok span →
        span = ⟨text.placeOf line column start, text.placeOf line column stop⟩ ∧ ¬span.stop < span.start ∧
        (∃ next, (ofText text line column).resolve start stop = .ok (span, next)) ∧
        ∀ further, stop ≤ further → ∃ adjacent next,
          (ofText text line column).answers (earlier ++ [(start, stop), (stop, further)]) =
            (ofText text line column).answers earlier ++ [.ok span, .ok adjacent] ∧
          span.stop = adjacent.start ∧
          (ofText text line column).resolve start further = .ok (⟨span.start, adjacent.stop⟩, next) := by
  have inTurn (others : List (Int × Int)) := answers_append (ofText text line column) earlier others
  refine ⟨_, _, inTurn _, ?_⟩
  -- The largest end says how far the ranges reach, as far as newlines are concerned.
  have passed : (∃ newline ∈ text.newlines, start ≤ newline ∧
        newline < reach text ((ofText text line column).accepted earlier)) ↔
      ∃ newline ∈ text.newlines, start ≤ newline ∧
        ∃ last ∈ (((ofText text line column).accepted earlier).map Prod.snd).max?, (newline : Int) < last := by
    constructor
    · rintro ⟨newline, isNewline, behind, less⟩
      exact ⟨newline, isNewline, behind, (lt_reach_iff isNewline _).mp less⟩
    · rintro ⟨newline, isNewline, behind, less⟩
      exact ⟨newline, isNewline, behind, (lt_reach_iff isNewline _).mpr less⟩
  rw [← passed]
  rcases ask_after text line column earlier start stop with
    ⟨refusal, misuse, refused⟩ | ⟨forward, clear, next, accepted, onward⟩
  · rw [refused, inTurn]
    refine ⟨iff_of_true ⟨misuse, rfl⟩ refusal, fun _ => rfl, fun span answered => ?_⟩
    cases answered
  · have notRefused : ¬(stop < start ∨ ∃ newline ∈ text.newlines, start ≤ newline ∧
        newline < reach text ((ofText text line column).accepted earlier)) := by
      rintro (reversed | ⟨newline, isNewline, behind, less⟩)
      · omega
      · have := clear newline isNewline less
        omega
    rw [accepted]
    refine ⟨iff_of_false (by simp) notRefused, by simp, ?_⟩
    rintro span ⟨⟩
    refine ⟨rfl, placeOf_not_lt text line column forward, resolve_fresh line column text forward, ?_⟩
    intro further stopLe
    obtain ⟨_, whole⟩ := resolve_fresh line column text (Int.le_trans forward stopLe)
    refine ⟨⟨text.placeOf line column stop, text.placeOf line column further⟩, _, ?_, rfl, whole⟩
    rw [inTurn, answers, accepted, answers, onward further stopLe]
    rfl

end Fresh

/-- The second range starts on the newline that the first one has passed. -/
example : (ofText "a\nb".toList 1 0).answers [(0, 2), (1, 3), (2, 3)] =
    [.ok ⟨⟨1, 0⟩, ⟨2, 0⟩⟩, .error (.behind 1 1), .ok ⟨⟨2, 0⟩, ⟨2, 1⟩⟩] := by
  decide +kernel

end Resolver

end Phrasebook
