import Phrasebook.Markup.TextRun
import Phrasebook.Proofs.Text.Lines
import Phrasebook.Proofs.Template.Call

/-!
Where runs of text start and stop. Markup starts at an opening mark and ends with a closing mark, so a
run starts at the start of the text, or behind a closing mark or an ampersand, and stops at an opening
mark or at the end of the text. Runs stand one behind the other.
-/

namespace Phrasebook.Markup

open Text

/-! ### Ends of constructs -/

/-- The text ends with a closing mark or an ampersand, blanks left aside. -/
def EndsMark (text : Text) : Prop :=
  ∃ front mark blanks, (mark = '>' ∨ mark = '&') ∧ (∀ c ∈ blanks, isBlank c = true) ∧
    text = front ++ mark :: blanks

theorem EndsMark.append (before : Text) {text : Text} (h : EndsMark text) :
    EndsMark (before ++ text) := by
  obtain ⟨front, mark, blanks, isMark, areBlank, rfl⟩ := h
  exact ⟨before ++ front, mark, blanks, isMark, areBlank, (List.append_assoc ..).symm⟩

theorem EndsMark.cons (c : Char) {text : Text} (h : EndsMark text) : EndsMark (c :: text) :=
  h.append [c]

theorem endsMark_bracket : EndsMark ['>'] := ⟨[], '>', [], .inl rfl, by simp, rfl⟩

theorem endsMark_ampersand : EndsMark ['&'] := ⟨[], '&', [], .inr rfl, by simp, rfl⟩

theorem endsMark_take_succ {text : Text} {distance : Nat} (h : text[distance]? = some '>') :
    EndsMark (text.take (distance + 1)) := by
  rw [List.take_add_one, h]
  exact endsMark_bracket.append _

theorem distanceTo?_getElem? {c : Char} {text : Text} {distance : Nat}
    (h : distanceTo? c text = some distance) : text[distance]? = some c := by
  obtain ⟨inside, found, -⟩ := List.findIdx?_eq_some_iff_getElem.mp h
  rw [List.getElem?_eq_getElem inside]
  simpa using found

theorem closing?_ends {marks : List Char} {text : Text} {length : Nat}
    (h : closing? (marks ++ ['>']) text = some length) : EndsMark (text.take length) := by
  induction marks generalizing text length with
  | nil =>
    simp only [List.nil_append, closing?] at h
    split at h
    · next c rest dropped =>
      split at h
      · next same =>
        obtain rfl := same
        simp only [Option.map_some, Option.some.injEq] at h
        rw [← h, Nat.zero_add]
        apply endsMark_take_succ
        have here := congrArg (fun rest => rest[0]?) dropped
        simpa using here
      · simp at h
    · simp at h
  | cons mark marks ih =>
    simp only [List.cons_append, closing?] at h
    split at h
    · next c rest dropped =>
      split at h
      · obtain ⟨shorter, found, rfl⟩ := Option.map_eq_some_iff.mp h
        have tail := (ih found).cons c
        have count : shorter + (text.takeWhile isBlank).length + 1 =
            (text.takeWhile isBlank).length + (shorter + 1) := by omega
        rw [count, List.take_add, dropped, List.take_succ_cons]
        exact tail.append _
      · simp at h
    · simp at h

theorem throughClosing?_ends {first : Char} {marks : List Char} {text : Text} {length : Nat}
    (h : throughClosing? first (marks ++ ['>']) text = some length) : EndsMark (text.take length) := by
  induction text generalizing length with
  | nil => simp [throughClosing?] at h
  | cons c rest ih =>
    simp only [throughClosing?] at h
    split at h
    · next found closed =>
      obtain rfl := Option.some.inj h
      split at closed
      · rw [List.take_succ_cons]
        exact (closing?_ends closed).cons c
      · simp at closed
    · obtain ⟨shorter, found, rfl⟩ := Option.map_eq_some_iff.mp h
      rw [List.take_succ_cons]
      exact (ih found).cons c

theorem throughComment?_ends {text : Text} {length : Nat} (h : throughComment? text = some length) :
    EndsMark (text.take length) := by
  induction text using throughComment?.induct generalizing length with
  | case1 rest found closed =>
    simp only [throughComment?, closed, Option.some.injEq] at h
    rw [← h, List.take_succ_cons, List.take_succ_cons]
    have closed : closing? ([] ++ ['>']) rest = some found := closed
    exact ((closing?_ends closed).cons '-').cons '-'
  | case2 rest none ih =>
    simp only [throughComment?, none] at h
    obtain ⟨shorter, found, rfl⟩ := Option.map_eq_some_iff.mp h
    rw [List.take_succ_cons]
    exact (ih found).cons '-'
  | case3 c rest notDashes ih =>
    rw [throughComment?] at h
    · obtain ⟨shorter, found, rfl⟩ := Option.map_eq_some_iff.mp h
      rw [List.take_succ_cons]
      exact (ih found).cons c
    · exact notDashes
  | case4 => simp [throughComment?] at h

theorem endTagOf?_ends {element text : Text} {length : Nat}
    (h : endTagOf? element text = some length) :
    (∃ rest, text = '<' :: rest) ∧ EndsMark (text.take length) := by
  unfold endTagOf? at h
  split at h
  · next rest =>
    refine ⟨⟨_, rfl⟩, ?_⟩
    simp only at h
    split at h
    · obtain ⟨shorter, found, rfl⟩ := Option.map_eq_some_iff.mp h
      have found : closing? ([] ++ ['>']) _ = some shorter := found
      have tail := (((closing?_ends found).append
        (rest.take ((rest.takeWhile isBlank).length + element.length))).cons '/').cons '<'
      rw [← List.take_add] at tail
      have count : shorter + (2 + (rest.takeWhile isBlank).length + element.length) =
          (rest.takeWhile isBlank).length + element.length + shorter + 1 + 1 := by omega
      rw [count, List.take_succ_cons, List.take_succ_cons]
      exact tail
    · simp at h
  · simp at h

/-! ### Start tags -/

theorem EndsMark.of_strip {text : Text} (front : Text) (h : strip text = front ++ ['>']) : EndsMark text := by
  have left := blanks_append_stripLeft text
  have right := stripRight_append_blanks (stripLeft text)
  rw [strip] at h
  rw [h] at right
  rw [← left, ← right]
  refine EndsMark.append _ ⟨front, '>', ((stripLeft text).reverse.takeWhile isBlank).reverse,
    .inl rfl, ?_, by simp⟩
  intro c member
  exact mem_takeWhile_isBlank (List.mem_reverse.mp member)

theorem EndsMark.of_slice {text : Text} {start stop : Nat} (front : Text)
    (h : strip (text.slice start stop) = front ++ ['>']) : EndsMark (text.take stop) := by
  by_cases forward : start ≤ stop
  · rw [← take_append_slice text forward]
    exact (EndsMark.of_strip front h).append _
  · have empty : text.slice start stop = [] := by
      have noWidth : stop - start = 0 := by omega
      rw [slice, noWidth, List.take_zero]
    rw [empty] at h
    simp [strip, stripLeft, stripRight] at h

theorem startTag_ends {text : Text} {length : Nat}
    (h : startTag text = .selfClosing length ∨ ∃ name, startTag text = .element name length) :
    EndsMark (text.take length) := by
  unfold startTag at h
  split at h
  · simp at h
  · next found _ =>
    simp only at h
    split at h
    · simp at h
    · split at h
      · next ending =>
        obtain rfl : found = length := by simpa using h
        exact EndsMark.of_slice ['/'] ending
      · split at h
        · next ending =>
          obtain rfl : found = length := by simpa using h
          exact EndsMark.of_slice [] ending
        · simp at h

/-! ### Steps -/

/-- What a step finds, by how it goes on. -/
def StepEnds (raw : Option Text) (c : Char) (rest : Text) : Step → Prop
  | .text _ | .incomplete | .textThenStop _ => raw = none
  | .markup tail => raw = none ∧ c = '<' ∧ EndsMark (c :: rest.take tail)
  | .enter _ _ => raw = none ∧ c = '<'
  | .leave tail => c = '<' ∧ EndsMark (c :: rest.take tail)
  | .skip tail => raw ≠ none ∨ EndsMark (c :: rest.take tail)
  | .stop | .refuse _ => True

theorem throughBracket_ends (c : Char) (rest : Text) :
    StepEnds none '<' (c :: rest) (throughBracket 1 rest) := by
  unfold throughBracket
  split
  · next distance found =>
    refine ⟨rfl, rfl, ?_⟩
    rw [Nat.add_assoc, Nat.add_comm 1, List.take_succ_cons]
    exact ((endsMark_take_succ (distanceTo?_getElem? found)).cons c).cons '<'
  · rfl

theorem sectionStep_ends (rest : Text) : StepEnds none '<' ('!' :: '[' :: rest) (sectionStep rest) := by
  unfold sectionStep
  split
  · rfl
  · split
    · trivial
    · simp only
      split
      · rfl
      · split
        · split
          · next length found =>
            have found : throughClosing? ']' ([']'] ++ ['>']) _ = some length := found
            exact ⟨rfl, rfl, (throughClosing?_ends found).append ['<', '!', '[']⟩
          · rfl
        · split
          · split
            · next length found =>
              have found : throughClosing? ']' ([] ++ ['>']) _ = some length := found
              exact ⟨rfl, rfl, (throughClosing?_ends found).append ['<', '!', '[']⟩
            · rfl
          · trivial

theorem EndsMark.take_pred {c : Char} {rest : Text} {length : Nat}
    (h : EndsMark ((c :: rest).take length)) : EndsMark (c :: rest.take (length - 1)) := by
  cases length with
  | zero =>
    obtain ⟨front, mark, blanks, -, -, parts⟩ := h
    simp at parts
  | succ length => exact h

theorem openStep_ends (rest : Text) : StepEnds none '<' rest (openStep rest) := by
  unfold openStep
  split
  · trivial
  · exact .inr (endsMark_bracket.append ['<', '/'])
  · exact throughBracket_ends '/' _
  · next more =>
    split
    · next length found =>
      refine ⟨rfl, rfl, ?_⟩
      exact (throughComment?_ends found).append ['<', '!', '-', '-']
    · rfl
  · exact throughBracket_ends '?' _
  · exact sectionStep_ends _
  · exact throughBracket_ends '!' _
  · next c more _ _ _ _ _ _ =>
    split
    · split
      · rfl
      · rfl
      · trivial
      · next length found => exact ⟨rfl, rfl, (startTag_ends (.inl found)).take_pred⟩
      · next name length found =>
        split
        · exact ⟨rfl, rfl⟩
        · exact ⟨rfl, rfl, (startTag_ends (.inr ⟨name, found⟩)).take_pred⟩
    · rfl

theorem referenceStep_ends (final : Bool) (rest : Text) :
    StepEnds none '&' rest (referenceStep final rest) := by
  unfold referenceStep
  split
  · trivial
  · split
    · rfl
    · split <;> trivial
  · split
    · rfl
    · split
      · split
        · exact .inr endsMark_ampersand
        · trivial
      · rfl

theorem step_ends (final : Bool) (raw : Option Text) (c : Char) (rest : Text) :
    StepEnds raw c rest (step final raw c rest) := by
  unfold step
  split
  · next element =>
    split
    · trivial
    · next found =>
      simp only [distanceToEnd?] at found
      split at found
      · next isEnd =>
        obtain ⟨length, ended⟩ := Option.isSome_iff_exists.mp isEnd
        obtain ⟨⟨more, opened⟩, ends⟩ := endTagOf?_ends ended
        rw [ended]
        exact ⟨(List.cons.inj opened).1, ends.take_pred⟩
      · obtain ⟨shorter, -, wrong⟩ := Option.map_eq_some_iff.mp found
        simp at wrong
    · exact .inl (by simp)
  · split
    · next opened =>
      subst opened
      exact openStep_ends rest
    · split
      · next reference =>
        subst reference
        exact referenceStep_ends final rest
      · rfl

/-! ### Events -/

/-- A run may start behind this text. -/
def Settled (before : Text) : Prop := before = [] ∨ EndsMark before

/-- Events from the offset `reached` on stand in order; markup starts at opening marks, and text that
starts a run stands where one may start. `running` says whether a run is under way. -/
def EventsFrom (text : Text) : Bool → Nat → List Event → Prop
  | _, _, [] => True
  | running, reached, .text offset :: rest =>
    reached ≤ offset ∧ offset ≤ text.length ∧ (running = false → Settled (text.take offset)) ∧
      EventsFrom text true offset rest
  | _, reached, .markup offset :: rest =>
    reached ≤ offset ∧ (∃ more, text.drop offset = '<' :: more) ∧ EventsFrom text false offset rest

theorem EventsFrom.mono {text : Text} {running : Bool} {reached earlier : Nat} {events : List Event}
    (le : earlier ≤ reached) (h : EventsFrom text running reached events) :
    EventsFrom text running earlier events := by
  cases events with
  | nil => trivial
  | cons event rest =>
    cases event with
    | text offset => exact ⟨Nat.le_trans le h.1, h.2⟩
    | markup offset => exact ⟨Nat.le_trans le h.1, h.2⟩

/-- The state of a reading: what is left, whether a run is under way, and what that says about the
characters read so far. -/
structure ReadingAt (text : Text) (running : Bool) (raw : Option Text) (offset : Nat) (rest : Text)
    (before : Text) : Prop where
  parts : text = before ++ rest
  reached : rest ≠ [] → before.length = offset
  inside : raw ≠ none → running = false
  settled : raw = none → running = false → Settled before

theorem ReadingAt.advance {text : Text} {running running' : Bool} {raw raw' : Option Text}
    {offset : Nat} {c : Char} {rest before : Text} (h : ReadingAt text running raw offset (c :: rest) before)
    (tail : Nat) (inside : raw' ≠ none → running' = false)
    (settled : raw' = none → running' = false → EndsMark (c :: rest.take tail)) :
    ReadingAt text running' raw' (offset + (tail + 1)) (rest.drop tail)
      (before ++ c :: rest.take tail) where
  parts := by simp [h.parts]
  reached := by
    intro some
    have := h.reached (by simp)
    have : tail < rest.length := by simpa using some
    simp only [List.length_append, List.length_cons, List.length_take]
    omega
  inside := inside
  settled isNone isFalse := .inr ((settled isNone isFalse).append before)

theorem ReadingAt.take {text : Text} {running : Bool} {raw : Option Text} {offset : Nat} {c : Char}
    {rest before : Text} (h : ReadingAt text running raw offset (c :: rest) before) :
    text.take offset = before ∧ text.drop offset = c :: rest ∧ offset ≤ text.length := by
  have reached := h.reached (by simp)
  subst reached
  rw [h.parts]
  simp

theorem ReadingAt.text {text : Text} {running : Bool} {offset : Nat} {c : Char} {rest before : Text}
    (h : ReadingAt text running none offset (c :: rest) before) {more : List Event} {next : Nat}
    (le : offset ≤ next) (later : EventsFrom text true next more) :
    EventsFrom text running offset (.text offset :: more) := by
  obtain ⟨taken, -, bounded⟩ := h.take
  refine ⟨Nat.le_refl _, bounded, fun isFalse => ?_, later.mono le⟩
  rw [taken]
  exact h.settled rfl isFalse

theorem ReadingAt.markup {text : Text} {running : Bool} {raw : Option Text} {offset : Nat} {c : Char}
    {rest before : Text} (h : ReadingAt text running raw offset (c :: rest) before) (opened : c = '<')
    {more : List Event} {next : Nat} (le : offset ≤ next) (later : EventsFrom text false next more) :
    EventsFrom text running offset (.markup offset :: more) := by
  obtain ⟨-, dropped, -⟩ := h.take
  exact ⟨Nat.le_refl _, ⟨rest, opened ▸ dropped⟩, later.mono le⟩

/-- The events of a reading stand in order, whatever sound events follow them. -/
theorem reading_events {text : Text} {final : Bool} {offset : Nat} {raw : Option Text}
    {rest before : Text} {running : Bool} {read : Reading}
    (run : reading final offset raw rest = .ok read)
    (h : ReadingAt text running raw offset rest before) :
    ∃ running' before', ReadingAt text running' read.raw read.offset read.rest before' ∧
      ∀ more, EventsFrom text running' read.offset more →
        EventsFrom text running offset (read.events ++ more) := by
  induction size : rest.length using Nat.strongRecOn generalizing offset raw rest before running read with
  | ind size ih =>
    rcases rest with _ | ⟨c, rest⟩
    · rw [reading] at run
      obtain rfl := Except.ok.inj run
      exact ⟨running, before, h, fun more later => later⟩
    · have ends := step_ends final raw c rest
      -- Every step that goes on takes at least one character.
      have goOn {events : List Event} {raw' : Option Text} {running' : Bool} {tail : Nat}
          (run : (reading final (offset + (tail + 1)) raw' (rest.drop tail) >>= fun more =>
            .ok { more with events := events ++ more.events }) = .ok read)
          (next : ReadingAt text running' raw' (offset + (tail + 1)) (rest.drop tail)
            (before ++ c :: rest.take tail))
          (first : ∀ more, EventsFrom text running' (offset + (tail + 1)) more →
            EventsFrom text running offset (events ++ more)) :
          ∃ running' before', ReadingAt text running' read.raw read.offset read.rest before' ∧
            ∀ more, EventsFrom text running' read.offset more →
              EventsFrom text running offset (read.events ++ more) := by
        obtain ⟨more, continued, run⟩ := bind_ok run
        obtain rfl := Except.ok.inj run
        have shorter : (rest.drop tail).length < (c :: rest).length := by
          rw [List.length_drop, List.length_cons]
          omega
        obtain ⟨running'', before'', last, sound⟩ := ih _ (size ▸ shorter) continued next rfl
        refine ⟨running'', before'', last, fun others later => ?_⟩
        rw [List.append_assoc]
        exact first _ (sound others later)
      rw [reading] at run
      simp only at run
      split at run
      · next tail found =>
        rw [found] at ends
        obtain rfl : raw = none := ends
        exact goOn run (h.advance tail (by simp) (by simp)) fun more later =>
          h.text (by omega) later
      · next tail found =>
        rw [found] at ends
        obtain ⟨rfl, opened, closed⟩ := ends
        exact goOn run (h.advance tail (fun _ => rfl) fun _ _ => closed) fun more later =>
          h.markup opened (by omega) later
      · next element tail found =>
        rw [found] at ends
        exact goOn run (h.advance tail (fun _ => rfl) (by simp)) fun more later =>
          h.markup ends.2 (by omega) later
      · next tail found =>
        rw [found] at ends
        exact goOn run (h.advance tail (fun _ => rfl) fun _ _ => ends.2) fun more later =>
          h.markup ends.1 (by omega) later
      · next tail found =>
        rw [found] at ends
        refine goOn run (h.advance tail h.inside fun isNone _ => ?_) fun more later =>
          later.mono (by omega)
        exact ends.resolve_left (by simp [isNone])
      · next found =>
        rw [found] at ends
        obtain rfl : raw = none := ends
        split at run
        · exact goOn run (h.advance _ (by simp) (by simp)) fun more later =>
            h.text (by omega) later
        · obtain rfl := Except.ok.inj run
          exact ⟨running, before, h, fun more later => later⟩
      · obtain rfl := Except.ok.inj run
        exact ⟨running, before, h, fun more later => later⟩
      · next tail found =>
        rw [found] at ends
        obtain rfl : raw = none := ends
        obtain rfl := Except.ok.inj run
        exact ⟨true, _, h.advance tail (by simp) (by simp), fun more later =>
          h.text (Nat.le_add_right _ _) later⟩
      · simp at run

theorem events_from {text : Text} {found : List Event} (h : events text = .ok found) :
    EventsFrom text false 0 found := by
  obtain ⟨first, readFirst, h⟩ := bind_ok h
  obtain ⟨second, readSecond, h⟩ := bind_ok h
  obtain rfl := Except.ok.inj h
  have start : ReadingAt text false none 0 text [] := ⟨rfl, fun _ => rfl, by simp, fun _ _ => .inl rfl⟩
  -- The second reading takes what the first has left, now that nothing more will follow.
  obtain ⟨running₁, before₁, at₁, sound₁⟩ := reading_events readFirst start
  obtain ⟨running₂, before₂, at₂, sound₂⟩ := reading_events readSecond at₁
  rw [List.append_assoc]
  refine sound₁ _ (sound₂ _ ?_)
  split
  · next left =>
    obtain ⟨outside, filled⟩ : second.raw = none ∧ second.rest ≠ [] := by simpa using left
    obtain ⟨c, rest, isRest⟩ := List.exists_cons_of_ne_nil filled
    rw [outside, isRest] at at₂
    exact at₂.text (Nat.le_refl _) trivial
  · trivial

/-! ### Runs -/

/-- Runs from the offset `reached` on that stand one behind the other, each where a run may start and
stop. -/
def RunsFrom (text : Text) : Nat → List TextRun → Prop
  | _, [] => True
  | reached, run :: rest =>
    reached ≤ run.offset ∧ run.raw ≠ [] ∧
      text.slice run.offset (run.offset + run.raw.length) = run.raw ∧
      run.offset + run.raw.length ≤ text.length ∧ Settled (text.take run.offset) ∧
      (run.offset + run.raw.length = text.length ∨
        ∃ more, text.drop (run.offset + run.raw.length) = '<' :: more) ∧
      RunsFrom text (run.offset + run.raw.length) rest

theorem RunsFrom.block {text : Text} {reached : Nat} {run : TextRun} {rest : List TextRun}
    (h : RunsFrom text reached (run :: rest)) :
    ∃ before after, text = before ++ (run.raw ++ after) ∧ before.length = run.offset ∧
      reached ≤ run.offset ∧ Settled before ∧ (after = [] ∨ ∃ more, after = '<' :: more) ∧
      RunsFrom text (run.offset + run.raw.length) rest := by
  obtain ⟨le, -, placed, bounded, settled, ends, later⟩ := h
  have whole := take_slice_drop text (Nat.le_add_right run.offset run.raw.length)
  rw [placed, List.append_assoc] at whole
  refine ⟨text.take run.offset, text.drop (run.offset + run.raw.length), whole.symm, ?_, le, settled,
    ends.imp_left fun same => List.drop_eq_nil_of_le (Nat.le_of_eq same.symm), later⟩
  rw [List.length_take]
  omega

theorem RunsFrom.of_mem {text : Text} {reached : Nat} {runs : List TextRun} (h : RunsFrom text reached runs)
    {run : TextRun} (member : run ∈ runs) : ∃ reached rest, RunsFrom text reached (run :: rest) := by
  induction runs generalizing reached with
  | nil => simp at member
  | cons first rest ih =>
    rcases List.mem_cons.mp member with rfl | later
    · exact ⟨reached, rest, h⟩
    · obtain ⟨-, -, -, -, -, -, tail⟩ := h
      exact ih tail later

theorem runsFrom_runBetween {text : Text} {reached start stop : Nat} {rest : List TextRun}
    (le : reached ≤ start) (forward : start ≤ stop) (bounded : stop ≤ text.length)
    (settled : Settled (text.take start))
    (ends : stop = text.length ∨ ∃ more, text.drop stop = '<' :: more)
    (later : ∀ next, next ≤ stop → RunsFrom text next rest) :
    RunsFrom text reached (runBetween text start stop ++ rest) := by
  unfold runBetween
  simp only
  split
  · exact later reached (Nat.le_trans le forward)
  · next filled =>
    have length : start + (text.slice start stop).length = stop := by
      rw [length_slice text bounded]
      omega
    refine ⟨le, by simpa using filled, ?_, ?_, settled, ?_, later _ (Nat.le_of_eq length)⟩
    · simp only [length]
    · simpa only [length] using bounded
    · simpa only [length] using ends

theorem runsOf_from {text : Text} {started : Option Nat} {reached lower : Nat} {events : List Event}
    (h : EventsFrom text started.isSome reached events) (bounded : reached ≤ text.length)
    (le : lower ≤ started.getD reached)
    (under : ∀ start, started = some start → start ≤ reached ∧ Settled (text.take start)) :
    RunsFrom text lower (runsOf text started events) := by
  induction events generalizing started reached lower with
  | nil =>
    cases started with
    | none => trivial
    | some start =>
      obtain ⟨before, settled⟩ := under start rfl
      rw [runsOf, ← List.append_nil (runBetween text start text.length)]
      exact runsFrom_runBetween le (Nat.le_trans before bounded) (Nat.le_refl _) settled (.inl rfl)
        fun _ _ => trivial
  | cons event rest ih =>
    cases event with
    | text offset =>
      obtain ⟨reachedHere, inText, settled, later⟩ := h
      rw [runsOf]
      cases started with
      | none =>
        refine ih later inText (Nat.le_trans le reachedHere) ?_
        rintro start ⟨⟩
        exact ⟨Nat.le_refl _, settled rfl⟩
      | some start =>
        refine ih later inText le ?_
        rintro same ⟨⟩
        obtain ⟨before, settledStart⟩ := under start rfl
        exact ⟨Nat.le_trans before reachedHere, settledStart⟩
    | markup offset =>
      obtain ⟨reachedHere, opened, later⟩ := h
      have inText : offset ≤ text.length := by
        obtain ⟨more, dropped⟩ := opened
        have := congrArg List.length dropped
        simp only [List.length_drop, List.length_cons] at this
        omega
      have tail (next : Nat) (le : next ≤ offset) : RunsFrom text next (runsOf text none rest) :=
        ih later inText le (by simp)
      cases started with
      | none => exact tail lower (Nat.le_trans le reachedHere)
      | some start =>
        obtain ⟨before, settled⟩ := under start rfl
        exact runsFrom_runBetween le (Nat.le_trans before reachedHere) inText settled (.inr opened)
          tail

/-- The runs of a text stand one behind the other, each where a run may start and stop. -/
theorem textRuns_from {text : Text} {runs : List TextRun} (h : textRuns text = .ok runs) :
    RunsFrom text 0 runs := by
  obtain ⟨found, read, h⟩ := bind_ok h
  obtain rfl := Except.ok.inj h
  have sound : EventsFrom text (none : Option Nat).isSome 0 found := events_from read
  exact runsOf_from sound (Nat.zero_le _) (Nat.le_refl _) (by simp)

end Phrasebook.Markup
