import Phrasebook.Proofs.Markup.Runs

/-!
# Runs and raw elements

A reading takes steps, and the start tag of a raw element changes how it reads on. `stepsTaken` lists
the steps of a text, and `rawExtents` what lies between such a start tag and the end tag that leaves the
element. `textRuns_verbatim` shows that runs are verbatim, stand one behind the other, and keep out of
raw elements.
-/

namespace Phrasebook.Markup

open Text

/-! ### Steps taken -/

/-- A step that a reading takes, and the offset at which it takes it. -/
structure Taken where
  offset : Nat
  step : Step
deriving DecidableEq, Repr

/-- What becomes of a construct that may go on behind the end of the text: nothing may follow a final
reading, so the construct is text. -/
def settled (final : Bool) (rest : Text) : Step → Step
  | .incomplete => if final then .text (lostTail rest) else .incomplete
  | found => found

/-- How much is taken, one character less, if the reading goes on. -/
def Step.tail? : Step → Option Nat
  | .text tail | .markup tail | .enter _ tail | .leave tail | .skip tail => some tail
  | .incomplete | .stop | .textThenStop _ | .refuse _ => none

/-- The raw element in which the reading goes on. -/
def Step.mode (raw : Option Text) : Step → Option Text
  | .enter element _ => some element
  | .leave _ => none
  | _ => raw

theorem Step.mode_of_halts (raw : Option Text) {found : Step} (halts : found.tail? = none) :
    found.mode raw = raw := by
  cases found with
  | enter element tail | leave tail => cases halts
  | text tail | markup tail | skip tail | incomplete | stop | textThenStop tail | refuse refusal => rfl

/-- The events of a step. -/
def Taken.events (taken : Taken) : List Event :=
  match taken.step with
  | .text _ | .textThenStop _ => [.text taken.offset]
  | .markup _ | .enter _ _ | .leave _ => [.markup taken.offset]
  | .skip _ | .incomplete | .stop | .refuse _ => []

/-- The steps of a reading. -/
def stepsOf (final : Bool) (offset : Nat) (raw : Option Text) : Text → List Taken
  | [] => []
  | c :: rest =>
    let found := settled final rest (step final raw c rest)
    ⟨offset, found⟩ ::
      match found.tail? with
      | some tail => stepsOf final (offset + (tail + 1)) (found.mode raw) (rest.drop tail)
      | none => []
termination_by text => text.length

/-- The steps in which a text is read: those of both readings, and one for the text left. -/
def stepsTaken (text : Text) : Except Refusal (List Taken) := do
  let first ← reading false 0 none text
  let second ← reading true first.offset first.raw first.rest
  let left := if second.raw.isNone && !second.rest.isEmpty then
    [⟨second.offset, .text (second.rest.length - 1)⟩] else []
  .ok (stepsOf false 0 none text ++ stepsOf true first.offset first.raw first.rest ++ left)

/-- The offset of the first end tag that leaves a raw element. -/
def firstLeave? : List Taken → Option Nat
  | [] => none
  | taken :: rest =>
    match taken.step with
    | .leave _ => some taken.offset
    | _ => firstLeave? rest

/-- The ranges between the start tags of raw elements and the end tags that leave them. An element that
is never left goes on to the end of the text. -/
def rawExtents (stop : Nat) : List Taken → List Extent
  | [] => []
  | taken :: rest =>
    match taken.step with
    | .enter _ tail => ⟨taken.offset + (tail + 1), (firstLeave? rest).getD stop⟩ :: rawExtents stop rest
    | _ => rawExtents stop rest

/-! ### Readings by their steps -/

/-- How a reading goes on: behind what its first step takes, or not at all. -/
theorem reading_cons {final : Bool} {offset : Nat} {raw : Option Text} {c : Char} {rest : Text}
    {read : Reading} (run : reading final offset raw (c :: rest) = .ok read) :
    ∃ found, found = settled final rest (step final raw c rest) ∧
      ((∃ tail more, found.tail? = some tail ∧
        reading final (offset + (tail + 1)) (found.mode raw) (rest.drop tail) = .ok more ∧
        read = { more with events := Taken.events ⟨offset, found⟩ ++ more.events }) ∨
      (found.tail? = none ∧ read.raw = raw ∧ offset ≤ read.offset ∧
        read.events = Taken.events ⟨offset, found⟩)) := by
  refine ⟨_, rfl, ?_⟩
  have goOn {found : Step} {tail : Nat} (goesOn : found.tail? = some tail)
      (run : (reading final (offset + (tail + 1)) (found.mode raw) (rest.drop tail) >>= fun more =>
        .ok { more with events := Taken.events ⟨offset, found⟩ ++ more.events }) = .ok read) :
      ∃ tail more, found.tail? = some tail ∧
        reading final (offset + (tail + 1)) (found.mode raw) (rest.drop tail) = .ok more ∧
        read = { more with events := Taken.events ⟨offset, found⟩ ++ more.events } := by
    obtain ⟨more, continued, run⟩ := bind_ok run
    exact ⟨tail, more, goesOn, continued, (Except.ok.inj run).symm⟩
  rw [reading] at run
  cases found : step final raw c rest with
  | text tail | markup tail | enter element tail | leave tail | skip tail =>
    rw [found] at run
    exact .inl (goOn rfl run)
  | incomplete =>
    rw [found] at run
    cases final with
    | true => exact .inl (goOn rfl run)
    | false =>
      obtain rfl := Except.ok.inj run
      exact .inr ⟨rfl, rfl, Nat.le_refl _, rfl⟩
  | stop =>
    rw [found] at run
    obtain rfl := Except.ok.inj run
    exact .inr ⟨rfl, rfl, Nat.le_refl _, rfl⟩
  | textThenStop tail =>
    rw [found] at run
    obtain rfl := Except.ok.inj run
    exact .inr ⟨rfl, rfl, Nat.le_add_right _ _, rfl⟩
  | refuse refusal =>
    rw [found] at run
    cases run

/-- What a step may be: in a raw element there is neither text nor markup but the end tag. -/
def Step.Allowed (raw : Option Text) : Step → Prop
  | .text _ | .textThenStop _ | .markup _ | .enter _ _ => raw = none
  | .leave _ | .skip _ | .incomplete | .stop | .refuse _ => True

theorem settled_allowed (final : Bool) (raw : Option Text) (c : Char) (rest : Text) :
    (settled final rest (step final raw c rest)).Allowed raw := by
  have ends := step_ends final raw c rest
  cases found : step final raw c rest with
  | text tail | textThenStop tail =>
    rw [found] at ends
    exact ends
  | markup tail | enter element tail =>
    rw [found] at ends
    exact ends.1
  | incomplete =>
    rw [found] at ends
    cases final with
    | true => exact ends
    | false => trivial
  | leave tail | skip tail | stop | refuse refusal => trivial

/-- Steps that follow one another, from an offset on and in the mode that the steps before leave. -/
def Follow : Option Text → Nat → List Taken → Prop
  | _, _, [] => True
  | raw, reached, taken :: rest =>
    reached ≤ taken.offset ∧ taken.step.Allowed raw ∧ Follow (taken.step.mode raw) taken.offset rest

theorem Follow.mono {raw : Option Text} {reached earlier : Nat} {steps : List Taken}
    (le : earlier ≤ reached) (h : Follow raw reached steps) : Follow raw earlier steps := by
  cases steps with
  | nil => trivial
  | cons taken rest => exact ⟨Nat.le_trans le h.1, h.2⟩

/-- The steps of a reading make its events, and they follow one another, whatever steps follow them. -/
theorem reading_steps {final : Bool} {offset : Nat} {raw : Option Text} {text : Text} {read : Reading}
    (run : reading final offset raw text = .ok read) :
    read.events = (stepsOf final offset raw text).flatMap Taken.events ∧
      ∀ more, Follow read.raw read.offset more → Follow raw offset (stepsOf final offset raw text ++ more) := by
  induction size : text.length using Nat.strongRecOn generalizing offset raw text read with
  | ind size ih =>
    rcases text with _ | ⟨c, rest⟩
    · rw [reading] at run
      obtain rfl := Except.ok.inj run
      rw [stepsOf]
      exact ⟨rfl, fun more later => later⟩
    · have allowed := settled_allowed final raw c rest
      obtain ⟨found, isFound, ⟨tail, more, goesOn, continued, rfl⟩ | ⟨halts, mode, le, events⟩⟩ :=
        reading_cons run
      · rw [stepsOf]
        simp only [← isFound, goesOn] at allowed ⊢
        have shorter : (rest.drop tail).length < (c :: rest).length := by
          rw [List.length_drop, List.length_cons]
          omega
        obtain ⟨events, sound⟩ := ih _ (size ▸ shorter) continued rfl
        refine ⟨by rw [List.flatMap_cons, events], fun others later => ?_⟩
        exact ⟨Nat.le_refl _, allowed, (sound others later).mono (Nat.le_add_right _ _)⟩
      · rw [stepsOf]
        simp only [← isFound, halts] at allowed ⊢
        refine ⟨by rw [events, List.flatMap_cons, List.flatMap_nil, List.append_nil], fun others later => ?_⟩
        refine ⟨Nat.le_refl _, allowed, ?_⟩
        rw [Step.mode_of_halts raw halts, ← mode]
        exact later.mono le

/-- The steps of a text make its events and follow one another. -/
theorem events_steps {text : Text} {found : List Event} (h : events text = .ok found) :
    ∃ steps, stepsTaken text = .ok steps ∧ found = steps.flatMap Taken.events ∧ Follow none 0 steps := by
  obtain ⟨first, readFirst, h⟩ := bind_ok h
  obtain ⟨second, readSecond, h⟩ := bind_ok h
  obtain rfl := Except.ok.inj h
  obtain ⟨events₁, sound₁⟩ := reading_steps readFirst
  obtain ⟨events₂, sound₂⟩ := reading_steps readSecond
  refine ⟨_, by rw [stepsTaken, readFirst]; dsimp only [bind, Except.bind]; rw [readSecond], ?_, ?_⟩
  · rw [List.flatMap_append, List.flatMap_append, ← events₁, ← events₂]
    split <;> rfl
  · rw [List.append_assoc]
    refine sound₁ _ (sound₂ _ ?_)
    split
    · next left =>
      obtain ⟨outside, -⟩ : second.raw = none ∧ second.rest ≠ [] := by simpa using left
      rw [outside]
      exact ⟨Nat.le_refl _, rfl, trivial⟩
    · trivial

/-! ### Events around raw elements -/

/-- The offset at which an event stands. -/
def Event.offset : Event → Nat
  | .text offset => offset
  | .markup offset => offset

theorem Taken.offset_of_events {taken : Taken} {event : Event} (member : event ∈ taken.events) :
    event.offset = taken.offset := by
  obtain ⟨offset, found⟩ := taken
  cases found with
  | text tail | textThenStop tail | markup tail | enter element tail | leave tail =>
    rw [List.mem_singleton.mp member]
    rfl
  | skip tail | incomplete | stop | refuse refusal => cases member

theorem Follow.le {raw : Option Text} {reached : Nat} {steps : List Taken} (h : Follow raw reached steps)
    {event : Event} (member : event ∈ steps.flatMap Taken.events) : reached ≤ event.offset := by
  induction steps generalizing raw reached with
  | nil => cases member
  | cons taken rest ih =>
    obtain ⟨le, -, later⟩ := h
    rw [List.flatMap_cons] at member
    rcases List.mem_append.mp member with here | isLater
    · rw [Taken.offset_of_events here]
      exact le
    · exact Nat.le_trans le (ih later isLater)

/-- In a raw element nothing stands in front of the end tag that leaves it. -/
theorem Follow.quiet {element : Text} {reached : Nat} {steps : List Taken}
    (h : Follow (some element) reached steps) {event : Event} (member : event ∈ steps.flatMap Taken.events) :
    ∃ leave, firstLeave? steps = some leave ∧ leave ≤ event.offset := by
  induction steps generalizing reached with
  | nil => cases member
  | cons taken rest ih =>
    obtain ⟨offset, found⟩ := taken
    obtain ⟨-, allowed, later⟩ := h
    cases found with
    | text tail | textThenStop tail | markup tail | enter element tail => cases allowed
    | leave tail =>
      refine ⟨offset, rfl, ?_⟩
      rcases List.mem_cons.mp member with rfl | isLater
      · exact Nat.le_refl _
      · exact later.le isLater
    | skip tail | incomplete | stop | refuse refusal => exact ih later member

/-- Markup stands in front of a range, and what stands behind that markup stands behind the range. -/
def Cleared (extent : Extent) (events : List Event) : Prop :=
  ∃ before offset after, events = before ++ .markup offset :: after ∧
    (∀ event ∈ before, event.offset ≤ offset) ∧ offset ≤ extent.start ∧
    ∀ event ∈ after, extent.stop ≤ event.offset

theorem Follow.cleared {raw : Option Text} {reached stop : Nat} {steps : List Taken}
    (h : Follow raw reached steps) {extent : Extent} (member : extent ∈ rawExtents stop steps) :
    Cleared extent (steps.flatMap Taken.events) ∧ reached ≤ extent.start := by
  induction steps generalizing raw reached with
  | nil => cases member
  | cons taken rest ih =>
    obtain ⟨offset, found⟩ := taken
    obtain ⟨le, allowed, later⟩ := h
    -- A range that lies further on is cleared by markup further on.
    have further (isLater : extent ∈ rawExtents stop rest) :
        Cleared extent ((⟨offset, found⟩ :: rest).flatMap Taken.events) ∧ reached ≤ extent.start := by
      obtain ⟨⟨before, place, after, parts, inFront, isStart, behind⟩, start⟩ := ih later isLater
      refine ⟨⟨Taken.events ⟨offset, found⟩ ++ before, place, after, ?_, ?_, isStart, behind⟩, by omega⟩
      · rw [List.flatMap_cons, parts, List.append_assoc]
      · intro event isEvent
        rcases List.mem_append.mp isEvent with here | isLater
        · have isMarkup : Event.markup place ∈ rest.flatMap Taken.events := by simp [parts]
          rw [Taken.offset_of_events here]
          exact later.le isMarkup
        · exact inFront event isLater
    cases found with
    | enter element tail =>
      rcases List.mem_cons.mp member with rfl | isLater
      · refine ⟨⟨[], offset, rest.flatMap Taken.events, rfl, by simp, ?_, ?_⟩, ?_⟩
        · simp only
          omega
        · intro event isEvent
          obtain ⟨leave, isLeave, leaveLe⟩ := later.quiet isEvent
          rw [isLeave]
          exact leaveLe
        · simp only at le ⊢
          omega
      · exact further isLater
    | text tail | textThenStop tail | markup tail | leave tail | skip tail | incomplete | stop | refuse refusal =>
      exact further member

/-! ### Runs -/

theorem mem_runBetween {text : Text} {start stop : Nat} {run : TextRun} (member : run ∈ runBetween text start stop) :
    run.offset = start ∧ run.offset + run.raw.length ≤ stop := by
  unfold runBetween at member
  simp only at member
  split at member
  · cases member
  · next filled =>
    obtain rfl := List.mem_singleton.mp member
    refine ⟨rfl, ?_⟩
    have positive := List.length_pos_iff.mpr (show text.slice start stop ≠ [] by simpa using filled)
    simp only [slice, List.length_take, List.length_drop] at positive ⊢
    omega

/-- Markup cuts runs in two. -/
theorem runsOf_markup (text : Text) (started : Option Nat) (before : List Event) (offset : Nat)
    (after : List Event) (inFront : ∀ event ∈ before, event.offset ≤ offset) :
    ∃ front, runsOf text started (before ++ .markup offset :: after) = front ++ runsOf text none after ∧
      ∀ run ∈ front, run.offset + run.raw.length ≤ offset := by
  induction before generalizing started with
  | nil =>
    cases started with
    | none => exact ⟨[], rfl, List.forall_mem_nil _⟩
    | some start => exact ⟨runBetween text start offset, rfl, fun run isRun => (mem_runBetween isRun).2⟩
  | cons event rest ih =>
    obtain ⟨here, later⟩ := List.forall_mem_cons.mp inFront
    cases event with
    | text place => exact ih _ later
    | markup place =>
      obtain ⟨front, parts, stops⟩ := ih none later
      cases started with
      | none => exact ⟨front, parts, stops⟩
      | some start =>
        refine ⟨runBetween text start place ++ front, ?_, ?_⟩
        · rw [List.append_assoc, ← parts]
          rfl
        · intro run isRun
          rcases List.mem_append.mp isRun with isHere | isLater
          · exact Nat.le_trans (mem_runBetween isHere).2 here
          · exact stops run isLater

theorem runsOf_behind {text : Text} {started : Option Nat} {reached : Nat} {events : List Event}
    (begun : ∀ start, started = some start → reached ≤ start)
    (behind : ∀ event ∈ events, reached ≤ event.offset) :
    ∀ run ∈ runsOf text started events, reached ≤ run.offset := by
  induction events generalizing started with
  | nil =>
    intro run isRun
    cases started with
    | none => cases isRun
    | some start =>
      rw [(mem_runBetween isRun).1]
      exact begun start rfl
  | cons event rest ih =>
    obtain ⟨here, later⟩ := List.forall_mem_cons.mp behind
    cases event with
    | text place =>
      refine ih ?_ later
      rintro start ⟨⟩
      cases started with
      | none => exact here
      | some start => exact begun start rfl
    | markup place =>
      have tail : ∀ run ∈ runsOf text none rest, reached ≤ run.offset := ih (by simp) later
      cases started with
      | none => exact tail
      | some start =>
        intro run isRun
        rcases List.mem_append.mp isRun with isHere | isLater
        · rw [(mem_runBetween isHere).1]
          exact begun start rfl
        · exact tail run isLater

theorem Cleared.runs {extent : Extent} {events : List Event} (h : Cleared extent events) (text : Text) :
    ∀ run ∈ runsOf text none events,
      run.offset + run.raw.length ≤ extent.start ∨ extent.stop ≤ run.offset := by
  obtain ⟨before, offset, after, rfl, inFront, isStart, behind⟩ := h
  obtain ⟨front, parts, stops⟩ := runsOf_markup text none before offset after inFront
  intro run isRun
  rw [parts] at isRun
  rcases List.mem_append.mp isRun with isFront | isBehind
  · exact .inl (Nat.le_trans (stops run isFront) isStart)
  · exact .inr (runsOf_behind (by simp) behind run isBehind)

theorem RunsFrom.ordered {text : Text} {reached : Nat} {runs : List TextRun} (h : RunsFrom text reached runs) :
    (∀ run ∈ runs, reached ≤ run.offset) ∧
      runs.Pairwise fun first second => first.offset + first.raw.length ≤ second.offset := by
  induction runs generalizing reached with
  | nil => exact ⟨List.forall_mem_nil _, .nil⟩
  | cons run rest ih =>
    obtain ⟨le, -, -, -, -, -, later⟩ := h
    obtain ⟨behind, ordered⟩ := ih later
    refine ⟨List.forall_mem_cons.mpr ⟨le, fun other isLater => ?_⟩, .cons behind ordered⟩
    have := behind other isLater
    omega

/-- The offset at which a run starts, found from its line and column. -/
def TextRun.start (text : Text) (run : TextRun) : Nat := (text.offset (text.position run.offset)).toNat

theorem TextRun.start_eq (text : Text) (run : TextRun) : run.start text = run.offset := by
  rw [start, offset_position, Int.toNat_natCast]

/-- The runs of a text are not empty and verbatim at their line and column, they stand one behind the
other, and none has a character of a raw element. -/
theorem textRuns_verbatim {text : Text} {runs : List TextRun} (read : textRuns text = .ok runs) :
    (∀ run ∈ runs, run.raw ≠ [] ∧ text.Holds (text.position run.offset) ∧
      text.slice (run.start text) (run.start text + run.raw.length) = run.raw) ∧
    (runs.Pairwise fun first second => first.start text + first.raw.length ≤ second.start text) ∧
    ∃ steps, stepsTaken text = .ok steps ∧ events text = .ok (steps.flatMap Taken.events) ∧
      ∀ extent ∈ rawExtents text.length steps, ∀ run ∈ runs,
        run.start text + run.raw.length ≤ extent.start ∨ extent.stop ≤ run.start text := by
  simp only [TextRun.start_eq]
  have sound := textRuns_from read
  obtain ⟨found, isFound, read⟩ := bind_ok read
  obtain rfl := Except.ok.inj read
  refine ⟨?_, sound.ordered.2, ?_⟩
  · intro run isRun
    obtain ⟨reached, rest, -, filled, verbatim, bounded, -⟩ := sound.of_mem isRun
    exact ⟨filled, holds_position (by omega), verbatim⟩
  · obtain ⟨steps, taken, rfl, follow⟩ := events_steps isFound
    exact ⟨steps, taken, isFound, fun extent isExtent => (follow.cleared isExtent).1.runs text⟩

/-- A reference in front of a script, and an element that is never left behind a line of text. -/
theorem textRuns_verbatim_script :
    ∃ (text : Text) (first second : TextRun) (steps : List Taken),
      textRuns text = .ok [first, second] ∧ first.raw = "a&lt".toList ∧ second.raw = "\nc".toList ∧
      stepsTaken text = .ok steps ∧ rawExtents text.length steps = [⟨12, 17⟩, ⟨36, 37⟩] ∧
      text.position second.offset = ⟨1, 27⟩ ∧
      text.slice (second.start text) (second.start text + 2) = second.raw ∧
      first.start text + 4 ≤ second.start text ∧
      ∀ extent ∈ rawExtents text.length steps, ∀ run ∈ [first, second],
        run.start text + run.raw.length ≤ extent.start ∨ extent.stop ≤ run.start text := by
  obtain ⟨text, isText⟩ : ∃ text : Text, "a&lt<script>x</b></SCRIPT >\nc<style>d".toList = text := ⟨_, rfl⟩
  have read : textRuns text = .ok [⟨"a&lt".toList, 0⟩, ⟨"\nc".toList, 27⟩] := by
    rw [← isText]
    decide +kernel
  obtain ⟨verbatim, ordered, steps, taken, -, apart⟩ := textRuns_verbatim read
  have extents : (stepsTaken text).map (rawExtents text.length) = .ok [⟨12, 17⟩, ⟨36, 37⟩] := by
    rw [← isText]
    decide +kernel
  have place : text.position 27 = ⟨1, 27⟩ := by
    rw [← isText]
    decide +kernel
  rw [taken] at extents
  obtain ⟨-, -, second⟩ := verbatim ⟨"\nc".toList, 27⟩ (by simp)
  refine ⟨text, _, _, steps, read, rfl, rfl, taken, Except.ok.inj extents, place, second, ?_, apart⟩
  exact (List.pairwise_cons.mp ordered).1 _ List.mem_cons_self

end Phrasebook.Markup
