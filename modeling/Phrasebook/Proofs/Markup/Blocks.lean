import Phrasebook.Proofs.Markup.Elsewhere

/-!
# Texts in blocks

A text is read as blocks: a run of text and the markup behind it. `textRuns_blocks` divides a text so that
its runs are those of the blocks, and every piece of markup is crossed alike whatever follows it.
-/

namespace Phrasebook.Markup

open Text

/-! ### What is still to be read -/

/-- The events of a final reading. What it leaves is text, unless it stands in a raw element. -/
def lastEvents (offset : Nat) (raw : Option Text) (text : Text) : Except Refusal (List Event) := do
  let read ← reading true offset raw text
  .ok (read.events ++ if read.raw.isNone && !read.rest.isEmpty then [.text read.offset] else [])

/-- The events of what is still to be read. A final reading takes up what a first one leaves. -/
def laterEvents : Bool → Nat → Option Text → Text → Except Refusal (List Event)
  | true, offset, raw, text => lastEvents offset raw text
  | false, offset, raw, text => do
    let read ← reading false offset raw text
    let last ← lastEvents read.offset read.raw read.rest
    .ok (read.events ++ last)

theorem events_eq_laterEvents (text : Text) : events text = laterEvents false 0 none text := by
  simp only [events, laterEvents, lastEvents, bind, Except.bind]
  cases reading false 0 none text with
  | error refusal => rfl
  | ok first =>
    dsimp only
    cases reading true first.offset first.raw first.rest with
    | error refusal => rfl
    | ok second => simp

theorem laterEvents_nil (final : Bool) (offset : Nat) (raw : Option Text) :
    laterEvents final offset raw [] = .ok [] := by
  have last (final : Bool) : reading final offset raw [] = .ok ⟨[], raw, offset, []⟩ := by rw [reading]
  cases final <;> simp [laterEvents, lastEvents, last, bind, Except.bind]

section Steps

variable {final : Bool} {offset tail : Nat} {raw : Option Text} {c : Char} {rest : Text} {found : Step}

theorem map_events {read : Except Refusal Reading} (events : List Event) :
    (read >>= fun more => .ok { more with events := events ++ more.events }) =
      read.map fun more => { more with events := events ++ more.events } := by
  cases read <;> rfl

theorem laterEvents_of_reading {events : List Event} {raw' : Option Text}
    (read : reading final offset raw (c :: rest) =
      (reading final (offset + (tail + 1)) raw' (rest.drop tail)).map fun more =>
        { more with events := events ++ more.events }) :
    laterEvents final offset raw (c :: rest) =
      (laterEvents final (offset + (tail + 1)) raw' (rest.drop tail)).map (events ++ ·) := by
  cases final with
  | true =>
    simp only [laterEvents, lastEvents, read, bind, Except.bind]
    cases reading true (offset + (tail + 1)) raw' (rest.drop tail) with
    | error refusal => rfl
    | ok more => exact congrArg Except.ok (List.append_assoc _ _ _)
  | false =>
    simp only [laterEvents, lastEvents, read, bind, Except.bind]
    cases reading false (offset + (tail + 1)) raw' (rest.drop tail) with
    | error refusal => rfl
    | ok more =>
      simp only [Except.map]
      cases reading true more.offset more.raw more.rest with
      | error refusal => rfl
      | ok last => exact congrArg Except.ok (List.append_assoc _ _ _)

/-- A step that goes on puts its events in front of what is read behind it. -/
theorem laterEvents_goesOn (taken : step final raw c rest = found) (goesOn : found.tail? = some tail) :
    laterEvents final offset raw (c :: rest) =
      (laterEvents final (offset + (tail + 1)) (found.mode raw) (rest.drop tail)).map
        (Taken.events ⟨offset, found⟩ ++ ·) := by
  apply laterEvents_of_reading
  rw [reading, taken]
  cases found with
  | text length | markup length | enter element length | leave length | skip length =>
    obtain rfl := Option.some.inj goesOn
    exact map_events _
  | incomplete | stop | textThenStop length | refuse refusal => cases goesOn

theorem laterEvents_lost (taken : step true raw c rest = .incomplete) :
    laterEvents true offset raw (c :: rest) =
      (laterEvents true (offset + (lostTail rest + 1)) raw (rest.drop (lostTail rest))).map (.text offset :: ·) := by
  refine @laterEvents_of_reading true offset (lostTail rest) raw c rest [.text offset] raw ?_
  rw [reading, taken]
  exact map_events [.text offset]

/-- A reading that is not final halts where a final one takes up. -/
theorem laterEvents_halts (halts : step false raw c rest = .incomplete ∨ step false raw c rest = .stop) :
    laterEvents false offset raw (c :: rest) = laterEvents true offset raw (c :: rest) := by
  have read : reading false offset raw (c :: rest) = .ok ⟨[], raw, offset, c :: rest⟩ := by
    rcases halts with halts | halts
    · rw [reading, halts]
      rfl
    · rw [reading, halts]
  rw [laterEvents, laterEvents, read]
  simp only [bind, Except.bind, List.nil_append]
  cases lastEvents offset raw (c :: rest) <;> rfl

theorem laterEvents_stop (halts : step true raw c rest = .stop) :
    laterEvents true offset raw (c :: rest) = .ok (if raw.isNone then [.text offset] else []) := by
  have read : reading true offset raw (c :: rest) = .ok ⟨[], raw, offset, c :: rest⟩ := by
    rw [reading, halts]
  simp [laterEvents, lastEvents, read, bind, Except.bind]

theorem laterEvents_refuse {refusal : Refusal} (refused : step final raw c rest = .refuse refusal) :
    laterEvents final offset raw (c :: rest) = .error refusal := by
  have read : reading final offset raw (c :: rest) = .error refusal := by rw [reading, refused]
  cases final with
  | true => rw [laterEvents, lastEvents, read]; rfl
  | false => rw [laterEvents, read]; rfl

theorem laterEvents_textThenStop (halts : step final raw c rest = .textThenStop tail) :
    laterEvents final offset raw (c :: rest) =
      (if final then .ok (if raw.isNone && !(rest.drop tail).isEmpty then [.text (offset + (tail + 1))] else [])
        else laterEvents true (offset + (tail + 1)) raw (rest.drop tail)).map (.text offset :: ·) := by
  have read : reading final offset raw (c :: rest) =
      .ok ⟨[.text offset], raw, offset + (tail + 1), rest.drop tail⟩ := by
    rw [reading, halts]
  cases final with
  | true => rw [laterEvents, lastEvents, read]; rfl
  | false =>
    rw [laterEvents, laterEvents, read]
    simp only [bind, Except.bind, Bool.false_eq_true, if_false]
    cases lastEvents (offset + (tail + 1)) raw (rest.drop tail) <;> rfl

end Steps

/-! ### Raw elements -/

theorem distanceToEnd?_some {element text : Text} {distance : Nat}
    (h : distanceToEnd? element text = some distance) :
    ∃ length, endTagOf? element (text.drop distance) = some length := by
  induction text generalizing distance with
  | nil => simp [distanceToEnd?] at h
  | cons c rest ih =>
    rw [distanceToEnd?] at h
    split at h
    · next ends =>
      obtain rfl := Option.some.inj h
      exact Option.isSome_iff_exists.mp ends
    · obtain ⟨shorter, found, rfl⟩ := Option.map_eq_some_iff.mp h
      exact ih found

theorem distanceToEnd?_drop {element text : Text} {distance : Nat}
    (h : distanceToEnd? element text = some distance) : distanceToEnd? element (text.drop distance) = some 0 := by
  obtain ⟨length, ends⟩ := distanceToEnd?_some h
  rw [distanceToEnd?.eq_def]
  split
  · next empty => simp [empty, endTagOf?] at ends
  · next c rest same => rw [← same, ends, if_pos (Option.isSome_some)]

/-- In a raw element nothing but its end tag is found. -/
theorem laterEvents_raw (final : Bool) (offset : Nat) {element text : Text} {distance length : Nat}
    (h : distanceToEnd? element text = some distance)
    (ends : endTagOf? element (text.drop distance) = some length) (filled : 0 < length) :
    laterEvents final offset (some element) text =
      (laterEvents final (offset + (distance + length)) none (text.drop (distance + length))).map
        (.markup (offset + distance) :: ·) := by
  have leave (offset : Nat) {text : Text} (here : distanceToEnd? element text = some 0)
      (ends : endTagOf? element text = some length) :
      laterEvents final offset (some element) text =
        (laterEvents final (offset + length) none (text.drop length)).map (.markup offset :: ·) := by
    rcases text with _ | ⟨c, rest⟩
    · simp [distanceToEnd?] at here
    obtain ⟨tail, rfl⟩ : ∃ tail, length = tail + 1 := ⟨length - 1, by omega⟩
    have taken : step final (some element) c rest = .leave tail := by
      simp only [step, here, ends, Option.getD_some, Nat.add_sub_cancel]
    exact laterEvents_goesOn taken rfl
  cases distance with
  | zero => simpa using leave offset h ends
  | succ distance =>
    rcases text with _ | ⟨c, rest⟩
    · simp [distanceToEnd?] at h
    have taken : step final (some element) c rest = .skip distance := by simp only [step, h]
    have skipped : laterEvents final offset (some element) (c :: rest) =
        laterEvents final (offset + (distance + 1)) (some element) (rest.drop distance) := by
      rw [laterEvents_goesOn taken rfl, Step.mode]
      · exact congrFun Except.map_id _
      · simp
      · simp
    have left := leave (offset + (distance + 1)) (distanceToEnd?_drop h) ends
    rw [List.drop_succ_cons] at left
    rw [skipped, left, Nat.add_assoc, List.drop_drop, Nat.add_right_comm, List.drop_succ_cons]

theorem laterEvents_unclosed (final : Bool) (offset : Nat) {element text : Text}
    (h : distanceToEnd? element text = none) : laterEvents final offset (some element) text = .ok [] := by
  rcases text with _ | ⟨c, rest⟩
  · exact laterEvents_nil final offset _
  have taken (final : Bool) : step final (some element) c rest = .stop := by simp only [step, h]
  have last : laterEvents true offset (some element) (c :: rest) = .ok [] := laterEvents_stop (taken true)
  cases final with
  | true => exact last
  | false => exact (laterEvents_halts (.inr (taken false))).trans last

/-! ### Blocks -/

/-- A run of text, which may be empty, and the markup behind it. -/
structure Block where
  run : Text
  markup : Text

/-- The text of a block. -/
def Block.text (block : Block) : Text := block.run ++ block.markup

/-- The text of some blocks. -/
def textOfBlocks (blocks : List Block) : Text := blocks.flatMap Block.text

/-- The runs of some blocks that stand one behind the other from an offset on. -/
def runsAt : Nat → List Block → List TextRun
  | _, [] => []
  | offset, block :: rest =>
    (if block.run.isEmpty then [] else [⟨block.run, offset⟩]) ++ runsAt (offset + block.text.length) rest

/-- Markup gives events of markup only, and reading goes on behind it. If it ends a run, it gives one at
its start. -/
def Crossed (ends : Prop) (markup rest : Text) : Prop :=
  ∀ final offset, ∃ events : List Event, (∀ event ∈ events, ∃ place, event = .markup place) ∧
    (ends → ∃ more, events = .markup offset :: more) ∧
    laterEvents final offset none (markup ++ rest) =
      (laterEvents final (offset + markup.length) none rest).map (events ++ ·)

/-- Blocks whose markup starts with an opening mark and is crossed in front of every text that may follow it. Only the last
block may have none. -/
def Sound : List Block → Prop
  | [] => True
  | block :: rest =>
    (block.markup = [] ∧ rest = [] ∨ (∃ more, block.markup = '<' :: more) ∧
      ∀ behind, (textOfBlocks rest = [] → behind = []) → NoNewQuotes (textOfBlocks rest) behind →
        Crossed (block.run ≠ []) block.markup behind) ∧
      Sound rest

theorem laterEvents_open (final : Bool) (offset : Nat) {more : Text} {found : Step} {tail : Nat}
    (read : openStep more = found) (goesOn : found.tail? = some tail) :
    laterEvents final offset none ('<' :: more) =
      (laterEvents final (offset + (tail + 1)) (found.mode none) (more.drop tail)).map
        (Taken.events ⟨offset, found⟩ ++ ·) := by
  exact laterEvents_goesOn (by rw [step, if_pos rfl, read]) goesOn

theorem exists_takenAlike {rest : Text} {found : Step} {tail : Nat} (read : openStep rest = found)
    (goesOn : found.tail? = some tail) (notText : ∀ tail, found ≠ .text tail) :
    ∃ part more, rest = part ++ '>' :: more ∧ tail = part.length + 1 ∧
      ∀ behind, NoNewQuotes more behind → openStep (part ++ '>' :: behind) = found := by
  subst read
  obtain ⟨part, more, parts, long, elsewhere⟩ := openStep_takenAlike goesOn notText
  exact ⟨part, more, parts, Option.some.inj (goesOn.symm.trans long), elsewhere⟩

theorem drop_through (front rest : Text) : (front ++ '>' :: rest).drop (front.length + 1) = rest := by
  rw [List.drop_append, List.drop_eq_nil_of_le (by omega)]
  simp

theorem crossed_step {ends : Prop} {part behind : Text} {found : Step}
    (read : openStep (part ++ '>' :: behind) = found)
    (kind : found = .markup (part.length + 1) ∨ found = .skip (part.length + 1) ∧ ¬ends) :
    Crossed ends ('<' :: part ++ ['>']) behind := by
  intro final offset
  have whole : '<' :: part ++ ['>'] ++ behind = '<' :: (part ++ '>' :: behind) := by simp
  have long : ('<' :: part ++ ['>']).length = part.length + 1 + 1 := by simp
  rw [whole, long]
  rcases kind with rfl | ⟨rfl, notEnd⟩
  · have taken := laterEvents_open final offset read rfl
    rw [drop_through] at taken
    exact ⟨[.markup offset], by simp, fun _ => ⟨[], rfl⟩, taken⟩
  · have taken := laterEvents_open final offset read rfl
    rw [drop_through] at taken
    exact ⟨[], by simp, fun isEnd => absurd isEnd notEnd, taken⟩

theorem NoNewQuotes.append (front : Text) {rest rest' : Text} (h : NoNewQuotes rest rest') :
    NoNewQuotes (front ++ rest) (front ++ rest') := by
  intro quote isQuote member
  rcases List.mem_append.mp member with inFront | behind
  · exact List.mem_append_left _ inFront
  · exact List.mem_append_right _ (h quote isQuote behind)

theorem not_mem_rawElement {element : Text} (raw : element ∈ rawElements) : '>' ∉ element := by
  rcases List.mem_cons.mp raw with rfl | rest
  · decide
  · obtain rfl := List.mem_singleton.mp rest
    decide

/-- A raw element is crossed from its start tag to its end tag. -/
theorem crossed_raw {ends : Prop} {element part inner behind : Text} {distance length : Nat}
    (read : openStep (part ++ '>' :: (inner ++ '>' :: behind)) = .enter element (part.length + 1))
    (content : distanceToEnd? element (inner ++ '>' :: behind) = some distance)
    (closes : endTagOf? element ((inner ++ '>' :: behind).drop distance) = some length)
    (long : distance + length = inner.length + 1) (filled : 0 < length) :
    Crossed ends ('<' :: part ++ '>' :: inner ++ ['>']) behind := by
  intro final offset
  have whole : '<' :: part ++ '>' :: inner ++ ['>'] ++ behind = '<' :: (part ++ '>' :: (inner ++ '>' :: behind)) := by
    simp
  obtain ⟨start, isStart⟩ : ∃ start, offset + (part.length + 1 + 1) = start := ⟨_, rfl⟩
  have stop : offset + ('<' :: part ++ '>' :: inner ++ ['>']).length = start + (inner.length + 1) := by
    simp only [List.length_append, List.length_cons, List.length_nil]
    omega
  have opened := laterEvents_open final offset read rfl
  rw [drop_through, Step.mode, isStart, laterEvents_raw final start content closes filled, long,
    drop_through] at opened
  refine ⟨[.markup offset, .markup (start + distance)], by simp, fun _ => ⟨_, rfl⟩, ?_⟩
  rw [whole, stop, opened]
  cases laterEvents final (start + (inner.length + 1)) none behind <;> rfl

theorem crossed_unclosed {ends : Prop} {element more : Text} {tail : Nat}
    (read : openStep more = .enter element tail)
    (content : distanceToEnd? element (more.drop tail) = none) : Crossed ends ('<' :: more) [] := by
  intro final offset
  have opened := laterEvents_open final offset read rfl
  rw [Step.mode, laterEvents_unclosed final _ content] at opened
  refine ⟨[.markup offset], by simp, fun _ => ⟨[], rfl⟩, ?_⟩
  rw [List.append_nil, opened, laterEvents_nil]
  rfl

/-! ### Runs -/

/-- A text whose last character is a letter behind an ampersand. -/
def EndsOpen (text : Text) : Prop := ∃ front c, text = front ++ ['&', c] ∧ isAsciiLetter c = true

/-- The start of the run under way, `acc` being the text of the run so far and `before` what stands in
front of it. -/
def startOf (before acc : Text) : Option Nat := if acc.isEmpty then none else some before.length

section Runs

variable {before acc whole : Text} {events : List Event}

theorem runsOf_text (c : Char) (more : Text) :
    runsOf whole (startOf before acc) (.text (before.length + acc.length) :: events) =
      runsOf whole (startOf before (acc ++ c :: more)) events := by
  have filled : startOf before (acc ++ c :: more) = some before.length := by simp [startOf]
  rw [filled, runsOf]
  cases acc <;> rfl

theorem runBetween_acc {rest : Text} :
    runBetween (before ++ (acc ++ rest)) before.length (before.length + acc.length) =
      if acc.isEmpty then [] else [⟨acc, before.length⟩] := by
  rw [← List.append_assoc, runBetween, slice_append_of_length rfl rfl]

theorem runsOf_nil : runsOf (before ++ acc) (startOf before acc) [] =
    if acc.isEmpty then [] else [⟨acc, before.length⟩] := by
  have run := @runBetween_acc before acc []
  rw [List.append_nil, ← List.length_append] at run
  rw [← run]
  cases acc with
  | nil => simp [startOf, runsOf, runBetween, slice_self]
  | cons c acc => rfl

theorem runsOf_markup_start {rest : Text} :
    runsOf (before ++ (acc ++ rest)) (startOf before acc) (.markup (before.length + acc.length) :: events) =
      (if acc.isEmpty then [] else [⟨acc, before.length⟩]) ++ runsOf (before ++ (acc ++ rest)) none events := by
  rw [← @runBetween_acc before acc rest]
  cases acc with
  | nil => simp [startOf, runsOf, runBetween, slice_self]
  | cons c acc => rfl

theorem runsOf_markups {front : List Event} (only : ∀ event ∈ front, ∃ place, event = .markup place) :
    runsOf whole none (front ++ events) = runsOf whole none events := by
  induction front with
  | nil => rfl
  | cons event front ih =>
    obtain ⟨⟨place, rfl⟩, later⟩ := List.forall_mem_cons.mp only
    exact ih later

theorem runsOf_cut {rest : Text} {front : List Event}
    (only : ∀ event ∈ front, ∃ place, event = .markup place)
    (first : acc ≠ [] → ∃ more, front = .markup (before.length + acc.length) :: more) :
    runsOf (before ++ (acc ++ rest)) (startOf before acc) (front ++ events) =
      (if acc.isEmpty then [] else [⟨acc, before.length⟩]) ++ runsOf (before ++ (acc ++ rest)) none events := by
  by_cases empty : acc = []
  · subst empty
    exact runsOf_markups only
  · obtain ⟨more, rfl⟩ := first empty
    rw [List.cons_append, runsOf_markup_start, runsOf_markups (List.forall_mem_cons.mp only).2]

theorem runsOf_texts {start : Nat} (only : ∀ event ∈ events, ∃ place, event = .text place) :
    runsOf whole (some start) events = runBetween whole start whole.length := by
  induction events with
  | nil => rfl
  | cons event rest ih =>
    obtain ⟨⟨place, rfl⟩, later⟩ := List.forall_mem_cons.mp only
    exact ih later

end Runs

theorem laterEvents_drop (final : Bool) (offset : Nat) (raw : Option Text) (c : Char) (rest : Text) (tail : Nat) :
    laterEvents final (offset + (tail + 1)) raw (rest.drop tail) =
      laterEvents final (offset + (c :: rest.take tail).length) raw (rest.drop tail) := by
  by_cases inside : tail ≤ rest.length
  · rw [List.length_cons, List.length_take, Nat.min_eq_left inside]
  · rw [List.drop_eq_nil_of_le (by omega), laterEvents_nil, laterEvents_nil]

/-- A step at an opening mark leaves no raw element, and enters none but those there are. -/
def Step.Opens : Step → Prop
  | .leave _ => False
  | .enter element _ => element ∈ rawElements
  | _ => True

theorem throughBracket_opens (before : Nat) (rest : Text) : (throughBracket before rest).Opens := by
  unfold throughBracket
  split <;> trivial

theorem sectionStep_opens (rest : Text) : (sectionStep rest).Opens := by
  rcases rest with _ | ⟨c, more⟩
  · trivial
  · rw [sectionStep_cons]
    dsimp only
    split
    · trivial
    · split
      · trivial
      · split <;> trivial

theorem openStep_opens (rest : Text) : (openStep rest).Opens := by
  unfold openStep
  split
  · trivial
  · trivial
  · exact throughBracket_opens 1 _
  · split <;> trivial
  · exact throughBracket_opens 1 _
  · exact sectionStep_opens _
  · exact throughBracket_opens 1 _
  · split
    · split
      · trivial
      · trivial
      · trivial
      · trivial
      · split
        · next raw => exact List.contains_iff_mem.mp raw
        · trivial
    · trivial

theorem step_outside {final : Bool} {c : Char} {rest : Text} {tail : Nat} :
    step final none c rest ≠ .leave tail ∧
      (step final none c rest = .skip tail → c = '<' ∨ EndsOpen (c :: rest)) := by
  by_cases opened : c = '<'
  · subst opened
    refine ⟨fun leaves => ?_, fun _ => .inl rfl⟩
    have opens := openStep_opens rest
    rw [step, if_pos rfl] at leaves
    rwa [leaves] at opens
  rw [step, if_neg opened]
  by_cases reference : c = '&'
  · subst reference
    rw [if_pos rfl]
    unfold referenceStep
    split
    · simp
    · split
      · simp
      · split <;> simp
    · next d more _ =>
      split
      · simp
      · split
        · next letter =>
          split
          · next last =>
            obtain ⟨-, noMore⟩ : final = true ∧ more = [] := by simpa using last
            exact ⟨by simp, fun _ => .inr ⟨[], d, by rw [noMore]; rfl, letter⟩⟩
          · simp
        · simp
  · rw [if_neg reference]
    simp

/-! ### Markup at the start of a text -/

/-- Markup at the start of a text. It starts with an opening mark and is crossed alike in front of every text
that may follow it. -/
structure Leading (ends : Prop) (text markup rest : Text) : Prop where
  parts : text = markup ++ rest
  opened : ∃ more, markup = '<' :: more
  crossed : ∀ behind, (rest = [] → behind = []) → NoNewQuotes rest behind → Crossed ends markup behind

section Leading

variable {ends : Prop} {rest : Text} {found : Step} {tail : Nat}

theorem exists_leading_step (opened : openStep rest = found)
    (kind : found = .markup tail ∨ found = .skip tail ∧ ¬ends) :
    ∃ markup more, Leading ends ('<' :: rest) markup more := by
  have goesOn : found.tail? = some tail := by rcases kind with rfl | ⟨rfl, -⟩ <;> rfl
  have notText : ∀ tail, found ≠ .text tail := by rcases kind with rfl | ⟨rfl, -⟩ <;> simp
  obtain ⟨part, more, rfl, rfl, elsewhere⟩ := exists_takenAlike opened goesOn notText
  exact ⟨'<' :: part ++ ['>'], more, by simp, ⟨_, rfl⟩, fun behind _ quotes =>
    crossed_step (elsewhere behind quotes) kind⟩

theorem exists_endTag {element more : Text} {distance : Nat} (plain : '>' ∉ element)
    (content : distanceToEnd? element more = some distance) :
    ∃ inner tag after, more = inner ++ (tag ++ '>' :: after) ∧ inner.length = distance ∧
      ∀ behind, endTagOf? element (tag ++ '>' :: behind) = some (tag.length + 1) := by
  obtain ⟨length, closes⟩ := distanceToEnd?_some content
  obtain ⟨tag, after, isTag, rfl, alike⟩ := endTagOf?_closes plain closes
  refine ⟨more.take distance, tag, after, by rw [← isTag, List.take_append_drop], ?_, alike⟩
  have length := congrArg List.length isTag
  simp only [List.length_drop, List.length_append, List.length_cons] at length
  rw [List.length_take]
  omega

/-- A raw element leads up to its end tag, or to the end of the text if it has none. -/
theorem exists_leading_enter {element : Text} (opened : openStep rest = .enter element tail) :
    ∃ markup more, Leading ends ('<' :: rest) markup more := by
  have plain : '>' ∉ element := by
    have opens := openStep_opens rest
    rw [opened] at opens
    exact not_mem_rawElement opens
  obtain ⟨part, more, rfl, rfl, elsewhere⟩ := exists_takenAlike opened rfl (by simp)
  cases content : distanceToEnd? element more with
  | none =>
    refine ⟨'<' :: (part ++ '>' :: more), [], by simp, ⟨_, rfl⟩, fun behind isEnd _ => ?_⟩
    rw [isEnd rfl]
    refine crossed_unclosed opened ?_
    rwa [drop_through]
  | some distance =>
    obtain ⟨inner, tag, after, rfl, isDistance, closes⟩ := exists_endTag plain content
    have length : distance + (tag.length + 1) = (inner ++ tag).length + 1 := by
      rw [List.length_append]
      omega
    refine ⟨'<' :: part ++ '>' :: (inner ++ tag) ++ ['>'], after, by simp, ⟨_, rfl⟩, fun behind _ quotes => ?_⟩
    rw [← List.append_assoc] at content
    have ends : endTagOf? element ((inner ++ tag ++ '>' :: behind).drop distance) = some (tag.length + 1) := by
      rw [List.append_assoc, ← isDistance, List.drop_left]
      exact closes behind
    have enters := elsewhere (inner ++ tag ++ '>' :: behind) (by
      simpa using quotes.append (inner ++ tag ++ ['>']))
    have found := distanceToEnd?_bracket plain content (by omega) behind
    exact crossed_raw enters found ends length (Nat.succ_pos _)

end Leading

/-! ### Dividing a text -/

theorem map_ok {α β ε : Type} {result : Except ε α} {f : α → β} {b : β} (h : result.map f = .ok b) :
    ∃ a, result = .ok a ∧ f a = b := by
  cases result with
  | error e => cases h
  | ok a => exact ⟨a, rfl, Except.ok.inj h⟩

/-- Blocks into which a text is divided, `acc` being the part of a run that is read already and `before`
what stands in front of it. -/
structure Divides (before acc text : Text) (events : List Event) (blocks : List Block) : Prop where
  joined : textOfBlocks blocks = acc ++ text
  sound : Sound blocks
  runs : runsOf (before ++ (acc ++ text)) (startOf before acc) events = runsAt before.length blocks

section Divides

variable {final : Bool} {before acc : Text} {events : List Event} {blocks : List Block}

theorem Divides.nil : Divides before acc [] [] [⟨acc, []⟩] where
  joined := by simp [textOfBlocks, Block.text]
  sound := ⟨.inl ⟨rfl, rfl⟩, trivial⟩
  runs := by rw [List.append_nil, runsOf_nil, runsAt, runsAt, List.append_nil]

/-- Text belongs to the run under way, or starts one. -/
theorem Divides.text {taken rest : Text} (filled : taken ≠ [])
    (h : Divides before (acc ++ taken) rest events blocks) :
    Divides before acc (taken ++ rest) (.text (before.length + acc.length) :: events) blocks where
  joined := by rw [h.joined, List.append_assoc]
  sound := h.sound
  runs := by
    obtain ⟨c, more, rfl⟩ := List.exists_cons_of_ne_nil filled
    rw [runsOf_text c more, ← h.runs, List.append_assoc]

/-- What is neither text nor markup belongs to the run under way. -/
theorem Divides.skip {taken rest : Text} (running : acc ≠ [])
    (h : Divides before (acc ++ taken) rest events blocks) :
    Divides before acc (taken ++ rest) events blocks where
  joined := by rw [h.joined, List.append_assoc]
  sound := h.sound
  runs := by
    obtain ⟨c, more, rfl⟩ := List.exists_cons_of_ne_nil running
    rw [← h.runs, List.append_assoc]
    rfl

theorem Divides.texts {c : Char} {rest : Text} (only : ∀ event ∈ events, ∃ place, event = .text place) :
    Divides before acc (c :: rest) (.text (before.length + acc.length) :: events) [⟨acc ++ c :: rest, []⟩] where
  joined := by simp [textOfBlocks, Block.text]
  sound := ⟨.inl ⟨rfl, rfl⟩, trivial⟩
  runs := by
    have filled : startOf before (acc ++ c :: rest) = some before.length := by simp [startOf]
    have run := @runsOf_nil before (acc ++ c :: rest)
    rw [runsOf_text c rest, filled, runsOf_texts only]
    rw [filled] at run
    rw [← runsOf, run, runsAt, runsAt, List.append_nil]

/-- Markup ends the run under way. -/
theorem Divides.markup {text markup rest : Text} (leading : Leading (acc ≠ []) text markup rest)
    (read : laterEvents final (before.length + acc.length) none text = .ok events)
    (later : ∀ events, laterEvents final (before ++ (acc ++ markup)).length none rest = .ok events →
      ∃ blocks, Divides (before ++ (acc ++ markup)) [] rest events blocks) :
    ∃ blocks, Divides before acc text events blocks := by
  obtain ⟨rfl, opened, crossed⟩ := leading
  obtain ⟨front, only, first, taken⟩ := crossed rest id (fun _ _ => id) final (before.length + acc.length)
  rw [taken] at read
  obtain ⟨more, found, rfl⟩ := map_ok read
  have size : before.length + acc.length + markup.length = (before ++ (acc ++ markup)).length := by
    simp only [List.length_append]
    omega
  rw [size] at found
  obtain ⟨blocks, h⟩ := later more found
  have joined : textOfBlocks blocks = rest := h.joined
  refine ⟨⟨acc, markup⟩ :: blocks, ?_, ⟨.inr ⟨opened, by rwa [joined]⟩, h.sound⟩, ?_⟩
  · rw [← joined, ← List.append_assoc]
    rfl
  · have runs := h.runs
    have whole : before ++ (acc ++ markup) ++ ([] ++ rest) = before ++ (acc ++ (markup ++ rest)) := by simp
    rw [whole, List.length_append] at runs
    rw [runsOf_cut only first, runsAt, Block.text, ← runs]
    rfl

theorem EndsOpen.append (front : Text) {text : Text} (h : EndsOpen text) : EndsOpen (front ++ text) := by
  obtain ⟨before, c, rfl, letter⟩ := h
  exact ⟨front ++ before, c, by rw [List.append_assoc], letter⟩

/-- What the first step into a text leaves to be read, in a run that is under way or not. -/
inductive FirstStep (final : Bool) (offset : Nat) (running : Prop) (text : Text) : List Event → Prop where
  | text {final' : Bool} {taken rest : Text} {events : List Event} (parts : text = taken ++ rest) (filled : taken ≠ [])
    (later : laterEvents final' (offset + taken.length) none rest = .ok events) :
    FirstStep final offset running text (.text offset :: events)
  | markup {markup rest : Text} {events : List Event} (leading : Leading running text markup rest)
    (read : laterEvents final offset none text = .ok events) : FirstStep final offset running text events
  | skip {taken rest : Text} {events : List Event} (isRunning : running) (parts : text = taken ++ rest)
    (filled : taken ≠ []) (later : laterEvents final (offset + taken.length) none rest = .ok events) :
    FirstStep final offset running text events
  | halts {events : List Event} (first : final = false) (read : laterEvents true offset none text = .ok events) :
    FirstStep final offset running text events
  | texts {events : List Event} (only : ∀ event ∈ events, ∃ place, event = .text place) :
    FirstStep final offset running text (.text offset :: events)

theorem firstStep {offset : Nat} {running : Prop} {c : Char} {rest : Text}
    (read : laterEvents final offset none (c :: rest) = .ok events) (closed : ¬EndsOpen (c :: rest)) :
    FirstStep final offset running (c :: rest) events := by
  have parts (tail : Nat) : c :: rest = c :: rest.take tail ++ rest.drop tail := by
    rw [List.cons_append, List.take_append_drop]
  have text {final' : Bool} {tail : Nat} {more : List Event}
      (later : laterEvents final' (offset + (tail + 1)) none (rest.drop tail) = .ok more) :
      FirstStep final offset running (c :: rest) (.text offset :: more) :=
    .text (parts tail) (by simp) (laterEvents_drop final' offset none c rest tail ▸ later)
  have ends := step_ends final none c rest
  cases taken : step final none c rest with
  | text tail =>
    rw [laterEvents_goesOn taken rfl] at read
    obtain ⟨more, later, rfl⟩ := map_ok read
    exact text later
  | markup tail =>
    rw [taken] at ends
    obtain ⟨-, rfl, -⟩ := ends
    rw [step, if_pos rfl] at taken
    obtain ⟨markup, more, leading⟩ := exists_leading_step taken (.inl rfl)
    exact .markup leading read
  | enter element tail =>
    rw [taken] at ends
    obtain ⟨-, rfl⟩ := ends
    rw [step, if_pos rfl] at taken
    obtain ⟨markup, more, leading⟩ := exists_leading_enter taken
    exact .markup leading read
  | leave tail => exact absurd taken step_outside.1
  | skip tail =>
    by_cases isRunning : running
    · rw [laterEvents_goesOn taken rfl] at read
      obtain ⟨more, later, rfl⟩ := map_ok read
      exact .skip isRunning (parts tail) (by simp) (laterEvents_drop final offset none c rest tail ▸ later)
    · obtain rfl : c = '<' := (step_outside.2 taken).resolve_right closed
      rw [step, if_pos rfl] at taken
      obtain ⟨markup, more, leading⟩ := exists_leading_step taken (.inr ⟨rfl, isRunning⟩)
      exact .markup leading read
  | incomplete =>
    cases final with
    | true =>
      rw [laterEvents_lost taken] at read
      obtain ⟨more, later, rfl⟩ := map_ok read
      exact text later
    | false => exact .halts rfl (laterEvents_halts (.inl taken) ▸ read)
  | stop =>
    cases final with
    | true =>
      rw [laterEvents_stop taken] at read
      obtain rfl := Except.ok.inj read
      exact .texts (by simp)
    | false => exact .halts rfl (laterEvents_halts (.inr taken) ▸ read)
  | textThenStop tail =>
    rw [laterEvents_textThenStop taken] at read
    obtain ⟨more, later, rfl⟩ := map_ok read
    cases final with
    | true =>
      obtain rfl := Except.ok.inj later
      refine .texts fun event member => ?_
      split at member
      · exact ⟨_, List.mem_singleton.mp member⟩
      · cases member
    | false =>
      rw [if_neg (by simp)] at later
      exact text later
  | refuse refusal => simp [laterEvents_refuse taken] at read

/-- Every text that can be read is divided into blocks. -/
theorem exists_divides {text : Text} (read : laterEvents final (before.length + acc.length) none text = .ok events)
    (closed : ¬EndsOpen text) : ∃ blocks, Divides before acc text events blocks := by
  -- Either the text gets shorter, or the first reading halts and the final one takes up.
  induction size : 2 * text.length + (if final then 0 else 1) using Nat.strongRecOn
    generalizing final before acc text events with
  | ind size ih =>
    rcases text with _ | ⟨c, rest⟩
    · rw [laterEvents_nil] at read
      obtain rfl := Except.ok.inj read
      exact ⟨_, Divides.nil⟩
    have behind {final' : Bool} {before' acc' taken left : Text} {events : List Event}
        (parts : c :: rest = taken ++ left) (filled : taken ≠ [])
        (isOffset : before'.length + acc'.length = before.length + acc.length + taken.length)
        (later : laterEvents final' (before.length + acc.length + taken.length) none left = .ok events) :
        ∃ blocks, Divides before' acc' left events blocks := by
      rw [← isOffset] at later
      rw [parts] at closed size
      refine ih _ ?_ later (fun isOpen => closed (isOpen.append taken)) rfl
      have long := List.length_pos_iff.mpr filled
      rw [← size, List.length_append]
      split <;> split <;> omega
    have step : FirstStep final (before.length + acc.length) (acc ≠ []) (c :: rest) events := firstStep read closed
    cases step with
    | @text _ taken left _ parts filled later =>
      obtain ⟨blocks, h⟩ := @behind _ before (acc ++ taken) _ _ _ parts filled (by
        rw [List.length_append, Nat.add_assoc]) later
      rw [parts]
      exact ⟨blocks, h.text filled⟩
    | @markup markup left _ leading read =>
      refine Divides.markup leading read fun events later => ?_
      obtain ⟨more, opened⟩ := leading.opened
      have isOffset : (before ++ (acc ++ markup)).length = before.length + acc.length + markup.length := by
        simp only [List.length_append]
        omega
      rw [isOffset] at later
      exact behind leading.parts (by simp [opened]) isOffset later
    | @skip taken left _ running parts filled later =>
      obtain ⟨blocks, h⟩ := @behind _ before (acc ++ taken) _ _ _ parts filled (by
        rw [List.length_append, Nat.add_assoc]) later
      rw [parts]
      exact ⟨blocks, h.skip running⟩
    | halts first read =>
      refine ih _ ?_ read closed rfl
      rw [← size, first]
      simp
    | texts only => exact ⟨_, Divides.texts only⟩

end Divides

/-- A text is divided into blocks whose runs are those of the text. -/
theorem textRuns_blocks {text : Text} {runs : List TextRun} (read : textRuns text = .ok runs)
    (closed : ¬EndsOpen text) :
    ∃ blocks, textOfBlocks blocks = text ∧ Sound blocks ∧ runsAt 0 blocks = runs := by
  obtain ⟨found, isFound, read⟩ := bind_ok read
  obtain rfl := Except.ok.inj read
  rw [events_eq_laterEvents] at isFound
  obtain ⟨blocks, h⟩ := @exists_divides false [] [] found text isFound closed
  exact ⟨blocks, h.joined, h.sound, h.runs.symm⟩

end Phrasebook.Markup
