import Phrasebook.Template.Parser
import Phrasebook.Proofs.Template.Call
import Phrasebook.Proofs.Template.Reading

/-!
The steps of the parser. `State.Takes` lists all that taking a tag can come to, with what the tag and the open
blocks must be for it. A property that each step keeps is an `Invariant`; it holds of the state in which a whole
text has been read.
-/

namespace Phrasebook.Template

/-! ### Branches and close tags -/

/-- The kind of tag that opens a block of a role. -/
def OpenKind.tagKind : OpenKind → TagKind
  | .block => .block
  | .inverseBlock => .inverseBlock
  | .partialBlock => .partialBlock
  | .decoratorBlock => .decoratorBlock

theorem State.branches_of_none {frame : Frame} (noSecond : frame.second = none) (body : List (Statement Extent))
    (stop : Nat) : State.branches frame body stop = (State.firstBranch frame.opener body stop, none) := by
  rw [State.branches, noSecond]

theorem State.branches_of_some {frame : Frame} {second : SecondBranch} (isSecond : frame.second = some second)
    (body : List (Statement Extent)) (stop : Nat) :
    State.branches frame body stop =
      (second.first, some ⟨⟨second.id, ⟨second.start, stop⟩⟩, body.reverse, [], false⟩) := by
  rw [State.branches, isSecond]

/-- The statement that a close tag ending at `stop` makes of an open block with its branches. -/
inductive Closes (opener : Opener) (stop : Nat) (first : Program Extent) :
    Option (Program Extent) → Statement Extent → Prop where
  | block {second : Option (Program Extent)} (kind : opener.kind = .block) :
    Closes opener stop first second (State.blockOf opener stop first second)
  | inverseBlock {second : Option (Program Extent)} (kind : opener.kind = .inverseBlock) :
    Closes opener stop first second (State.blockOf opener stop first second)
  | partialBlock (kind : opener.kind = .partialBlock) :
    Closes opener stop first none
      (.partialBlock ⟨opener.id, ⟨opener.extent.start, stop⟩⟩ opener.call first)
  | decoratorBlock (kind : opener.kind = .decoratorBlock) :
    Closes opener stop first none
      (.decoratorBlock ⟨opener.id, ⟨opener.extent.start, stop⟩⟩ opener.call first)

theorem Closes.range {opener : Opener} {stop : Nat} {first : Program Extent}
    {second : Option (Program Extent)} {s : Statement Extent} (h : Closes opener stop first second s) :
    s.label.range = ⟨opener.extent.start, stop⟩ := by
  cases h <;> rfl

theorem State.close_ok {state result : State} {frame : Frame} {frames : List Frame}
    {placed : State.Placed} {opener : Opener} {first : Program Extent}
    {second : Option (Program Extent)} {next : Nat}
    (closed : State.closeChain placed.start frame.opener
        (State.branches frame state.body placed.start).1
        (State.branches frame state.body placed.start).2 state.next frame.chain =
      (opener, first, second, next))
    (run : state.close frame frames placed = .ok result) :
    ∃ s, Closes opener placed.extent.stop first second s ∧
      result = { state with next, frames, body := s :: frame.before } := by
  have finish {s : Statement Extent} (h : Closes opener placed.extent.stop first second s)
      {fault : Fault} (run : (if opener.call.callee.name = Text.strip placed.tag.inner
        then .ok { state with next, frames, body := s :: frame.before }
        else .error fault) = Except.ok result) :
      ∃ s, Closes opener placed.extent.stop first second s ∧
        result = { state with next, frames, body := s :: frame.before } := by
    split at run
    · exact ⟨s, h, (Except.ok.inj run).symm⟩
    · simp at run
  simp only [State.close, closed] at run
  split at run
  · next kind => exact finish (.block kind) run
  · next kind => exact finish (.inverseBlock kind) run
  · next kind =>
    cases second with
    | none => exact finish (.partialBlock kind) run
    | some branch => simp at run
  · next kind =>
    cases second with
    | none => exact finish (.decoratorBlock kind) run
    | some branch => simp at run

/-! ### Tags -/

/-- The statement that a tag with a call makes. -/
inductive MakesCall : TagKind → (Label Extent → Call Extent → Statement Extent) → Prop where
  | mustache : MakesCall .mustache fun label call => .mustache label call true
  | unescaped : MakesCall .unescaped fun label call => .mustache label call false
  | partialCall : MakesCall .partialCall .partialCall
  | decorator : MakesCall .decorator .decorator

/-- What taking a tag can come to. -/
inductive State.Takes (text : Text) (placed : State.Placed) (state : State) : State → Prop where
  | comment (kind : placed.tag.kind = .comment) :
    Takes text placed state (state.add (state.next + 1)
      (.comment ⟨state.next, placed.extent⟩ (Text.strip placed.tag.inner)))
  | call {make : Label Extent → Call Extent → Statement Extent} {read : CallRead}
      (makes : MakesCall placed.tag.kind make) (called : placed.call text (state.next + 1) false = .ok read) :
    Takes text placed state (state.add read.next (make ⟨state.next, placed.extent⟩ read.call))
  | opens {role : OpenKind} {opener : Opener} {next : Nat} (kind : placed.tag.kind = role.tagKind)
      (opened : placed.opener text state.next role = .ok (opener, next)) :
    Takes text placed state
      { state with next, frames := ⟨state.body, [], opener, none⟩ :: state.frames, body := [] }
  | chains {frame : Frame} {frames : List Frame} {opener : Opener} {next : Nat}
      (kind : placed.tag.kind = .stop .elseTag) (isOpen : state.frames = frame :: frames)
      (noSecond : frame.second = none) (opened : placed.opener text state.next .block = .ok (opener, next)) :
    Takes text placed state
      { state with
        next
        frames := { frame with
          chain := (frame.opener, State.firstBranch frame.opener state.body placed.start) :: frame.chain
          opener
          second := none } :: frames
        body := [] }
  | separates {stop : Stop} {frame : Frame} {frames : List Frame} (kind : placed.tag.kind = .stop stop)
      (notClose : stop ≠ .close) (isOpen : state.frames = frame :: frames) (noSecond : frame.second = none) :
    Takes text placed state
      { state with
        next := state.next + 1
        frames := { frame with
          second := some ⟨State.firstBranch frame.opener state.body placed.start, state.next,
            placed.extent.stop⟩ } :: frames
        body := [] }
  | closes {frame : Frame} {frames : List Frame} {opener : Opener} {first : Program Extent}
      {second : Option (Program Extent)} {next : Nat} {s : Statement Extent}
      (kind : placed.tag.kind = .stop .close) (isOpen : state.frames = frame :: frames)
      (chain : State.closeChain placed.start frame.opener (State.branches frame state.body placed.start).1
        (State.branches frame state.body placed.start).2 state.next frame.chain = (opener, first, second, next))
      (closes : Closes opener placed.extent.stop first second s) :
    Takes text placed state { state with next, frames, body := s :: frame.before }

section Tags

variable {text : Text} {placed : State.Placed} {state result : State}

theorem State.addCall_takes {make : Label Extent → Call Extent → Statement Extent}
    (makes : MakesCall placed.tag.kind make) (run : state.addCall text placed make = .ok result) :
    state.Takes text placed result := by
  obtain ⟨read, called, run⟩ := bind_ok run
  obtain rfl := Except.ok.inj run
  exact .call makes called

theorem State.openBlock_takes (role : OpenKind) (kind : placed.tag.kind = role.tagKind)
    (run : state.openBlock text placed role = .ok result) : state.Takes text placed result := by
  obtain ⟨⟨opener, next⟩, opened, run⟩ := bind_ok run
  obtain rfl := Except.ok.inj run
  exact .opens kind opened

theorem State.separate_takes {frame : Frame} {frames : List Frame} {stop : Stop}
    (kind : placed.tag.kind = .stop stop) (notClose : stop ≠ .close) (isOpen : state.frames = frame :: frames)
    (run : state.separate text frame frames placed stop = .ok result) : state.Takes text placed result := by
  cases noSecond : frame.second with
  | some second => simp [State.separate, noSecond] at run
  | none =>
    simp only [State.separate, noSecond] at run
    split at run
    · next isElse =>
      obtain ⟨rfl, -⟩ := isElse
      obtain ⟨⟨opener, next⟩, opened, run⟩ := bind_ok run
      obtain rfl := Except.ok.inj run
      exact .chains kind isOpen noSecond opened
    · obtain rfl := Except.ok.inj run
      exact .separates kind notClose isOpen noSecond

theorem State.stopAt_takes {stop : Stop} (kind : placed.tag.kind = .stop stop)
    (run : state.stopAt text placed stop = .ok result) : state.Takes text placed result := by
  cases isOpen : state.frames with
  | nil => simp [State.stopAt, isOpen] at run
  | cons frame frames =>
    simp only [State.stopAt, isOpen] at run
    cases stop with
    | close =>
      obtain ⟨⟨opener, first, second, next⟩, chain⟩ : ∃ closed, State.closeChain placed.start frame.opener
        (State.branches frame state.body placed.start).1 (State.branches frame state.body placed.start).2
        state.next frame.chain = closed := ⟨_, rfl⟩
      obtain ⟨s, closes, rfl⟩ := State.close_ok chain run
      exact .closes kind isOpen chain closes
    | elseTag | inverse => exact State.separate_takes kind (by decide) isOpen run

theorem State.takeTag_takes (run : state.takeTag text placed = .ok result) : state.Takes text placed result := by
  unfold State.takeTag at run
  split at run
  · next kind =>
    obtain rfl := Except.ok.inj run
    exact .comment kind
  · next kind => exact State.addCall_takes (kind ▸ .mustache) run
  · next kind => exact State.addCall_takes (kind ▸ .unescaped) run
  · next kind => exact State.addCall_takes (kind ▸ .partialCall) run
  · next kind => exact State.addCall_takes (kind ▸ .decorator) run
  · next kind => exact State.openBlock_takes .block kind run
  · next kind => exact State.openBlock_takes .inverseBlock kind run
  · next kind => exact State.openBlock_takes .partialBlock kind run
  · next kind => exact State.openBlock_takes .decoratorBlock kind run
  · next kind => exact State.stopAt_takes kind run

end Tags

/-! ### Runs -/

theorem State.take_offset {text : Text} {piece : Piece} {state result : State}
    (h : State.take text state piece = .ok result) :
    result.offset = state.offset + piece.text.length := by
  unfold State.take at h
  cases piece with
  | content written value =>
    obtain rfl := Except.ok.inj h
    rfl
  | tag tag =>
    obtain ⟨next, -, h⟩ := bind_ok h
    obtain rfl := Except.ok.inj h
    rfl

/-- A property of states that holds before anything is read and is kept when a piece is taken at its place,
behind `front` and in front of `back`. -/
structure Invariant (text : Text) (Holds : State → Prop) : Prop where
  start : Holds State.start
  content {front written value back : Text} {state : State} : text = front ++ (written ++ back) →
    ReadBefore back (.content written value) → state.offset = front.length → Holds state →
    Holds { state.add (state.next + 1)
      (.content ⟨state.next, ⟨front.length, front.length + written.length⟩⟩ value written) with
      offset := front.length + written.length }
  tag {front back : Text} {tag : Tag} {state next : State} : text = front ++ (tag.text ++ back) →
    ReadBefore back (.tag tag) → state.offset = front.length → Holds state →
    state.Takes text ⟨tag, front.length⟩ next → Holds { next with offset := front.length + tag.text.length }

namespace Invariant

variable {Holds : State → Prop}

theorem of_take {text front back : Text} {piece : Piece} {state result : State} (h : Invariant text Holds)
    (parts : text = front ++ (piece.text ++ back)) (read : ReadBefore back piece)
    (reached : state.offset = front.length) (holds : Holds state) (run : State.take text state piece = .ok result) :
    Holds result := by
  cases piece with
  | content written value =>
    obtain rfl := Except.ok.inj run
    rw [reached]
    exact h.content parts read reached holds
  | tag tag =>
    obtain ⟨next, taken, run⟩ := bind_ok run
    obtain rfl := Except.ok.inj run
    rw [reached] at taken ⊢
    exact h.tag parts read reached holds (State.takeTag_takes taken)

theorem of_run {before : Text} {pieces : List Piece} {state result : State}
    (h : Invariant (before ++ textOf pieces) Holds) (turns : ReadInTurn pieces)
    (reached : state.offset = before.length) (holds : Holds state)
    (run : pieces.foldlM (State.take (before ++ textOf pieces)) state = .ok result) :
    Holds result ∧ result.offset = (before ++ textOf pieces).length := by
  -- The pieces taken go over into `before`, so the text is the same all along.
  induction pieces generalizing before state with
  | nil =>
    obtain rfl := Except.ok.inj run
    exact ⟨holds, by simpa using reached⟩
  | cons piece rest ih =>
    rw [textOf_cons] at h run ⊢
    obtain ⟨next, taken, run⟩ := bind_ok run
    have offset := State.take_offset taken
    have holds := h.of_take rfl turns.1 reached holds taken
    rw [← List.append_assoc] at h run ⊢
    exact ih h turns.2 (by simp [offset, reached]) holds run

/-- What holds of the state in which a text has been read. No block is open in it, and its statements are the
body of the tree. -/
theorem of_parse {text : Text} {tree : Program Extent} (h : Invariant text Holds) (parsed : parse text = .ok tree) :
    ∃ state, (pieces text).pieces.foldlM (State.take text) State.start = .ok state ∧ Holds state ∧
      state.offset = text.length ∧ state.frames = [] ∧
      tree = ⟨⟨0, ⟨0, text.length⟩⟩, state.body.reverse, [], false⟩ := by
  obtain ⟨state, run, finished⟩ := bind_ok parsed
  split at finished
  · cases finished
  · next whole =>
    obtain ⟨joined, turns⟩ := pieces_readInTurn whole
    have joined : [] ++ textOf (pieces text).pieces = text := joined
    have inRun := @of_run Holds [] _ _ _ (by rwa [joined]) turns rfl h.start (by rwa [joined])
    rw [joined] at inRun
    unfold State.finish at finished
    split at finished
    · next closed => exact ⟨state, run, inRun.1, inRun.2, closed, (Except.ok.inj finished).symm⟩
    · cases finished

end Invariant

end Phrasebook.Template
