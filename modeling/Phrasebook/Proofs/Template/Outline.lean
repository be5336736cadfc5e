import Phrasebook.Proofs.Template.Elsewhere
import Phrasebook.Proofs.Template.Relocation
import Phrasebook.Proofs.Template.Steps

/-!
The parser without numbers and places. An outline is what a state of the parser holds up to labels;
taking a piece of the text is a function of the outline and of the piece alone.
`parse_outline` shows that the outline of a run decides whether a text can be read, and the shape of
its tree. What cannot be read counts here too, so the two runs are compared function by function.
-/

namespace Phrasebook.Template

/-! ### Outlines -/

/-- An open tag without its place. -/
structure Opening where
  kind : OpenKind
  call : Call Unit
  blockParams : List Text

/-- An open block without places: the statements in front of it, the blocks around the innermost one
with their first branches, the innermost block, and its first branch once that is complete. -/
structure OpenBlock where
  before : List (Statement Unit)
  chain : List (Opening × Program Unit)
  opening : Opening
  first : Option (Program Unit)

/-- The open blocks, and the statements of the innermost branch in order. -/
structure Outline where
  blocks : List OpenBlock
  body : List (Statement Unit)

namespace Outline

/-- Nothing has been read. -/
def start : Outline := ⟨[], []⟩

def extend (outline : Outline) (more : List (Statement Unit)) : Outline :=
  { outline with body := outline.body ++ more }

def blockOf (opening : Opening) (first : Program Unit) (second : Option (Program Unit)) :
    Statement Unit :=
  .block .blank opening.call (opening.kind = .inverseBlock) first second

def firstBranch (opening : Opening) (body : List (Statement Unit)) : Program Unit :=
  ⟨.blank, body, opening.blockParams, false⟩

def branches (block : OpenBlock) (body : List (Statement Unit)) :
    Program Unit × Option (Program Unit) :=
  match block.first with
  | none => (firstBranch block.opening body, none)
  | some first => (first, some ⟨.blank, body, [], false⟩)

def closeChain (opening : Opening) (first : Program Unit) (second : Option (Program Unit)) :
    List (Opening × Program Unit) → Opening × Program Unit × Option (Program Unit)
  | [] => (opening, first, second)
  | (outer, outerFirst) :: rest =>
    closeChain outer outerFirst (some ⟨.blank, [blockOf opening first second], [], true⟩) rest

/-- The statement that a close tag makes of a block, unless the block may not have its branches. -/
def closed? (opening : Opening) (first : Program Unit) :
    Option (Program Unit) → Option (Statement Unit)
  | none =>
    match opening.kind with
    | .block | .inverseBlock => some (blockOf opening first none)
    | .partialBlock => some (.partialBlock .blank opening.call first)
    | .decoratorBlock => some (.decoratorBlock .blank opening.call first)
  | some second =>
    match opening.kind with
    | .block | .inverseBlock => some (blockOf opening first (some second))
    | .partialBlock | .decoratorBlock => none

def close (block : OpenBlock) (blocks : List OpenBlock) (body : List (Statement Unit)) (name : Text) :
    Option Outline :=
  let (first, second) := branches block body
  let (opening, first, second) := closeChain block.opening first second block.chain
  if opening.call.callee.name = name then
    (closed? opening first second).map fun s => ⟨blocks, block.before ++ [s]⟩
  else none

def separate (block : OpenBlock) (blocks : List OpenBlock) (body : List (Statement Unit)) (stop : Stop)
    (inner : Text) : Option Outline :=
  match block.first with
  | some _ => none
  | none =>
    let first := firstBranch block.opening body
    if stop = .elseTag ∧ Text.strip inner ≠ [] then
      (callIn? inner true).map fun (call, names) =>
        ⟨⟨block.before, (block.opening, first) :: block.chain, ⟨.block, call, names⟩, none⟩ :: blocks,
          []⟩
    else some ⟨{ block with first := some first } :: blocks, []⟩

def stopAt (outline : Outline) (stop : Stop) (inner : Text) : Option Outline :=
  match outline.blocks with
  | [] => none
  | block :: blocks =>
    match stop with
    | .close => close block blocks outline.body (Text.strip inner)
    | _ => separate block blocks outline.body stop inner

def openBlock (outline : Outline) (kind : OpenKind) (inner : Text) : Option Outline :=
  (callIn? inner true).map fun (call, names) =>
    ⟨⟨outline.body, [], ⟨kind, call, names⟩, none⟩ :: outline.blocks, []⟩

def addCall (outline : Outline) (inner : Text) (make : Call Unit → Statement Unit) : Option Outline :=
  (callIn? inner false).map fun (call, _) => outline.extend [make call]

def takeTag (outline : Outline) (tag : Tag) : Option Outline :=
  match tag.kind with
  | .comment => some (outline.extend [.comment .blank (Text.strip tag.inner)])
  | .mustache => outline.addCall tag.inner fun call => .mustache .blank call true
  | .unescaped => outline.addCall tag.inner fun call => .mustache .blank call false
  | .partialCall => outline.addCall tag.inner (.partialCall .blank)
  | .decorator => outline.addCall tag.inner (.decorator .blank)
  | .block => outline.openBlock .block tag.inner
  | .inverseBlock => outline.openBlock .inverseBlock tag.inner
  | .partialBlock => outline.openBlock .partialBlock tag.inner
  | .decoratorBlock => outline.openBlock .decoratorBlock tag.inner
  | .stop stop => outline.stopAt stop tag.inner

/-- Takes a piece that stands at an offset, content changed. -/
def takeAt (change : OfContent Extent) (offset : Nat) (outline : Outline) : Piece → Option Outline
  | .content written value =>
    some (outline.extend (change ⟨offset, offset + written.length⟩ value written))
  | .tag tag => outline.takeTag tag

/-- Takes pieces that stand one behind the other from an offset on. -/
def runAt (change : OfContent Extent) : Nat → Outline → List Piece → Option Outline
  | _, outline, [] => some outline
  | offset, outline, piece :: rest =>
    (outline.takeAt change offset piece).bind fun next =>
      runAt change (offset + piece.text.length) next rest

/-- Takes pieces in turn, content as it is. -/
def run (outline : Outline) (pieces : List Piece) : Option Outline := runAt .keep 0 outline pieces

theorem runAt_keep (offset : Nat) (outline : Outline) (pieces : List Piece) :
    runAt .keep offset outline pieces = outline.run pieces := by
  unfold run
  induction pieces generalizing offset outline with
  | nil => rfl
  | cons piece rest ih =>
    have same : outline.takeAt .keep offset piece = outline.takeAt .keep 0 piece := by
      cases piece <;> rfl
    simp only [runAt, same, ih (offset + piece.text.length), ← ih (0 + piece.text.length)]

theorem run_cons (outline : Outline) (piece : Piece) (rest : List Piece) :
    outline.run (piece :: rest) = (outline.takeAt .keep 0 piece).bind fun next => next.run rest := by
  unfold run
  rw [runAt]
  simp only [runAt_keep]

theorem run_append (outline : Outline) (first second : List Piece) :
    outline.run (first ++ second) = (outline.run first).bind fun next => next.run second := by
  induction first generalizing outline with
  | nil => rfl
  | cons piece rest ih =>
    rw [List.cons_append, run_cons, run_cons, Option.bind_assoc]
    simp only [ih]

/-- The tree, when the text ends here. -/
def finish (outline : Outline) : Option (Program Unit) :=
  match outline.blocks with
  | [] => some ⟨.blank, outline.body, [], false⟩
  | _ :: _ => none

end Outline

/-! ### The outline of a state -/

theorem toOption_bind {α β ε : Type} (first : Except ε α) (next : α → Except ε β) :
    (first >>= next).toOption = first.toOption.bind fun value => (next value).toOption := by
  cases first <;> rfl

section Change

variable (change : OfContent Extent)

def Opener.outline (opener : Opener) : Opening :=
  ⟨opener.kind, Expr.callShape opener.call, opener.blockParams⟩

def Frame.outline (frame : Frame) : OpenBlock where
  before := Statement.listShapes change frame.before.reverse
  chain := frame.chain.map fun link => (link.1.outline, Statement.programShape change link.2)
  opening := frame.opener.outline
  first := frame.second.map fun second => Statement.programShape change second.first

def State.outline (state : State) : Outline :=
  ⟨state.frames.map (Frame.outline change), Statement.listShapes change state.body.reverse⟩

variable {text : Text} {placed : State.Placed}

theorem Placed.call_outline
    (here : text.slice placed.inner (placed.inner + placed.tag.inner.length) = placed.tag.inner)
    (next : Nat) (allowParams : Bool) :
    (placed.call text next allowParams).toOption.map CallRead.shape =
      callIn? placed.tag.inner allowParams :=
  readCall_callIn? here next placed.start allowParams

theorem State.add_outline (state : State) (next : Nat) (s : Statement Extent) :
    (state.add next s).outline change = (state.outline change).extend (s.shapes change) := by
  simp only [State.outline, State.add, Outline.extend, Statement.listShapes_reverse_cons]

theorem State.addCall_outline (state : State) {make : Label Extent → Call Extent → Statement Extent}
    {made : Call Unit → Statement Unit}
    (here : text.slice placed.inner (placed.inner + placed.tag.inner.length) = placed.tag.inner)
    (shape : ∀ label call, (make label call).shapes change = [made (Expr.callShape call)]) :
    (state.addCall text placed make).toOption.map (State.outline change) =
      (state.outline change).addCall placed.tag.inner made := by
  unfold State.addCall Outline.addCall
  rw [toOption_bind, ← Placed.call_outline here (state.next + 1) false]
  cases placed.call text (state.next + 1) false with
  | error fault => rfl
  | ok read =>
    have added := State.add_outline change state read.next
      (make ⟨state.next, placed.extent⟩ read.call)
    rw [shape] at added
    exact congrArg some added

theorem Placed.opener_outline
    (here : text.slice placed.inner (placed.inner + placed.tag.inner.length) = placed.tag.inner)
    (next : Nat) (kind : OpenKind) :
    (placed.opener text next kind).toOption.map (fun opened => opened.1.outline) =
      (callIn? placed.tag.inner true).map fun read => ⟨kind, read.1, read.2⟩ := by
  unfold State.Placed.opener
  rw [toOption_bind, ← Placed.call_outline here (next + 1) true]
  cases placed.call text (next + 1) true <;> rfl

theorem State.openBlock_outline (state : State)
    (here : text.slice placed.inner (placed.inner + placed.tag.inner.length) = placed.tag.inner)
    (kind : OpenKind) :
    (state.openBlock text placed kind).toOption.map (State.outline change) =
      (state.outline change).openBlock kind placed.tag.inner := by
  have opened := Placed.opener_outline here state.next kind
  unfold State.openBlock Outline.openBlock
  rw [toOption_bind]
  cases read : placed.opener text state.next kind with
  | error fault =>
    rw [read] at opened
    rw [Option.map_eq_none_iff.mp opened.symm]
    rfl
  | ok opener =>
    rw [read] at opened
    obtain ⟨⟨call, names⟩, called, same⟩ := Option.map_eq_some_iff.mp opened.symm
    rw [called]
    simp only [Except.toOption, Option.bind_some, Option.map_some, State.outline, List.map_cons,
      Frame.outline, ← same, List.map_nil, Option.map_none, List.reverse_nil, Statement.listShapes]

theorem blockOf_shape (opener : Opener) (stop : Nat) (first : Program Extent)
    (second : Option (Program Extent)) :
    (State.blockOf opener stop first second).shapes change =
      [Outline.blockOf opener.outline (Statement.programShape change first)
        (second.map (Statement.programShape change))] := by
  simp only [State.blockOf, Statement.shapes, Statement.branchShape_eq]
  rfl

theorem firstBranch_shape (opener : Opener) (body : List (Statement Extent)) (stop : Nat) :
    Statement.programShape change (State.firstBranch opener body stop) =
      Outline.firstBranch opener.outline (Statement.listShapes change body.reverse) := by
  unfold State.firstBranch
  rw [Statement.programShape]
  rfl

theorem branches_outline (frame : Frame) (body : List (Statement Extent)) (stop : Nat) :
    Outline.branches (frame.outline change) (Statement.listShapes change body.reverse) =
      (Statement.programShape change (State.branches frame body stop).1,
        (State.branches frame body stop).2.map (Statement.programShape change)) := by
  unfold Outline.branches Frame.outline
  cases isSecond : frame.second with
  | none => simp only [State.branches_of_none isSecond, Option.map_none, firstBranch_shape]
  | some second => simp only [State.branches_of_some isSecond, Option.map_some, Statement.programShape]

theorem closeChain_outline (stop : Nat) (opener : Opener) (first : Program Extent)
    (second : Option (Program Extent)) (next : Nat) (chain : List (Opener × Program Extent)) :
    Outline.closeChain opener.outline (Statement.programShape change first)
        (second.map (Statement.programShape change))
        (chain.map fun link => (link.1.outline, Statement.programShape change link.2)) =
      let closed := State.closeChain stop opener first second next chain
      (closed.1.outline, Statement.programShape change closed.2.1,
        closed.2.2.1.map (Statement.programShape change)) := by
  induction chain generalizing opener first second next with
  | nil => rfl
  | cons link rest ih =>
    obtain ⟨outer, outerFirst⟩ := link
    have nested := blockOf_shape change opener stop first second
    have outward := ih outer outerFirst (some ⟨⟨next, ⟨opener.extent.start, stop⟩⟩,
      [State.blockOf opener stop first second], [], true⟩) (next + 1)
    simp only [Option.map_some, Statement.programShape, Statement.listShapes, nested,
      List.append_nil] at outward
    exact outward

theorem State.close_outline (state : State) (frame : Frame) (frames : List Frame) :
    (state.close frame frames placed).toOption.map (State.outline change) =
      Outline.close (frame.outline change) (frames.map (Frame.outline change))
        (Statement.listShapes change state.body.reverse) (Text.strip placed.tag.inner) := by
  have chained := closeChain_outline change placed.start frame.opener
    (State.branches frame state.body placed.start).1 (State.branches frame state.body placed.start).2
    state.next frame.chain
  rcases closed : State.closeChain placed.start frame.opener
    (State.branches frame state.body placed.start).1 (State.branches frame state.body placed.start).2
    state.next frame.chain with ⟨opener, first, second, next⟩
  rw [closed] at chained
  have frameOpening : (frame.outline change).opening = frame.opener.outline := rfl
  have frameChain : (frame.outline change).chain =
      frame.chain.map fun link => (link.1.outline, Statement.programShape change link.2) := rfl
  have name : (Opener.outline opener).call.callee.name = opener.call.callee.name := by
    simp [Opener.outline]
  have kind : (Opener.outline opener).kind = opener.kind := rfl
  have finish (s : Statement Extent) (shape : Statement Unit) (same : s.shapes change = [shape]) :
      State.outline change { state with next, frames, body := s :: frame.before } =
        ⟨frames.map (Frame.outline change), (frame.outline change).before ++ [shape]⟩ := by
    simp only [State.outline, Statement.listShapes_reverse_cons, same]
    rfl
  simp only [State.close, closed, Outline.close, branches_outline change frame state.body placed.start,
    frameOpening, frameChain, chained, name]
  by_cases matched : opener.call.callee.name = Text.strip placed.tag.inner
  · simp only [if_pos matched, Outline.closed?, kind]
    cases opener.kind with
    | block => cases second <;> exact congrArg some (finish _ _ (blockOf_shape change opener _ first _))
    | inverseBlock => cases second <;> exact congrArg some (finish _ _ (blockOf_shape change opener _ first _))
    | partialBlock =>
      cases second with
      | none => exact congrArg some (finish _ _ rfl)
      | some branch => rfl
    | decoratorBlock =>
      cases second with
      | none => exact congrArg some (finish _ _ rfl)
      | some branch => rfl
  · simp only [if_neg matched]
    cases opener.kind <;> cases second <;> rfl

theorem State.separate_outline (state : State) (frame : Frame) (frames : List Frame) (stop : Stop)
    (here : text.slice placed.inner (placed.inner + placed.tag.inner.length) = placed.tag.inner) :
    (state.separate text frame frames placed stop).toOption.map (State.outline change) =
      Outline.separate (frame.outline change) (frames.map (Frame.outline change))
        (Statement.listShapes change state.body.reverse) stop placed.tag.inner := by
  unfold State.separate Outline.separate
  have first : (frame.outline change).first =
      frame.second.map fun second => Statement.programShape change second.first := rfl
  rw [first]
  cases frame.second with
  | some second => rfl
  | none =>
    simp only [Option.map_none]
    split
    · have opened := Placed.opener_outline here state.next .block
      rw [toOption_bind]
      cases read : placed.opener text state.next .block with
      | error fault =>
        rw [read] at opened
        rw [Option.map_eq_none_iff.mp opened.symm]
        rfl
      | ok opener =>
        rw [read] at opened
        obtain ⟨⟨call, names⟩, called, same⟩ := Option.map_eq_some_iff.mp opened.symm
        rw [called]
        simp only [Except.toOption, Option.bind_some, Option.map_some, State.outline, List.map_cons,
          Frame.outline, ← same, firstBranch_shape, Option.map_none, List.reverse_nil,
          Statement.listShapes]
    · simp only [Except.toOption, Option.map_some, State.outline, List.map_cons, Frame.outline,
        firstBranch_shape, List.reverse_nil, Statement.listShapes]

theorem State.stopAt_outline (state : State) (stop : Stop)
    (here : text.slice placed.inner (placed.inner + placed.tag.inner.length) = placed.tag.inner) :
    (state.stopAt text placed stop).toOption.map (State.outline change) =
      (state.outline change).stopAt stop placed.tag.inner := by
  unfold State.stopAt Outline.stopAt
  have blocks : (state.outline change).blocks = state.frames.map (Frame.outline change) := rfl
  rw [blocks]
  cases state.frames with
  | nil => rfl
  | cons frame frames =>
    cases stop with
    | close => exact State.close_outline change state frame frames
    | elseTag => exact State.separate_outline change state frame frames .elseTag here
    | inverse => exact State.separate_outline change state frame frames .inverse here

theorem State.takeTag_outline (state : State)
    (here : text.slice placed.inner (placed.inner + placed.tag.inner.length) = placed.tag.inner) :
    (state.takeTag text placed).toOption.map (State.outline change) =
      (state.outline change).takeTag placed.tag := by
  unfold State.takeTag Outline.takeTag
  cases placed.tag.kind with
  | comment => exact congrArg some (State.add_outline change state _ _)
  | mustache => exact State.addCall_outline change state here fun _ _ => rfl
  | unescaped => exact State.addCall_outline change state here fun _ _ => rfl
  | partialCall => exact State.addCall_outline change state here fun _ _ => rfl
  | decorator => exact State.addCall_outline change state here fun _ _ => rfl
  | block => exact State.openBlock_outline change state here .block
  | inverseBlock => exact State.openBlock_outline change state here .inverseBlock
  | partialBlock => exact State.openBlock_outline change state here .partialBlock
  | decoratorBlock => exact State.openBlock_outline change state here .decoratorBlock
  | stop stop => exact State.stopAt_outline change state stop here

/-! ### Runs -/

/-- The inner text of a tag stands behind its opening. -/
theorem slice_inner {before rest : Text} {tag : Tag} {start : Nat} (reached : start = before.length) :
    Text.slice (before ++ (tag.text ++ rest)) (start + tag.opening.length)
      (start + tag.opening.length + tag.inner.length) = tag.inner := by
  have parts : before ++ (tag.text ++ rest) =
      (before ++ tag.opening) ++ tag.inner ++ (tag.closing ++ rest) := by
    simp [Tag.text]
  rw [parts]
  exact Text.slice_append_of_length (by simp [reached]) (by simp [reached])

theorem State.take_outline {before : Text} (rest : Text) (piece : Piece) {state : State}
    (reached : state.offset = before.length) :
    (State.take (before ++ (piece.text ++ rest)) state piece).toOption.map (State.outline change) =
      (state.outline change).takeAt change before.length piece := by
  rw [← reached]
  unfold State.take
  cases piece with
  | content written value =>
    exact congrArg some (State.add_outline change state (state.next + 1)
      (.content ⟨state.next, ⟨state.offset, state.offset + written.length⟩⟩ value written))
  | tag tag =>
    have written : (Piece.tag tag).text = tag.text := rfl
    have here : Text.slice (before ++ (tag.text ++ rest)) _ _ = tag.inner := slice_inner reached
    have taken : (state.takeTag _ ⟨tag, state.offset⟩).toOption.map _ = _ :=
      State.takeTag_outline change state here
    rw [written, toOption_bind]
    unfold Outline.takeAt
    simp only at taken ⊢
    rw [← taken]
    cases State.takeTag state (before ++ (tag.text ++ rest)) ⟨tag, state.offset⟩ <;> rfl

theorem State.run_outline {before : Text} (pieces : List Piece) {state : State}
    (reached : state.offset = before.length) :
    (pieces.foldlM (State.take (before ++ textOf pieces)) state).toOption.map (State.outline change) =
      Outline.runAt change before.length (state.outline change) pieces := by
  induction pieces generalizing before state with
  | nil => rfl
  | cons piece rest ih =>
    have taken := State.take_outline change (textOf rest) piece reached
    rw [textOf_cons, List.foldlM_cons, toOption_bind, Outline.runAt, ← taken]
    cases step : State.take (before ++ (piece.text ++ textOf rest)) state piece with
    | error fault => rfl
    | ok next =>
      have offset := State.take_offset step
      have run := @ih (before ++ piece.text) next (by simp [offset, reached])
      rw [List.append_assoc, List.length_append] at run
      exact run

/-- The run of outlines over the pieces of a text decides whether the text can be read, and the shape
of its tree. -/
theorem parse_outline (change : OfContent Extent) (text : Text) :
    (parse text).toOption.map (ProgramOf.edited change) =
      match (pieces text).fault with
      | some _ => none
      | none => (Outline.runAt change 0 .start (pieces text).pieces).bind Outline.finish := by
  unfold parse
  rw [toOption_bind]
  cases whole : (pieces text).fault with
  | some cause =>
    cases (pieces text).pieces.foldlM (State.take text) State.start <;> rfl
  | none =>
    obtain ⟨joined, -⟩ := pieces_readInTurn whole
    have run := @State.run_outline change [] (pieces text).pieces State.start rfl
    rw [List.nil_append, joined] at run
    have start : State.start.outline change = Outline.start := rfl
    rw [start] at run
    rw [List.length_nil] at run
    rw [← run]
    cases (pieces text).pieces.foldlM (State.take text) State.start with
    | error fault => rfl
    | ok state =>
      simp only [Except.toOption, Option.bind_some, Option.map_some, State.finish, Outline.finish,
        State.outline]
      cases state.frames <;> rfl

end Change

/-- A text is read as its pieces are, whatever numbers and places they get. -/
theorem load_of_outline (source : String) {text : Text} {list : List Piece} {tree : Program Unit}
    (turns : ReadInTurn list) (written : textOf list = text)
    (run : (Outline.start.run list).bind Outline.finish = some tree) :
    ∃ template, Template.load source text = .ok template ∧ template.program.shape = tree := by
  have outline := parse_outline .keep text
  rw [← written, pieces_textOf turns] at outline
  simp only at outline
  rw [Outline.runAt_keep, run, written] at outline
  obtain ⟨program, read, shape⟩ := Option.map_eq_some_iff.mp outline
  refine ⟨⟨source, text, program.mapRange text.span⟩, ?_, ?_⟩
  · unfold Template.load
    rw [ok_of_toOption read]
  · rw [ProgramOf.shape_mapRange]
    exact shape

end Phrasebook.Template
