import Phrasebook.Template.Piece
import Phrasebook.Template.Call

/-!
The tree of a template. The pieces of the text are taken one by one; blocks that are still open wait
on a stack. `parse` gives the tree with offsets and `Source.parse` the tree with positions.
-/

namespace Phrasebook

namespace Template

inductive OpenKind where
  | block
  | inverseBlock
  | partialBlock
  | decoratorBlock
deriving DecidableEq, Repr

/-- An open tag, or an else tag that opens a nested block: where it stands, its call, and the
numbers of its block and of its first branch. -/
structure Opener where
  kind : OpenKind
  extent : Extent
  id : Nat
  call : Call Extent
  blockParams : List Text
  programId : Nat

/-- The start of the second branch of a block, after its first branch was completed. -/
structure SecondBranch where
  first : Program Extent
  id : Nat
  start : Nat

/-- An open block. In a chain of else tags with calls the blocks around the innermost one have only
their first branches; they end where the innermost block ends. -/
structure Frame where
  /-- The statements in front of the block, the latest first. -/
  before : List (Statement Extent)
  /-- The blocks around the innermost one, the closest first. -/
  chain : List (Opener × Program Extent)
  /-- The innermost block. -/
  opener : Opener
  /-- The second branch, once its else tag was read. -/
  second : Option SecondBranch

/-- What has been read: the next free number, the offset reached, the open blocks, and the
statements of the innermost branch, the latest first. -/
structure State where
  next : Nat
  offset : Nat
  frames : List Frame
  body : List (Statement Extent)

/-- Nothing has been read; the number 0 is the root's. -/
def State.start : State := ⟨1, 0, [], []⟩

namespace State

def add (state : State) (next : Nat) (statement : Statement Extent) : State :=
  { state with next, body := statement :: state.body }

structure Placed where
  tag : Tag
  start : Nat

def Placed.extent (placed : Placed) : Extent :=
  ⟨placed.start, placed.start + placed.tag.text.length⟩

def Placed.inner (placed : Placed) : Nat := placed.start + placed.tag.opening.length

def Placed.call (placed : Placed) (text : Text) (next : Nat) (allowParams : Bool) :
    Except Fault CallRead :=
  readCall text next placed.start placed.inner placed.tag.inner allowParams

def Placed.opener (placed : Placed) (text : Text) (next : Nat) (kind : OpenKind) :
    Except Fault (Opener × Nat) := do
  let read ← placed.call text (next + 1) true
  .ok (⟨kind, placed.extent, next, read.call, read.blockParams, read.next⟩, read.next + 1)

def openBlock (state : State) (text : Text) (placed : Placed) (kind : OpenKind) :
    Except Fault State := do
  let (opener, next) ← placed.opener text state.next kind
  .ok { state with next, frames := ⟨state.body, [], opener, none⟩ :: state.frames, body := [] }

def firstBranch (opener : Opener) (body : List (Statement Extent)) (stop : Nat) : Program Extent :=
  ⟨⟨opener.programId, ⟨opener.extent.stop, stop⟩⟩, body.reverse, opener.blockParams, false⟩

/-- The branches of the innermost block, the first in source order first, ended at `stop`. -/
def branches (frame : Frame) (body : List (Statement Extent)) (stop : Nat) :
    Program Extent × Option (Program Extent) :=
  match frame.second with
  | none => (firstBranch frame.opener body stop, none)
  | some second => (second.first, some ⟨⟨second.id, ⟨second.start, stop⟩⟩, body.reverse, [], false⟩)

def blockOf (opener : Opener) (stop : Nat) (first : Program Extent)
    (second : Option (Program Extent)) : Statement Extent :=
  .block ⟨opener.id, ⟨opener.extent.start, stop⟩⟩ opener.call (opener.kind = .inverseBlock) first
    second

/-- The outermost block of a chain: each block becomes the only statement of the second branch of
the block around it. The result is that block's opener, its branches, and the next free number. -/
def closeChain (stop : Nat) (opener : Opener) (first : Program Extent)
    (second : Option (Program Extent)) (next : Nat) :
    List (Opener × Program Extent) → Opener × Program Extent × Option (Program Extent) × Nat
  | [] => (opener, first, second, next)
  | (outer, outerFirst) :: rest =>
    let nested := blockOf opener stop first second
    let branch : Program Extent := ⟨⟨next, ⟨opener.extent.start, stop⟩⟩, [nested], [], true⟩
    closeChain stop outer outerFirst (some branch) (next + 1) rest

def close (state : State) (frame : Frame) (frames : List Frame) (placed : Placed) :
    Except Fault State :=
  let (first, second) := branches frame state.body placed.start
  let (opener, first, second, next) :=
    closeChain placed.start frame.opener first second state.next frame.chain
  let stop := placed.extent.stop
  let closed := Text.strip placed.tag.inner
  let opened := opener.call.callee.name
  let finish (statement : Statement Extent) : Except Fault State :=
    if opened = closed then .ok { state with next, frames, body := statement :: frame.before }
    else .error (.malformed (.mismatchedClose opened closed) placed.start)
  let simple (make : Label Extent → Call Extent → Program Extent → Statement Extent) :
      Except Fault State :=
    if second.isSome then .error (.malformed .elseInSimpleBlock opener.extent.start)
    else finish (make ⟨opener.id, ⟨opener.extent.start, stop⟩⟩ opener.call first)
  match opener.kind with
  | .block | .inverseBlock => finish (blockOf opener stop first second)
  | .partialBlock => simple .partialBlock
  | .decoratorBlock => simple .decoratorBlock

/-- Ends the first branch of the innermost block at an else tag or an inverse tag. An else tag with
a call opens a nested block, any other starts the second branch. -/
def separate (state : State) (text : Text) (frame : Frame) (frames : List Frame)
    (placed : Placed) (stop : Stop) : Except Fault State :=
  match frame.second with
  | some _ => .error (.malformed (.unexpectedStop stop) placed.start)
  | none =>
    let first := firstBranch frame.opener state.body placed.start
    if stop = .elseTag ∧ Text.strip placed.tag.inner ≠ [] then do
      let (opener, next) ← placed.opener text state.next .block
      let frame := { frame with chain := (frame.opener, first) :: frame.chain, opener }
      .ok { state with next, frames := frame :: frames, body := [] }
    else
      let frame := { frame with second := some ⟨first, state.next, placed.extent.stop⟩ }
      .ok { state with next := state.next + 1, frames := frame :: frames, body := [] }

def stopAt (state : State) (text : Text) (placed : Placed) (stop : Stop) : Except Fault State :=
  match state.frames with
  | [] => .error (.malformed (.unexpectedStop stop) placed.start)
  | frame :: frames =>
    match stop with
    | .close => state.close frame frames placed
    | _ => state.separate text frame frames placed stop

def addCall (state : State) (text : Text) (placed : Placed)
    (make : Label Extent → Call Extent → Statement Extent) : Except Fault State := do
  let read ← placed.call text (state.next + 1) false
  .ok (state.add read.next (make ⟨state.next, placed.extent⟩ read.call))

def takeTag (state : State) (text : Text) (placed : Placed) : Except Fault State :=
  match placed.tag.kind with
  | .comment =>
    .ok (state.add (state.next + 1)
      (.comment ⟨state.next, placed.extent⟩ (Text.strip placed.tag.inner)))
  | .mustache => state.addCall text placed fun label call => .mustache label call true
  | .unescaped => state.addCall text placed fun label call => .mustache label call false
  | .partialCall => state.addCall text placed .partialCall
  | .decorator => state.addCall text placed .decorator
  | .block => state.openBlock text placed .block
  | .inverseBlock => state.openBlock text placed .inverseBlock
  | .partialBlock => state.openBlock text placed .partialBlock
  | .decoratorBlock => state.openBlock text placed .decoratorBlock
  | .stop stop => state.stopAt text placed stop

def take (text : Text) (state : State) (piece : Piece) : Except Fault State := do
  let stop := state.offset + piece.text.length
  let state ← match piece with
    | .content written value =>
      .ok (state.add (state.next + 1)
        (.content ⟨state.next, ⟨state.offset, stop⟩⟩ value written))
    | .tag tag => state.takeTag text ⟨tag, state.offset⟩
  .ok { state with offset := stop }

def finish (state : State) (length : Nat) : Except Fault (Program Extent) :=
  match state.frames with
  | [] => .ok ⟨⟨0, ⟨0, length⟩⟩, state.body.reverse, [], false⟩
  | frame :: _ => .error (.malformed .unterminatedBlock frame.opener.extent.start)

end State

def parse (text : Text) : Except Fault (Program Extent) := do
  let cut := pieces text
  let state ← cut.pieces.foldlM (State.take text) State.start
  match cut.fault with
  | some cause => .error (.malformed cause state.offset)
  | none => state.finish text.length

inductive ParseError where
  | malformed (fault : SyntaxFault)
  | longInteger (digits : Nat)
deriving DecidableEq, Repr

def Fault.locate (source : String) (text : Text) : Fault → ParseError
  | .malformed cause offset => .malformed ⟨source, cause, text.position offset⟩
  | .longInteger digits => .longInteger digits

end Template

structure Template where
  source : String
  text : Text
  program : Template.Program Span

def Template.load (source : String) (text : Text) : Except ParseError Template :=
  match parse text with
  | .ok program => .ok ⟨source, text, program.mapRange text.span⟩
  | .error fault => .error (fault.locate source text)

end Phrasebook
