import Phrasebook.Template.Parser
import Phrasebook.Text.Slice

/-!
Templates read by recursive descent. The reader takes tokens from a stream and tags from the pieces of
the text, and calls itself for what is nested in a tag or in a block. Wherever it relies on what was
checked elsewhere it looks again: at the ends of a range, at a token that has to be there, at a tag that
has to make a statement. `Page.descend` reads a whole text.
-/

namespace Phrasebook.Template

/-! ### Slips -/

/-- A mistake of a reader, rather than a fault of what it reads. -/
inductive Slip where
  /-- A range ends in front of its start. -/
  | reversed (span : ReversedSpan)
  /-- An offset lies behind the text. -/
  | outside (offset : Nat)
  /-- A position lies on no line of the text. -/
  | noLine (position : Position)
  /-- A token is needed where none is left. -/
  | noToken
  /-- A tag that ends a branch is taken for a statement. -/
  | noStatement (stop : Stop)

/-- Why a reading ends early. -/
inductive Ending where
  | fault (fault : Fault)
  | slip (slip : Slip)

/-- A text to be read, with the name of its source. -/
structure Page where
  source : String
  text : Text

namespace Page

/-- The reading ends at a fault of the text. -/
def fail {α : Type} (page : Page) (cause : Cause) (offset : Nat) : Except Ending α :=
  .error (.fault (.malformed cause (min offset page.text.length)))

/-- What another reader has come to. -/
def accept {α : Type} (page : Page) : Except Fault α → Except Ending α
  | .ok value => .ok value
  | .error (.malformed cause offset) => page.fail cause offset
  | .error (.longInteger digits) => .error (.fault (.longInteger digits))

/-- The position of an offset of the text. -/
def place (page : Page) (offset : Nat) : Except Ending Position :=
  if offset ≤ page.text.length then .ok (page.text.position offset)
  else .error (.slip (.outside offset))

/-- The range between two offsets. -/
def range (page : Page) (start stop : Nat) : Except Ending Extent := do
  let first ← page.place start
  let last ← page.place stop
  match Span.between page.source first last with
  | .ok _ => .ok ⟨start, stop⟩
  | .error span => .error (.slip (.reversed span))

/-- The offset of a position on a line of the text. -/
def offset (page : Page) (position : Position) : Except Ending Nat :=
  match Text.index? page.text.lines.length (position.line - 1) with
  | some _ => .ok (page.text.offset position).toNat
  | none => .error (.slip (.noLine position))

end Page

/-! ### Tokens -/

/-- The kind of the next token. -/
def peek (tokens : List Token) : Option TokenKind := tokens.head?.map Token.kind

/-- Whether the next token starts an operand. -/
def peeksOperand (tokens : List Token) : Bool := tokens.head?.any Token.startsOperand

/-! Bounds on the tokens that are left, of which the readers below have need. -/

section Left

variable {tokens rest : List Token}

theorem Segments.rest_le (read : Segments tokens.length) : read.rest.length ≤ tokens.length := read.bounded

theorem left_of_named (read : Parsed (List (NamedArg Extent (Expr Extent))) tokens.length) :
    read.rest.length ≤ tokens.length :=
  read.bounded

theorem left_of_shorter (shorter : rest.length < tokens.length) : rest.length ≤ tokens.length - 1 := by
  omega

theorem left_of_arguments (param : Parsed (Expr Extent) (tokens.length - 1))
    (more : Parsed (List (Expr Extent) × Option (NamedArgs Extent (Expr Extent))) param.rest.length) :
    more.rest.length ≤ tokens.length := by
  have := param.bounded
  have := more.bounded
  omega

theorem left_of_sub (shorter : rest.length < tokens.length) (callee : Parsed (Expr Extent) (rest.length - 1))
    (arguments : Parsed (List (Expr Extent) × Option (NamedArgs Extent (Expr Extent))) callee.rest.length)
    {closer : Token} {after : List Token} (left : arguments.rest = closer :: after) :
    after.length ≤ tokens.length - 1 := by
  have := callee.bounded
  have := arguments.bounded
  simp only [left, List.length_cons] at this
  omega

end Left

/-- The next token, where one has to be, and the tokens behind it. -/
def demand : (tokens : List Token) → Except Ending (Token × { rest : List Token // rest.length < tokens.length })
  | [] => .error (.slip .noToken)
  | token :: rest => .ok (token, ⟨rest, Nat.lt_succ_self _⟩)

namespace Page

/-- The segments of a path that has reached the offset `stop`. -/
def segments (page : Page) (stop : Nat) (tokens : List Token) : Except Ending (Segments tokens.length) :=
  if peek tokens = some .separator ∧ tokens.head?.map (·.extent.start) = some stop then do
    let (separator, ⟨rest, shorter⟩) ← demand tokens
    match left : rest with
    | [] => page.fail .missingSegment separator.extent.start
    | segment :: after =>
      if segment.kind = .name ∧ segment.extent.start = separator.extent.stop then do
        let more ← page.segments segment.extent.stop after
        .ok ⟨segment.text :: more.names, more.stop, more.rest, by
          have := more.bounded
          simp only [left, List.length_cons] at shorter
          omega⟩
      else page.fail .missingSegment separator.extent.start
  else .ok ⟨[], stop, tokens, Nat.le_refl _⟩
termination_by tokens.length
decreasing_by simp only [left, List.length_cons] at shorter; omega

/-- The path that starts with the token `first`; `segment` is its first segment. -/
def pathFrom (page : Page) (next : Nat) (data : Bool) (first segment : Token) (rest : List Token) :
    Except Ending (Parsed (Expr Extent) rest.length) := do
  let more ← page.segments segment.extent.stop rest
  let extent ← page.range first.extent.start more.stop
  let path := Path.ofSegments (page.text.slice extent.start extent.stop) data (segment.text :: more.names)
  .ok ⟨.path ⟨next, extent⟩ path, next + 1, more.rest, more.rest_le⟩

/-- The path at the start of the tokens. -/
def path (page : Page) (next : Nat) (tokens : List Token) :
    Except Ending (Parsed (Expr Extent) (tokens.length - 1)) := do
  let (first, ⟨rest, shorter⟩) ← demand tokens
  if first.kind = .data then
    if peek rest = some .name then do
      let (segment, ⟨after, fewer⟩) ← demand rest
      let path ← page.pathFrom next true first segment after
      .ok (path.weaken (by omega))
    else page.fail .missingDataName first.extent.start
  else do
    let path ← page.pathFrom next false first first rest
    .ok (path.weaken (by omega))

mutual

/-- The operand at the start of the tokens. -/
def operand (page : Page) (next : Nat) (tokens : List Token) :
    Except Ending (Parsed (Expr Extent) (tokens.length - 1)) := do
  let (token, ⟨rest, shorter⟩) ← demand tokens
  match token.kind with
  | .openSub =>
    if peeksOperand rest then do
      let callee ← page.operand (next + 1) rest
      let arguments ← page.arguments callee.next callee.rest
      match left : arguments.rest with
      | [] => page.fail .unterminatedSub token.extent.start
      | closer :: after =>
        if closer.kind = .closeSub then do
          let extent ← page.range token.extent.start closer.extent.stop
          let call : Call Extent := ⟨callee.value, arguments.value.1, arguments.value.2⟩
          .ok ⟨.sub ⟨next, extent⟩ call, arguments.next, after, left_of_sub shorter callee arguments left⟩
        else page.fail .unterminatedSub closer.extent.start
    else page.fail .missingCallee token.extent.start
  | .name | .data => page.path next tokens
  | _ => do
    let extent ← page.range token.extent.start token.extent.stop
    let literal ← page.accept (readLiteral token)
    .ok ⟨.literal ⟨next, extent⟩ literal, next + 1, rest, left_of_shorter shorter⟩
termination_by 2 * tokens.length
decreasing_by
  · omega
  · have := callee.bounded
    omega

/-- The positional arguments at the start of the tokens, then the named ones. -/
def arguments (page : Page) (next : Nat) (tokens : List Token) :
    Except Ending (Parsed (List (Expr Extent) × Option (NamedArgs Extent (Expr Extent))) tokens.length) :=
  if _ : peeksOperand tokens ∧ ¬startsNamed tokens then do
    let param ← page.operand next tokens
    let more ← page.arguments param.next param.rest
    .ok ⟨(param.value :: more.value.1, more.value.2), more.next, more.rest, left_of_arguments param more⟩
  else do
    let named ← page.named next tokens
    match named.value with
    | [] => .ok ⟨([], none), named.next, named.rest, left_of_named named⟩
    | first :: others => do
      let last := others.getLast?.getD first
      let extent ← page.range first.label.range.start last.label.range.stop
      .ok ⟨([], some ⟨⟨named.next, extent⟩, first :: others⟩), named.next + 1, named.rest, left_of_named named⟩
termination_by 2 * tokens.length + 1
decreasing_by
  · omega
  · have := param.bounded
    have : 0 < tokens.length := by
      cases tokens with
      | nil => simp_all [peeksOperand]
      | cons => simp
    omega
  · omega

/-- The named arguments at the start of the tokens. -/
def named (page : Page) (next : Nat) (tokens : List Token) :
    Except Ending (Parsed (List (NamedArg Extent (Expr Extent))) tokens.length) :=
  if startsNamed tokens then do
    let (name, ⟨afterName, shorter⟩) ← demand tokens
    let (_, ⟨rest, fewer⟩) ← demand afterName
    if peeksOperand rest then do
      let value ← page.operand next rest
      let stop ← page.offset (page.text.position value.value.label.range.stop)
      let extent ← page.range name.extent.start stop
      let more ← page.named (value.next + 1) value.rest
      .ok ⟨⟨⟨value.next, extent⟩, name.text, value.value⟩ :: more.value, more.next, more.rest, by
        have := value.bounded
        have := more.bounded
        omega⟩
    else page.fail (.missingValue name.text) name.extent.start
  else .ok ⟨[], next, tokens, Nat.le_refl _⟩
termination_by 2 * tokens.length
decreasing_by
  · omega
  · have := value.bounded
    omega

end

/-- The names of block parameters at the start of the tokens, and the tokens behind them. -/
def names (tokens : List Token) : Except Ending (List Text × List Token) :=
  if peek tokens = some .name then do
    let (name, ⟨rest, _⟩) ← demand tokens
    let (others, left) ← names rest
    .ok (name.text :: others, left)
  else .ok ([], tokens)
termination_by tokens.length

/-- The block parameters at the start of the tokens, if there are any, and the tokens behind them. -/
def blockParams (page : Page) (allowed : Bool) (tokens : List Token) :
    Except Ending (List Text × List Token) :=
  if peek tokens = some .openParams then do
    let (opener, ⟨rest, _⟩) ← demand tokens
    if allowed then do
      match ← names rest with
      | (name :: others, closer :: left) =>
        if closer.kind = .closeParams then .ok (name :: others, left)
        else page.fail .malformedBlockParams opener.extent.start
      | _ => page.fail .malformedBlockParams opener.extent.start
    else page.fail .misplacedBlockParams opener.extent.start
  else .ok ([], tokens)

/-- The call inside of a tag. -/
def call (page : Page) (placed : State.Placed) (next : Nat) (allowParams : Bool) :
    Except Ending CallRead := do
  let found ← page.accept (tokens placed.inner placed.tag.inner)
  if found = [] then page.fail .missingExpression placed.start
  else do
    let callee ← page.operand next found
    let arguments ← page.arguments callee.next callee.rest
    match ← page.blockParams allowParams arguments.rest with
    | (blockParams, []) =>
      .ok ⟨⟨callee.value, arguments.value.1, arguments.value.2⟩, blockParams, arguments.next⟩
    | (_, leftover :: _) => page.fail (.unexpectedToken leftover.text) leftover.extent.start

end Page

/-! ### Statements -/

/-- What was read of several pieces, the next free number, the offset reached, and the pieces left. -/
structure Taken (β : Type) (bound : Nat) where
  value : β
  next : Nat
  offset : Nat
  rest : List Piece
  bounded : rest.length ≤ bound

/-- Statements up to the end of the text or to a tag that ends a branch. -/
structure Body (bound : Nat) where
  statements : List (Statement Extent)
  /-- The tag that ends the branch. -/
  stop : Option (State.Placed × Stop)
  next : Nat
  offset : Nat
  rest : List Piece
  bounded : rest.length + stop.toList.length ≤ bound

theorem Body.left_of_lt {rest : List Piece} {bound : Nat} (body : Body rest.length) (shorter : rest.length < bound) :
    body.rest.length ≤ bound := by
  have := body.bounded
  omega

/-- The body with one more statement in front. -/
def Body.cons {bound loose : Nat} (s : Statement Extent) (body : Body bound) (h : bound ≤ loose) : Body loose :=
  ⟨s :: body.statements, body.stop, body.next, body.offset, body.rest, Nat.le_trans body.bounded h⟩

/-- The branches of a block and the close tag behind them. -/
structure Branches where
  first : Program Extent
  second : Option (Program Extent)
  close : State.Placed

namespace Page

/-- The opener that a tag makes. -/
def opener (page : Page) (placed : State.Placed) (next : Nat) (kind : OpenKind) :
    Except Ending (Opener × Nat) := do
  let read ← page.call placed (next + 1) true
  .ok (⟨kind, placed.extent, next, read.call, read.blockParams, read.next⟩, read.next + 1)

/-- The statement that a tag with a call makes. -/
def callStatement (page : Page) (placed : State.Placed) (next : Nat)
    (make : Label Extent → Call Extent → Statement Extent) : Except Ending (Statement Extent × Nat) := do
  let read ← page.call placed (next + 1) false
  let extent ← page.range placed.extent.start placed.extent.stop
  .ok (make ⟨next, extent⟩ read.call, read.next)

/-- The statement that a close tag makes of a block, if it names what the block calls. -/
def closed (page : Page) (opener : Opener) (close : State.Placed) (make : Label Extent → Statement Extent) :
    Except Ending (Statement Extent) :=
  let closed := Text.strip close.tag.inner
  let opened := opener.call.callee.name
  if opened = closed then do
    let extent ← page.range opener.extent.start close.extent.stop
    .ok (make ⟨opener.id, extent⟩)
  else page.fail (.mismatchedClose opened closed) close.start

/-- The statement that a block with its branches makes. -/
def blockStatement (page : Page) (opener : Opener) (branches : Branches) : Except Ending (Statement Extent) :=
  let simple (make : Label Extent → Call Extent → Program Extent → Statement Extent) :=
    if branches.second.isSome then page.fail .elseInSimpleBlock opener.extent.start
    else page.closed opener branches.close fun label => make label opener.call branches.first
  match opener.kind with
  | .block | .inverseBlock =>
    page.closed opener branches.close fun label =>
      .block label opener.call (opener.kind = .inverseBlock) branches.first branches.second
  | .partialBlock => simple .partialBlock
  | .decoratorBlock => simple .decoratorBlock

mutual

/-- The statements at the start of the pieces. `blocked` says why no piece can be cut behind the last. -/
def body (page : Page) (blocked : Option Cause) (next offset : Nat) (pieces : List Piece) :
    Except Ending (Body pieces.length) :=
  match pieces with
  | [] =>
    match blocked with
    | some cause => page.fail cause offset
    | none => .ok ⟨[], none, next, offset, [], Nat.le_refl _⟩
  | .content written value :: rest => do
    let extent ← page.range offset (offset + written.length)
    let more ← page.body blocked (next + 1) extent.stop rest
    .ok (more.cons (.content ⟨next, extent⟩ value written) (Nat.le_succ _))
  | .tag tag :: rest =>
    let placed : State.Placed := ⟨tag, offset⟩
    match tag.kind with
    | .stop stop => .ok ⟨[], some (placed, stop), next, placed.extent.stop, rest, Nat.le_refl _⟩
    | _ => do
      let first ← page.statement blocked next placed rest
      let more ← page.body blocked first.next first.offset first.rest
      .ok (more.cons first.value (Nat.le_succ_of_le first.bounded))
termination_by 4 * pieces.length
decreasing_by
  · simp only [List.length_cons]; omega
  · simp only [List.length_cons]; omega
  · have := first.bounded
    simp only [List.length_cons]; omega

/-- The statement that starts with a tag. -/
def statement (page : Page) (blocked : Option Cause) (next : Nat) (placed : State.Placed) (rest : List Piece) :
    Except Ending (Taken (Statement Extent) rest.length) :=
  let alone (made : Except Ending (Statement Extent × Nat)) :
      Except Ending (Taken (Statement Extent) rest.length) := do
    let (statement, next) ← made
    .ok ⟨statement, next, placed.extent.stop, rest, Nat.le_refl _⟩
  match placed.tag.kind with
  | .comment => alone do
    let extent ← page.range placed.extent.start placed.extent.stop
    .ok (.comment ⟨next, extent⟩ (Text.strip placed.tag.inner), next + 1)
  | .mustache => alone (page.callStatement placed next fun label call => .mustache label call true)
  | .unescaped => alone (page.callStatement placed next fun label call => .mustache label call false)
  | .partialCall => alone (page.callStatement placed next .partialCall)
  | .decorator => alone (page.callStatement placed next .decorator)
  | .block => page.block blocked next placed .block rest
  | .inverseBlock => page.block blocked next placed .inverseBlock rest
  | .partialBlock => page.block blocked next placed .partialBlock rest
  | .decoratorBlock => page.block blocked next placed .decoratorBlock rest
  | .stop stop => .error (.slip (.noStatement stop))
termination_by 4 * rest.length + 3

/-- The block that starts with a tag. -/
def block (page : Page) (blocked : Option Cause) (next : Nat) (placed : State.Placed) (kind : OpenKind)
    (rest : List Piece) : Except Ending (Taken (Statement Extent) rest.length) := do
  let (opener, next) ← page.opener placed next kind
  let branches ← page.branches blocked opener next rest
  let statement ← page.blockStatement opener branches.value
  .ok ⟨statement, branches.next, branches.offset, branches.rest, branches.bounded⟩
termination_by 4 * rest.length + 2

/-- The branches behind an open tag, up to the close tag. A block that is opened by an else tag shares
the close tag of the block around it. -/
def branches (page : Page) (blocked : Option Cause) (opener : Opener) (next : Nat) (rest : List Piece) :
    Except Ending (Taken Branches rest.length) := do
  let body ← page.body blocked next opener.extent.stop rest
  match stopped : body.stop with
  | none => page.fail .unterminatedBlock opener.extent.start
  | some (placed, stop) =>
    let extent ← page.range opener.extent.stop placed.start
    let first : Program Extent := ⟨⟨opener.programId, extent⟩, body.statements, opener.blockParams, false⟩
    have shorter : body.rest.length < rest.length := by
      have := body.bounded
      simp only [stopped, Option.toList_some, List.length_singleton] at this
      omega
    if stop = .close then
      .ok ⟨⟨first, none, placed⟩, body.next, body.offset, body.rest, by omega⟩
    else if stop = .elseTag ∧ Text.strip placed.tag.inner ≠ [] then do
      let (inner, next) ← page.opener placed body.next .block
      let nested ← page.branches blocked inner next body.rest
      let extent ← page.range placed.start nested.value.close.start
      let block : Statement Extent :=
        .block ⟨inner.id, extent⟩ inner.call false nested.value.first nested.value.second
      let second : Program Extent := ⟨⟨nested.next, extent⟩, [block], [], true⟩
      .ok ⟨⟨first, some second, nested.value.close⟩, nested.next + 1, nested.offset, nested.rest, by
        have := nested.bounded
        omega⟩
    else do
      let other ← page.body blocked (body.next + 1) body.offset body.rest
      match other.stop with
      | none => page.fail .unterminatedBlock opener.extent.start
      | some (close, .close) =>
        let extent ← page.range placed.extent.stop close.start
        let second : Program Extent := ⟨⟨body.next, extent⟩, other.statements, [], false⟩
        .ok ⟨⟨first, some second, close⟩, other.next, other.offset, other.rest, other.left_of_lt shorter⟩
      | some (close, stop) => page.fail (.unexpectedStop stop) close.start
termination_by 4 * rest.length + 1

end

/-- The tree of a text. -/
def descend (page : Page) : Except Ending (Program Extent) := do
  let cut := pieces page.text
  let body ← page.body cut.fault 1 0 cut.pieces
  match body.stop with
  | some (placed, stop) => page.fail (.unexpectedStop stop) placed.start
  | none =>
    let extent ← page.range 0 page.text.length
    .ok ⟨⟨0, extent⟩, body.statements, [], false⟩

end Page

end Phrasebook.Template
