import Phrasebook.Proofs.Extract.Faults
import Phrasebook.Proofs.Template.Descent.Calls

/-!
Trees read by descent. The parser keeps open blocks on a stack where the descent calls itself. Both take the
same pieces: what the descent reads of a body is what the parser puts on the innermost branch, whatever blocks
are open around it. So the descent never slips, and every fault lies in the text.
-/

namespace Phrasebook.Template

open Extract

/-! ### Ranges of statements -/

/-- The node covers a range of a text, and only a program may be empty. -/
def Ranged (text : Text) (node : Node Span) : Prop :=
  ∃ extent : Extent, node.label.range = text.span extent ∧ extent.stop ≤ text.length ∧
    (extent.start < extent.stop ∨ extent.start = extent.stop ∧ node.kind = .program)

/-- The nodes of a statement cover ranges of a text. -/
def Statement.Ranged (text : Text) (s : Statement Extent) : Prop :=
  ∀ node ∈ (s.mapRange text.span).nodes, Template.Ranged text node

/-- The nodes of statements cover ranges of a text. -/
def Statement.ListRanged (text : Text) (body : List (Statement Extent)) : Prop :=
  ∀ node ∈ Statement.listNodes (Statement.mapList text.span body), Template.Ranged text node

/-- The nodes of a program cover ranges of a text. -/
def Statement.ProgramRanged (text : Text) (program : Program Extent) : Prop :=
  ∀ node ∈ Statement.programNodes (Statement.mapProgram text.span program), Template.Ranged text node

theorem Within.ranged {text : Text} {call : Call Extent} (h : Within text (Expr.callNodes call)) :
    ∀ node ∈ Expr.callNodes (Expr.mapCall text.span call), Ranged text node := by
  intro node member
  obtain ⟨-, origin, isIn, same⟩ := callNodes_mapCall member
  exact ⟨origin.label.range, congrArg Label.range same, (h origin isIn).2, .inl (h origin isIn).1⟩

theorem Statement.ListRanged.nil (text : Text) : Statement.ListRanged text [] := by
  simp [Statement.ListRanged, Statement.mapList, Statement.listNodes]

theorem Statement.ListRanged.cons {text : Text} {s : Statement Extent} {body : List (Statement Extent)}
    (first : s.Ranged text) (others : Statement.ListRanged text body) : Statement.ListRanged text (s :: body) :=
  List.forall_mem_append.mpr ⟨first, others⟩

theorem Statement.ListRanged.program {text : Text} {body : List (Statement Extent)} (h : Statement.ListRanged text body)
    {start stop : Nat} (forward : start ≤ stop) (inside : stop ≤ text.length) (id : Nat) (blockParams : List Text)
    (chained : Bool) : Statement.ProgramRanged text ⟨⟨id, ⟨start, stop⟩⟩, body, blockParams, chained⟩ :=
  List.forall_mem_cons.mpr
    ⟨⟨⟨start, stop⟩, rfl, inside, (Nat.lt_or_eq_of_le forward).imp_right fun same => ⟨same, rfl⟩⟩, h⟩

theorem Statement.block_ranged {text : Text} {label : Label Extent} {call : Call Extent} {inverted : Bool}
    {first : Program Extent} {second : Option (Program Extent)} (forward : label.range.start < label.range.stop)
    (inside : label.range.stop ≤ text.length) (within : Within text (Expr.callNodes call))
    (firstRanged : Statement.ProgramRanged text first)
    (secondRanged : ∀ branch, second = some branch → Statement.ProgramRanged text branch) :
    (Statement.block label call inverted first second).Ranged text := by
  intro node member
  rcases mem_nodes_block member with rfl | inCall | inFirst | ⟨branch, isSecond, inSecond⟩
  · exact ⟨label.range, rfl, inside, .inl forward⟩
  · exact within.ranged node inCall
  · exact firstRanged node inFirst
  · cases second with
    | none => cases isSecond
    | some program =>
      obtain rfl := Option.some.inj isSecond
      exact secondRanged program rfl node inSecond

/-! ### Tags -/

/-- A tag stands at its place in a text. -/
structure Stands (text : Text) (placed : State.Placed) : Prop where
  place : ∃ before after, text = before ++ placed.tag.text ++ after ∧ before.length = placed.start
  sound : (Piece.tag placed.tag).Sound

theorem Onward.stands {text : Text} {offset : Nat} {tag : Tag} {rest : List Piece}
    (h : Onward text offset (.tag tag :: rest)) : Stands text ⟨tag, offset⟩ := by
  obtain ⟨⟨before, after, split, here⟩, sound⟩ := h
  exact ⟨⟨before, textOf rest ++ after, by simp [split, Piece.text], here⟩, sound _ List.mem_cons_self⟩

theorem Stands.range {text : Text} {placed : State.Placed} (h : Stands text placed) :
    placed.start < placed.extent.stop ∧ placed.extent.stop ≤ text.length := by
  obtain ⟨⟨before, after, split, here⟩, opening, -⟩ := h
  have filled := List.length_pos_iff.mpr opening
  have whole := congrArg List.length split
  simp only [State.Placed.extent, Tag.text, List.length_append] at *
  omega

theorem Stands.inside {text : Text} {placed : State.Placed} (h : Stands text placed) :
    placed.start ≤ text.length :=
  Nat.le_of_lt (Nat.lt_of_lt_of_le h.range.1 h.range.2)

/-- Whether a tag has a call in it. -/
def Tag.Calls (tag : Tag) : Prop := tag.kind ≠ .comment ∧ tag.kind ≠ .stop .inverse

variable {page : Page}

theorem Stands.call_agrees {placed : State.Placed} (h : Stands page.text placed) (calls : placed.tag.Calls)
    (next : Nat) (allowParams : Bool) :
    Agrees page.text (fun read => Within page.text (Expr.callNodes read.call)) (page.call placed next allowParams)
      (placed.call page.text next allowParams) := by
  have inside := h.inside
  obtain ⟨⟨before, after, split, here⟩, -, ends⟩ := h
  refine Template.call_agrees (before ++ placed.tag.opening) (placed.tag.closing ++ after) ?_ ?_
    (ends calls.1 calls.2 after) inside
  · simp [split, Tag.text]
  · simp [State.Placed.inner, here]

theorem opener_agrees {placed : State.Placed} (here : Stands page.text placed) (calls : placed.tag.Calls)
    (next : Nat) (kind : OpenKind) :
    Agrees page.text
      (fun made => made.1.kind = kind ∧ made.1.extent = placed.extent ∧ Within page.text (Expr.callNodes made.1.call))
      (page.opener placed next kind) (placed.opener page.text next kind) :=
  (here.call_agrees calls _ _).bind fun _ within => .ok ⟨rfl, rfl, within⟩

/-- A statement that is made of its label and a call. -/
structure Calling (make : Label Extent → Call Extent → Statement Extent) : Prop where
  ranged : ∀ {text : Text} {label : Label Extent} {call : Call Extent}, label.range.start < label.range.stop →
    label.range.stop ≤ text.length → Within text (Expr.callNodes call) → (make label call).Ranged text

theorem callStatement_agrees {placed : State.Placed} (here : Stands page.text placed) (calls : placed.tag.Calls)
    (next : Nat) {make : Label Extent → Call Extent → Statement Extent} (calling : Calling make) :
    Agrees page.text (fun made => made.1.Ranged page.text) (page.callStatement placed next make) (do
      let read ← placed.call page.text (next + 1) false
      .ok (make ⟨next, placed.extent⟩ read.call, read.next)) := by
  refine (here.call_agrees calls _ _).bind fun read within => ?_
  obtain ⟨forward, inside⟩ := here.range
  have isRange : page.range placed.extent.start placed.extent.stop = .ok placed.extent :=
    Page.range_eq (Nat.le_of_lt forward) inside
  rw [isRange, ok_bind]
  exact .ok (calling.ranged forward inside within)

/-! ### Following the parser -/

/-- What the parser makes of what it has read when it goes on with the pieces left. -/
def resume (text : Text) (blocked : Option Cause) (pieces : List Piece) (state : State) :
    Except Fault (Program Extent) := do
  let state ← pieces.foldlM (State.take text) state
  match blocked with
  | some cause => .error (.malformed cause state.offset)
  | none => state.finish text.length

theorem resume_content (text : Text) (blocked : Option Cause) (written value : Text) (rest : List Piece)
    (state : State) :
    resume text blocked (.content written value :: rest) state =
      resume text blocked rest
        ⟨state.next + 1, state.offset + written.length, state.frames,
          .content ⟨state.next, ⟨state.offset, state.offset + written.length⟩⟩ value written :: state.body⟩ := by
  rw [resume, List.foldlM_cons]
  rfl

theorem resume_tag (text : Text) (blocked : Option Cause) (tag : Tag) (rest : List Piece) (state : State) :
    resume text blocked (.tag tag :: rest) state =
      (state.takeTag text ⟨tag, state.offset⟩ >>= fun taken =>
        resume text blocked rest { taken with offset := (State.Placed.extent ⟨tag, state.offset⟩).stop }) := by
  rw [resume, List.foldlM_cons]
  simp only [State.take, bind_assoc]
  rfl

/-- A reading leads to a good value, and the parser goes on as it would with this value, or both come to
one fault in the text. -/
inductive Follows {α : Type} (text : Text) (good : α → Prop) (onward : α → Except Fault (Program Extent)) :
    Except Ending α → Except Fault (Program Extent) → Prop where
  | ok {value : α} (h : good value) : Follows text good onward (.ok value) (onward value)
  | fault {fault : Fault} (h : Founded text fault) :
    Follows text good onward (.error (.fault fault)) (.error fault)

theorem Follows.of_eq {α : Type} {text : Text} {good : α → Prop} {onward : α → Except Fault (Program Extent)}
    {value : α} {run : Except Fault (Program Extent)} (h : good value) (same : run = onward value) :
    Follows text good onward (.ok value) run :=
  same ▸ .ok h

theorem Follows.bind {α β : Type} {text : Text} {good : α → Prop} {good' : β → Prop}
    {onward : α → Except Fault (Program Extent)} {onward' : β → Except Fault (Program Extent)}
    {first : Except Ending α} {next : α → Except Ending β} {run : Except Fault (Program Extent)}
    (h : Follows text good onward first run)
    (later : ∀ value, good value → Follows text good' onward' (next value) (onward value)) :
    Follows text good' onward' (first >>= next) run := by
  cases h with
  | ok h => exact later _ h
  | fault h => exact .fault h

theorem Follows.agrees {α : Type} {text : Text} {good : α → Prop} {good' : Program Extent → Prop}
    {onward : α → Except Fault (Program Extent)} {first : Except Ending α} {next : α → Except Ending (Program Extent)}
    {run : Except Fault (Program Extent)} (h : Follows text good onward first run)
    (later : ∀ value, good value → Agrees text good' (next value) (onward value)) :
    Agrees text good' (first >>= next) run := by
  cases h with
  | ok h => exact later _ h
  | fault h => exact .fault h

theorem Agrees.follows {α β : Type} {text : Text} {good : α → Prop} {good' : β → Prop}
    {onward : β → Except Fault (Program Extent)} {first : Except Ending α} {second : Except Fault α}
    {next : α → Except Ending β} {next' : α → Except Fault (Program Extent)} (h : Agrees text good first second)
    (later : ∀ value, good value → Follows text good' onward (next value) (next' value)) :
    Follows text good' onward (first >>= next) (second >>= next') := by
  cases h with
  | ok h => exact later _ h
  | fault h => exact .fault h

/-! ### What the parser does behind a body, a statement and a block -/

/-- The parser behind a body that it has put on a branch. -/
def Body.onward {bound : Nat} (text : Text) (blocked : Option Cause) (frames : List Frame)
    (before : List (Statement Extent)) (body : Body bound) : Except Fault (Program Extent) :=
  let branch := body.statements.reverse ++ before
  match body.stop with
  | none => State.finish ⟨body.next, body.offset, frames, branch⟩ text.length
  | some (placed, stop) => do
    let state ← State.stopAt ⟨body.next, placed.start, frames, branch⟩ text placed stop
    resume text blocked body.rest { state with offset := body.offset }

/-- The parser behind a statement that it has put on a branch. -/
def Taken.onward {bound : Nat} (text : Text) (blocked : Option Cause) (frames : List Frame)
    (before : List (Statement Extent)) (taken : Taken (Statement Extent) bound) : Except Fault (Program Extent) :=
  resume text blocked taken.rest ⟨taken.next, taken.offset, frames, taken.value :: before⟩

/-- The statement that a close tag makes of a block with its branches. -/
def Opener.sealed (opener : Opener) (close : State.Placed) (first : Program Extent)
    (second : Option (Program Extent)) : Except Fault (Statement Extent) :=
  let closed := Text.strip close.tag.inner
  let opened := opener.call.callee.name
  let extent : Extent := ⟨opener.extent.start, close.extent.stop⟩
  let finish (statement : Statement Extent) : Except Fault (Statement Extent) :=
    if opened = closed then .ok statement else .error (.malformed (.mismatchedClose opened closed) close.start)
  let simple (make : Label Extent → Call Extent → Program Extent → Statement Extent) :
      Except Fault (Statement Extent) :=
    if second.isSome then .error (.malformed .elseInSimpleBlock opener.extent.start)
    else finish (make ⟨opener.id, extent⟩ opener.call first)
  match opener.kind with
  | .block | .inverseBlock => finish (State.blockOf opener close.extent.stop first second)
  | .partialBlock => simple .partialBlock
  | .decoratorBlock => simple .decoratorBlock

/-- The parser behind the branches of a block, with the blocks of a chain around it. -/
def Branches.onward {bound : Nat} (text : Text) (blocked : Option Cause) (opener : Opener)
    (chain : List (Opener × Program Extent)) (frames : List Frame) (before : List (Statement Extent))
    (taken : Taken Branches bound) : Except Fault (Program Extent) :=
  let close := taken.value.close
  let (outermost, first, second, next) :=
    State.closeChain close.start opener taken.value.first taken.value.second taken.next chain
  do
    let statement ← outermost.sealed close first second
    resume text blocked taken.rest ⟨next, taken.offset, frames, statement :: before⟩

theorem State.close_eq (state : State) (frame : Frame) (frames : List Frame) (placed : Placed) :
    state.close frame frames placed =
      (let (first, second) := branches frame state.body placed.start
      let (opener, first, second, next) :=
        closeChain placed.start frame.opener first second state.next frame.chain
      (opener.sealed placed first second).map fun statement =>
        { state with next, frames, body := statement :: frame.before }) := by
  unfold State.close Opener.sealed
  dsimp only
  generalize closeChain _ _ _ _ _ _ = closed
  obtain ⟨opener, first, second, next⟩ := closed
  dsimp only
  cases opener.kind with
  | block | inverseBlock =>
    dsimp only
    split <;> rfl
  | partialBlock | decoratorBlock =>
    dsimp only
    split
    · rfl
    · split <;> rfl

theorem State.stopAt_plain (text : Text) {placed : Placed} {stop : Stop} (notClose : stop ≠ .close)
    (plain : ¬(stop = .elseTag ∧ Text.strip placed.tag.inner ≠ [])) (next offset : Nat)
    (before : List (Statement Extent)) (chain : List (Opener × Program Extent)) (opener : Opener)
    (frames : List Frame) (body : List (Statement Extent)) :
    stopAt ⟨next, offset, ⟨before, chain, opener, none⟩ :: frames, body⟩ text placed stop =
      .ok ⟨next + 1, offset,
        ⟨before, chain, opener, some ⟨firstBranch opener body placed.start, next, placed.extent.stop⟩⟩ :: frames,
        []⟩ := by
  cases stop with
  | close => exact absurd rfl notClose
  | elseTag | inverse =>
    dsimp only [stopAt, separate]
    rw [if_neg plain]

theorem State.stopAt_nested (text : Text) {placed : Placed} (nested : Text.strip placed.tag.inner ≠ [])
    (next offset : Nat) (before : List (Statement Extent)) (chain : List (Opener × Program Extent))
    (opener : Opener) (frames : List Frame) (body : List (Statement Extent)) :
    stopAt ⟨next, offset, ⟨before, chain, opener, none⟩ :: frames, body⟩ text placed .elseTag = (do
      let (inner, next) ← placed.opener text next .block
      .ok ⟨next, offset, ⟨before, (opener, firstBranch opener body placed.start) :: chain, inner, none⟩ :: frames,
        []⟩) := by
  dsimp only [stopAt, separate]
  rw [if_pos ⟨rfl, nested⟩]

/-- Behind a close tag the parser has put the whole block on the branch around it. -/
theorem Branches.onward_of_close (text : Text) (blocked : Option Cause) (frames : List Frame) (state : State)
    (frame : Frame) {placed : State.Placed} {first : Program Extent} {second : Option (Program Extent)}
    (ends : State.branches frame state.body placed.start = (first, second)) {bound offset : Nat} {rest : List Piece}
    (le : rest.length ≤ bound) :
    (state.close frame frames placed >>= fun closed => resume text blocked rest { closed with offset }) =
      Branches.onward text blocked frame.opener frame.chain frames frame.before
        (⟨⟨first, second, placed⟩, state.next, offset, rest, le⟩ : Taken Branches bound) := by
  rw [State.close_eq, ends, Branches.onward]
  dsimp only
  generalize Opener.sealed _ _ _ _ = ended
  cases ended <;> rfl

theorem Page.fail_follows {α : Type} {good : α → Prop} {onward : α → Except Fault (Program Extent)} {page : Page}
    (cause : Cause) {offset : Nat} (inside : offset ≤ page.text.length) :
    Follows page.text good onward (page.fail cause offset) (.error (.malformed cause offset)) := by
  rw [fail, Nat.min_eq_left inside]
  exact .fault (.malformed cause inside)

/-! ### The end of a block -/

/-- An opener was read in a text. -/
structure Opener.Sound (text : Text) (opener : Opener) : Prop where
  forward : opener.extent.start < opener.extent.stop
  inside : opener.extent.stop ≤ text.length
  within : Within text (Expr.callNodes opener.call)

theorem Opener.Sound.start_inside {text : Text} {opener : Opener} (h : opener.Sound text) :
    opener.extent.start ≤ text.length :=
  Nat.le_of_lt (Nat.lt_of_lt_of_le h.forward h.inside)

/-- The branches of a block behind an offset, with the close tag at its place. -/
structure Branches.From {bound : Nat} (text : Text) (start : Nat) (taken : Taken Branches bound) : Prop where
  first : Statement.ProgramRanged text taken.value.first
  second : ∀ branch, taken.value.second = some branch → Statement.ProgramRanged text branch
  ahead : start ≤ taken.value.close.start
  close : Stands text taken.value.close
  reached : taken.value.close.extent.stop = taken.offset
  left : Onward text taken.offset taken.rest

theorem closed_agrees {opener : Opener} {close : State.Placed} (here : Stands page.text close)
    (forward : opener.extent.start ≤ close.start) {make : Label Extent → Statement Extent}
    (made : (make ⟨opener.id, ⟨opener.extent.start, close.extent.stop⟩⟩).Ranged page.text) :
    Agrees page.text (Statement.Ranged page.text) (page.closed opener close make)
      (if opener.call.callee.name = Text.strip close.tag.inner then
        .ok (make ⟨opener.id, ⟨opener.extent.start, close.extent.stop⟩⟩)
      else .error (.malformed (.mismatchedClose opener.call.callee.name (Text.strip close.tag.inner)) close.start)) := by
  obtain ⟨ahead, inside⟩ := here.range
  unfold Page.closed
  dsimp only
  split
  · rw [Page.range_eq (by omega) inside, ok_bind]
    exact .ok made
  · exact Page.fail_agrees _ here.inside

theorem blockStatement_agrees {bound : Nat} {opener : Opener} {taken : Taken Branches bound}
    (sound : opener.Sound page.text) (good : Branches.From page.text opener.extent.stop taken) :
    Agrees page.text (Statement.Ranged page.text) (page.blockStatement opener taken.value)
      (opener.sealed taken.value.close taken.value.first taken.value.second) := by
  obtain ⟨closes, inside⟩ := good.close.range
  have ahead := good.ahead
  have opens := sound.forward
  have onward : opener.extent.start ≤ taken.value.close.start := by omega
  have forward : opener.extent.start < taken.value.close.extent.stop := by omega
  unfold Page.blockStatement Opener.sealed State.blockOf
  dsimp only
  cases kind : opener.kind with
  | block | inverseBlock =>
    refine closed_agrees good.close onward ?_
    exact Statement.block_ranged forward inside sound.within good.first good.second
  | partialBlock | decoratorBlock =>
    dsimp only
    split
    · exact Page.fail_agrees _ sound.start_inside
    · refine closed_agrees good.close onward ?_
      exact List.forall_mem_cons.mpr ⟨⟨_, rfl, inside, .inl forward⟩,
        List.forall_mem_append.mpr ⟨sound.within.ranged, good.first⟩⟩

/-! ### Bodies and branches

The readers of bodies, statements, blocks and branches call each other on fewer pieces. Bodies and branches are
treated under the assumption that those of fewer than `size` pieces follow the parser. -/

/-- The statements of a body behind an offset, and the tag that ends it at its place. -/
structure Body.From {bound : Nat} (text : Text) (start : Nat) (body : Body bound) : Prop where
  ranged : Statement.ListRanged text body.statements
  stopped : ∀ placed stop, body.stop = some (placed, stop) →
    start ≤ placed.start ∧ Stands text placed ∧ placed.tag.kind = .stop stop ∧ placed.extent.stop = body.offset
  left : Onward text body.offset body.rest

/-- A statement behind an offset. -/
structure Taken.From {bound : Nat} (text : Text) (start : Nat) (taken : Taken (Statement Extent) bound) : Prop where
  ranged : taken.value.Ranged text
  ahead : start ≤ taken.offset
  left : Onward text taken.offset taken.rest

section Readers

variable (page : Page) (blocked : Option Cause) (size : Nat)

/-- The descent follows the parser through bodies of fewer than `size` pieces. -/
def BodiesFollow : Prop :=
  ∀ (next offset : Nat) (pieces : List Piece) (frames : List Frame) (before : List (Statement Extent)),
    pieces.length < size → Onward page.text offset pieces →
    Follows page.text (Body.From page.text offset) (Body.onward page.text blocked frames before)
      (page.body blocked next offset pieces) (resume page.text blocked pieces ⟨next, offset, frames, before⟩)

/-- The descent follows the parser through branches of fewer than `size` pieces. -/
def BranchesFollow : Prop :=
  ∀ (opener : Opener) (next : Nat) (rest : List Piece) (chain : List (Opener × Program Extent))
    (frames : List Frame) (before : List (Statement Extent)),
    rest.length < size → opener.Sound page.text → Onward page.text opener.extent.stop rest →
    Follows page.text (Branches.From page.text opener.extent.stop)
      (Branches.onward page.text blocked opener chain frames before) (page.branches blocked opener next rest)
      (resume page.text blocked rest ⟨next, opener.extent.stop, ⟨before, chain, opener, none⟩ :: frames, []⟩)

variable {page blocked size}

theorem opener_sound {placed : State.Placed} {opener : Opener} (here : Stands page.text placed)
    (extent : opener.extent = placed.extent) (within : Within page.text (Expr.callNodes opener.call)) :
    opener.Sound page.text := by
  obtain ⟨forward, inside⟩ := here.range
  refine ⟨?_, ?_, within⟩
  · rw [extent]
    exact forward
  · rw [extent]
    exact inside

theorem block_follows (branches : BranchesFollow page blocked size) {next : Nat} {placed : State.Placed}
    {kind : OpenKind} {rest : List Piece} (frames : List Frame) (before : List (Statement Extent))
    (short : rest.length < size) (here : Stands page.text placed) (calls : placed.tag.Calls)
    (left : Onward page.text placed.extent.stop rest) :
    Follows page.text (Taken.From page.text placed.start) (Taken.onward page.text blocked frames before)
      (page.block blocked next placed kind rest)
      (State.openBlock ⟨next, placed.start, frames, before⟩ page.text placed kind >>= fun taken =>
        resume page.text blocked rest { taken with offset := placed.extent.stop }) := by
  rw [Page.block, State.openBlock, bind_assoc]
  refine (opener_agrees here calls next kind).follows fun ⟨opener, next⟩ ⟨_, extent, within⟩ => ?_
  have sound := opener_sound here extent within
  have opens := here.range.1
  dsimp only at extent ⊢
  rw [← extent] at left opens ⊢
  refine (branches opener next rest [] frames before short sound left).bind fun closed good => ?_
  refine (blockStatement_agrees sound good).follows fun statement ranged => .ok ⟨ranged, ?_, good.left⟩
  have ahead := good.ahead
  have forward := good.close.range.1
  have reached := good.reached
  simp only [State.Placed.extent] at forward reached
  simp only
  omega

theorem callStatement_follows {next : Nat} {placed : State.Placed} {rest : List Piece} (frames : List Frame)
    (before : List (Statement Extent)) (here : Stands page.text placed) (calls : placed.tag.Calls)
    (left : Onward page.text placed.extent.stop rest) {make : Label Extent → Call Extent → Statement Extent}
    (calling : Calling make) :
    Follows page.text (Taken.From page.text placed.start) (Taken.onward page.text blocked frames before)
      (do
        let (statement, next) ← page.callStatement placed next make
        .ok ⟨statement, next, placed.extent.stop, rest, Nat.le_refl _⟩ :
          Except Ending (Taken (Statement Extent) rest.length))
      (State.addCall ⟨next, placed.start, frames, before⟩ page.text placed make >>= fun taken =>
        resume page.text blocked rest { taken with offset := placed.extent.stop }) := by
  have agrees := callStatement_agrees here calls next calling
  have taken : State.addCall ⟨next, placed.start, frames, before⟩ page.text placed make =
      (do
        let read ← placed.call page.text (next + 1) false
        .ok (make ⟨next, placed.extent⟩ read.call, read.next)) >>= fun made =>
          .ok ⟨made.2, placed.start, frames, made.1 :: before⟩ := by
    rw [State.addCall, bind_assoc]
    rfl
  rw [taken, bind_assoc]
  exact agrees.follows fun made ranged => .ok ⟨ranged, Nat.le_add_right _ _, left⟩

theorem calling_mustache (escaped : Bool) : Calling fun label call => .mustache label call escaped :=
  ⟨fun forward inside within => List.forall_mem_cons.mpr ⟨⟨_, rfl, inside, .inl forward⟩, within.ranged⟩⟩

theorem calling_partialCall : Calling .partialCall :=
  ⟨fun forward inside within => List.forall_mem_cons.mpr ⟨⟨_, rfl, inside, .inl forward⟩, within.ranged⟩⟩

theorem calling_decorator : Calling .decorator :=
  ⟨fun forward inside within => List.forall_mem_cons.mpr ⟨⟨_, rfl, inside, .inl forward⟩, within.ranged⟩⟩

theorem statement_follows (branches : BranchesFollow page blocked size) {next : Nat} {placed : State.Placed}
    {rest : List Piece} (frames : List Frame) (before : List (Statement Extent)) (short : rest.length < size)
    (here : Stands page.text placed) (isStatement : ∀ stop, placed.tag.kind ≠ .stop stop)
    (left : Onward page.text placed.extent.stop rest) :
    Follows page.text (Taken.From page.text placed.start) (Taken.onward page.text blocked frames before)
      (page.statement blocked next placed rest)
      (State.takeTag ⟨next, placed.start, frames, before⟩ page.text placed >>= fun taken =>
        resume page.text blocked rest { taken with offset := placed.extent.stop }) := by
  rw [Page.statement, State.takeTag]
  dsimp only
  cases kind : placed.tag.kind with
  | comment =>
    obtain ⟨forward, inside⟩ := here.range
    have isRange : page.range placed.extent.start placed.extent.stop = .ok placed.extent :=
      Page.range_eq (Nat.le_of_lt forward) inside
    dsimp only
    rw [isRange]
    refine .ok ⟨?_, Nat.le_add_right _ _, left⟩
    exact List.forall_mem_singleton.mpr ⟨_, rfl, inside, .inl forward⟩
  | mustache =>
    exact callStatement_follows frames before here ⟨by simp [kind], by simp [kind]⟩ left (calling_mustache true)
  | unescaped =>
    exact callStatement_follows frames before here ⟨by simp [kind], by simp [kind]⟩ left (calling_mustache false)
  | partialCall =>
    exact callStatement_follows frames before here ⟨by simp [kind], by simp [kind]⟩ left calling_partialCall
  | decorator =>
    exact callStatement_follows frames before here ⟨by simp [kind], by simp [kind]⟩ left calling_decorator
  | stop stop => exact absurd kind (isStatement stop)
  | block | inverseBlock | partialBlock | decoratorBlock =>
    exact block_follows branches frames before short here ⟨by simp [kind], by simp [kind]⟩ left

/-- A body goes on behind its first statement. -/
theorem Taken.From.follows (bodies : BodiesFollow page blocked size) {bound loose start : Nat}
    {taken : Taken (Statement Extent) bound} (good : taken.From page.text start) (frames : List Frame)
    (before : List (Statement Extent)) (short : taken.rest.length < size)
    (le : taken.rest.length ≤ loose) :
    Follows page.text (Body.From page.text start) (Body.onward page.text blocked frames before)
      (do
        let more ← page.body blocked taken.next taken.offset taken.rest
        .ok (more.cons taken.value le) : Except Ending (Body loose))
      (Taken.onward page.text blocked frames before taken) := by
  refine (bodies _ _ _ frames (taken.value :: before) short good.left).bind fun more ⟨ranged, stopped, left⟩ => ?_
  have same : Body.onward page.text blocked frames (taken.value :: before) more =
      Body.onward page.text blocked frames before (more.cons taken.value le) := by
    simp only [Body.onward, Body.cons, List.reverse_cons, List.append_assoc, List.singleton_append]
  rw [same]
  refine .ok ⟨Statement.ListRanged.cons good.ranged ranged, fun placed stop isStop => ?_, left⟩
  obtain ⟨ahead, standing⟩ := stopped placed stop isStop
  exact ⟨Nat.le_trans good.ahead ahead, standing⟩

theorem bodiesFollow_succ (bodies : BodiesFollow page blocked size) (branches : BranchesFollow page blocked size) :
    BodiesFollow page blocked (size + 1) := by
  intro next offset pieces frames before short onward
  rw [Page.body.eq_def]
  cases pieces with
  | nil =>
    dsimp only
    cases blocked with
    | some cause => exact Page.fail_follows cause onward.inside
    | none => exact .ok ⟨.nil _, by simp, onward⟩
  | cons piece rest =>
    obtain ⟨reached, left⟩ := onward.tail
    have fewer : rest.length < size := Nat.lt_of_succ_lt_succ short
    cases piece with
    | content written value =>
      have forward : offset < offset + written.length :=
        Nat.lt_add_of_pos_right (List.length_pos_iff.mpr (onward.sound _ List.mem_cons_self))
      dsimp only
      rw [resume_content, Page.range_eq (Nat.le_of_lt forward) reached, ok_bind]
      let first : Taken (Statement Extent) rest.length :=
        ⟨.content ⟨next, ⟨offset, offset + written.length⟩⟩ value written, next + 1, offset + written.length, rest,
          Nat.le_refl _⟩
      have good : first.From page.text offset :=
        ⟨List.forall_mem_singleton.mpr ⟨_, rfl, reached, .inl forward⟩, Nat.le_add_right _ _, left⟩
      exact good.follows bodies frames before fewer (Nat.le_succ _)
    | tag tag =>
      have here := onward.stands
      dsimp only
      rw [resume_tag]
      cases kind : tag.kind with
      | stop stop =>
        -- The body ends in front of the tag, which the parser takes afterwards.
        rw [State.takeTag]
        dsimp only
        rw [kind]
        refine .ok ⟨.nil _, fun placed stop isStop => ?_, left⟩
        obtain ⟨rfl, rfl⟩ := isStop
        exact ⟨Nat.le_refl _, here, kind, rfl⟩
      | _ =>
        dsimp only
        refine (statement_follows branches frames before fewer here (by simp [kind]) left).bind fun first good => ?_
        exact good.follows bodies frames before (Nat.lt_of_le_of_lt first.bounded fewer)
          (Nat.le_succ_of_le first.bounded)

/-- The second branch of a block, behind the else tag or the inverse tag in front of it. -/
theorem second_follows (bodies : BodiesFollow page blocked size) {opener : Opener} {first : Program Extent}
    {placed : State.Placed} {next bound : Nat} {rest : List Piece} (chain : List (Opener × Program Extent))
    (frames : List Frame) (before : List (Statement Extent)) (short : rest.length < size)
    (sound : opener.Sound page.text) (firstRanged : Statement.ProgramRanged page.text first)
    (here : Stands page.text placed) (ahead : opener.extent.stop ≤ placed.start)
    (left : Onward page.text placed.extent.stop rest) (le : rest.length < bound) :
    Follows page.text (Branches.From page.text opener.extent.stop)
      (Branches.onward page.text blocked opener chain frames before)
      (do
        let other ← page.body blocked (next + 1) placed.extent.stop rest
        match other.stop with
        | none => page.fail .unterminatedBlock opener.extent.start
        | some (close, .close) =>
          let extent ← page.range placed.extent.stop close.start
          let second : Program Extent := ⟨⟨next, extent⟩, other.statements, [], false⟩
          .ok ⟨⟨first, some second, close⟩, other.next, other.offset, other.rest, other.left_of_lt le⟩
        | some (close, stop) => page.fail (.unexpectedStop stop) close.start :
          Except Ending (Taken Branches bound))
      (resume page.text blocked rest ⟨next + 1, placed.extent.stop,
        ⟨before, chain, opener, some ⟨first, next, placed.extent.stop⟩⟩ :: frames, []⟩) := by
  refine (bodies _ _ _ _ _ short left).bind fun other good => ?_
  obtain ⟨statements, stop, next', offset, rest', bounded⟩ := other
  obtain ⟨ranged, stopped, left⟩ := good
  dsimp only at ranged stopped left
  rcases stop with _ | ⟨close, stop⟩
  · exact Page.fail_follows _ sound.start_inside
  obtain ⟨behind, closeHere, -, rfl⟩ := stopped close stop rfl
  have opens := here.range.1
  cases stop with
  | elseTag | inverse => exact Page.fail_follows _ closeHere.inside
  | close =>
    dsimp only
    rw [Page.range_eq behind closeHere.inside, ok_bind]
    have secondRanged : Statement.ProgramRanged page.text
        ⟨⟨next, ⟨placed.extent.stop, close.start⟩⟩, statements, [], false⟩ :=
      ranged.program behind closeHere.inside _ _ _
    refine .of_eq ⟨firstRanged, fun branch isSecond => ?_, by simp only; omega, closeHere, rfl, left⟩ ?_
    · obtain rfl := Option.some.inj isSecond
      exact secondRanged
    · refine Branches.onward_of_close page.text blocked frames ⟨next', close.start, _ :: frames, statements.reverse ++ []⟩
        ⟨before, chain, opener, some ⟨first, next, placed.extent.stop⟩⟩ ?_ _
      simp [State.branches]

/-- The second branch of a block, made of the block that an else tag with a call opens. It ends at the close tag
of the whole chain, so the parser reads it with one more block around it, and `closeChain` makes of it what the
descent makes here. -/
theorem nested_follows (branches : BranchesFollow page blocked size) {opener : Opener} {first : Program Extent}
    {placed : State.Placed} {next bound : Nat} {rest : List Piece} (chain : List (Opener × Program Extent))
    (frames : List Frame) (before : List (Statement Extent)) (short : rest.length < size)
    (firstRanged : Statement.ProgramRanged page.text first) (here : Stands page.text placed) (calls : placed.tag.Calls)
    (behind : opener.extent.stop ≤ placed.start) (left : Onward page.text placed.extent.stop rest)
    (le : rest.length ≤ bound) :
    Follows page.text (Branches.From page.text opener.extent.stop)
      (Branches.onward page.text blocked opener chain frames before)
      (do
        let (inner, next) ← page.opener placed next .block
        let nested ← page.branches blocked inner next rest
        let extent ← page.range placed.start nested.value.close.start
        let block : Statement Extent :=
          .block ⟨inner.id, extent⟩ inner.call false nested.value.first nested.value.second
        let second : Program Extent := ⟨⟨nested.next, extent⟩, [block], [], true⟩
        .ok ⟨⟨first, some second, nested.value.close⟩, nested.next + 1, nested.offset, nested.rest, by
          have := nested.bounded
          omega⟩ : Except Ending (Taken Branches bound))
      (placed.opener page.text next .block >>= fun opened =>
        resume page.text blocked rest ⟨opened.2, placed.extent.stop,
          ⟨before, (opener, first) :: chain, opened.1, none⟩ :: frames, []⟩) := by
  refine (opener_agrees here calls next .block).follows fun ⟨inner, next⟩ ⟨isBlock, extent, within⟩ => ?_
  have innerSound := opener_sound here extent within
  dsimp only at isBlock extent ⊢
  rw [← extent] at left ⊢
  refine (branches inner next rest _ frames before short innerSound left).bind fun nested good => ?_
  have ahead := good.ahead
  have start : inner.extent.start = placed.start := congrArg Extent.start extent
  have opens : inner.extent.start < inner.extent.stop := innerSound.forward
  have forward : placed.start < nested.value.close.start := by omega
  have inside := good.close.inside
  rw [Page.range_eq (Nat.le_of_lt forward) inside, ok_bind]
  have block : Statement.Ranged page.text (.block ⟨inner.id, ⟨placed.start, nested.value.close.start⟩⟩ inner.call false
      nested.value.first nested.value.second) :=
    Statement.block_ranged forward inside within good.first good.second
  have secondRanged := (Statement.ListRanged.cons block (.nil _)).program (Nat.le_of_lt forward) inside nested.next [] true
  refine .of_eq ⟨firstRanged, fun branch isSecond => ?_, by simp only; omega, good.close, good.reached, good.left⟩ ?_
  · obtain rfl := Option.some.inj isSecond
    exact secondRanged
  · simp only [Branches.onward, State.closeChain, State.blockOf, isBlock, start]
    rfl

theorem branchesFollow_succ (bodies : BodiesFollow page blocked (size + 1)) (branches : BranchesFollow page blocked size) :
    BranchesFollow page blocked (size + 1) := by
  intro opener next rest chain frames before short sound onward
  rw [Page.branches]
  refine (bodies _ _ _ _ _ short onward).bind fun body good => ?_
  obtain ⟨statements, stop, next', offset, rest', bounded⟩ := body
  obtain ⟨ranged, stopped, left⟩ := good
  dsimp only at ranged stopped left
  rcases stop with _ | ⟨placed, stop⟩
  · exact Page.fail_follows _ sound.start_inside
  obtain ⟨behind, here, kind, rfl⟩ := stopped placed stop rfl
  dsimp only
  rw [Page.range_eq behind here.inside, ok_bind]
  have firstRanged : Statement.ProgramRanged page.text
      ⟨⟨opener.programId, ⟨opener.extent.stop, placed.start⟩⟩, statements, opener.blockParams, false⟩ :=
    ranged.program behind here.inside _ _ _
  have branch : State.firstBranch opener (statements.reverse ++ []) placed.start =
      ⟨⟨opener.programId, ⟨opener.extent.stop, placed.start⟩⟩, statements, opener.blockParams, false⟩ := by
    simp [State.firstBranch]
  simp only [Option.toList_some, List.length_singleton] at bounded
  have fewer : rest'.length < size := by omega
  by_cases closes : stop = .close
  · obtain rfl := closes
    rw [if_pos rfl]
    refine .of_eq ⟨firstRanged, by simp, behind, here, rfl, left⟩ ?_
    refine Branches.onward_of_close page.text blocked frames ⟨next', placed.start, _ :: frames, statements.reverse ++ []⟩
      ⟨before, chain, opener, none⟩ ?_ _
    simp only [State.branches, branch]
  rw [if_neg closes]
  by_cases nests : stop = .elseTag ∧ Text.strip placed.tag.inner ≠ []
  · obtain ⟨rfl, filled⟩ := nests
    rw [if_pos ⟨rfl, filled⟩, Body.onward]
    dsimp only
    rw [State.stopAt_nested _ filled, branch, bind_assoc]
    exact nested_follows branches chain frames before fewer firstRanged here ⟨by simp [kind], by simp [kind]⟩ behind left
      (by omega)
  · rw [if_neg nests, Body.onward]
    dsimp only
    rw [State.stopAt_plain _ closes nests, branch]
    exact second_follows bodies chain frames before (Nat.lt_succ_of_lt fewer) sound firstRanged here behind left (by omega)

end Readers

/-! ### Whole texts -/

theorem bodies_follow (page : Page) (blocked : Option Cause) (size : Nat) :
    BodiesFollow page blocked size ∧ BranchesFollow page blocked size := by
  induction size with
  | zero =>
    exact ⟨fun _ _ _ _ _ short => absurd short (Nat.not_lt_zero _),
      fun _ _ _ _ _ _ short => absurd short (Nat.not_lt_zero _)⟩
  | succ size ih =>
    have bodies := bodiesFollow_succ ih.1 ih.2
    exact ⟨bodies, branchesFollow_succ bodies ih.2⟩

/-- The descent comes to the tree of the parser, or to its fault. -/
theorem descend_agrees (page : Page) :
    Agrees page.text (Statement.ProgramRanged page.text) page.descend (parse page.text) := by
  have bodies := (bodies_follow page (pieces page.text).fault ((pieces page.text).pieces.length + 1)).1
  have follows := bodies 1 0 (pieces page.text).pieces [] [] (Nat.lt_succ_self _) (onward_pieces page.text)
  unfold Page.descend
  refine follows.agrees fun ⟨statements, stop, next, offset, rest, bounded⟩ good => ?_
  rcases stop with _ | ⟨placed, stop⟩
  · dsimp only
    rw [Page.range_eq (Nat.zero_le _) (Nat.le_refl _), ok_bind]
    have whole : Body.onward page.text (pieces page.text).fault [] []
        (⟨statements, none, next, offset, rest, bounded⟩ : Body (pieces page.text).pieces.length) =
        .ok ⟨⟨0, ⟨0, page.text.length⟩⟩, statements, [], false⟩ := by
      simp [Body.onward, State.finish]
    rw [whole]
    exact .ok (good.ranged.program (Nat.zero_le _) (Nat.le_refl _) _ _ _)
  · obtain ⟨-, here, -⟩ := good.stopped placed stop rfl
    exact Page.fail_agrees _ here.inside

theorem parse_ranged {text : Text} {tree : Program Extent} (parsed : parse text = .ok tree) :
    ∀ node ∈ (tree.mapRange text.span).nodes, Ranged text node := by
  have lands := (descend_agrees ⟨"", text⟩).lands
  rw [parsed] at lands
  cases lands with
  | ok ranged => exact ranged

/-- Reading a template does not slip: it comes to a tree whose nodes all cover ranges of the text that run
forward, to a fault that shows at a position of the text, or to a number with too many digits that stands in
the text. -/
theorem load_descends (source : String) (text : Text) :
    Page.descend ⟨source, text⟩ = (parse text).mapError .fault ∧
      match Template.load source text with
      | .ok template => ∀ node ∈ template.program.nodes,
        text.Holds node.label.range.start ∧ text.Holds node.label.range.stop ∧
          ¬node.label.range.stop < node.label.range.start
      | .error (.malformed fault) => fault.source = source ∧ text.Holds fault.position
      | .error (.longInteger count) => ∃ before digits after : Text, text = before ++ digits ++ after ∧
        (∀ c ∈ digits, isDigit c = true) ∧ EndsNumber after ∧ digits.length = count ∧ Text.maxDigits < count := by
  have agrees := descend_agrees ⟨source, text⟩
  refine ⟨agrees.eq, ?_⟩
  unfold Template.load
  generalize Page.descend _ = read at agrees
  dsimp only at agrees
  generalize parse text = parsed at agrees
  cases agrees with
  | ok ranged =>
    intro node member
    obtain ⟨extent, isRange, inside, forward⟩ := ranged node member
    have ordered : extent.start ≤ extent.stop := by omega
    rw [isRange]
    refine ⟨Text.holds_position (Nat.le_trans ordered inside), Text.holds_position inside, fun backward => ?_⟩
    have := (Text.position_lt_iff text).mp backward
    omega
  | fault founded =>
    cases founded with
    | malformed cause inside => exact ⟨rfl, Text.holds_position inside⟩
    | longInteger split isDigits long ends => exact ⟨_, _, _, split, isDigits, ends, rfl, long⟩

end Phrasebook.Template
