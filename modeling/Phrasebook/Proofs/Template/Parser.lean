import Phrasebook.Proofs.Template.Steps
import Phrasebook.Proofs.Template.Tiling

/-!
The parser makes trees that tile their text. The invariant of a run says that what has been read is
tiled up to the offset reached, open blocks included; every piece that is taken keeps it.
-/

namespace Phrasebook.Template

/-! ### Bodies -/

/-- Statements that tile a range, none of them a chained block. -/
structure BodyTiled (text : Text) (start stop : Nat) (body : List (Statement Extent)) : Prop where
  abut : Abut start stop body
  tiled : Statement.ListTiled text false body

theorem Abut.concat {start middle : Nat} {body : List (Statement Extent)} {s : Statement Extent}
    (abut : Abut start middle body) (next : s.label.range.start = middle) :
    Abut start s.label.range.stop (body ++ [s]) := by
  induction body generalizing start with
  | nil =>
    obtain rfl : start = middle := abut
    exact ⟨next, rfl⟩
  | cons first rest ih => exact ⟨abut.1, ih abut.2⟩

theorem listTiled_concat {text : Text} {body : List (Statement Extent)} {s : Statement Extent}
    (tiled : Statement.ListTiled text false body) (last : s.Tiled text false) :
    Statement.ListTiled text false (body ++ [s]) := by
  induction body with
  | nil => exact ⟨last, trivial⟩
  | cons first rest ih => exact ⟨tiled.1, ih tiled.2⟩

theorem BodyTiled.concat {text : Text} {start middle : Nat} {body : List (Statement Extent)}
    {s : Statement Extent} (h : BodyTiled text start middle body) (last : s.Tiled text false)
    (next : s.label.range.start = middle) :
    BodyTiled text start s.label.range.stop (body ++ [s]) :=
  ⟨h.abut.concat next, listTiled_concat h.tiled last⟩

theorem Statement.Tiled.exists_contentAt {text : Text} {chained : Bool} {s : Statement Extent}
    (h : s.Tiled text chained) (content : s.isContent = true) :
    ∃ value written, ContentAt text s.label.range value written := by
  cases s <;> simp [Statement.isContent] at content
  exact ⟨_, _, h⟩

theorem BodyTiled.contentApart {text : Text} {start stop : Nat} {body : List (Statement Extent)}
    (h : BodyTiled text start stop body) : ContentApart body := by
  induction body generalizing start with
  | nil => trivial
  | cons s rest ih =>
    have tail := ih ⟨h.abut.2, h.tiled.2⟩
    rcases rest with _ | ⟨t, rest⟩
    · trivial
    · refine ⟨?_, tail⟩
      rintro ⟨isContent, alsoContent⟩
      obtain ⟨_, _, first⟩ := h.tiled.1.exists_contentAt isContent
      obtain ⟨_, _, second⟩ := h.tiled.2.1.exists_contentAt alsoContent
      exact first.not_adjacent second h.abut.2.1

theorem BodyTiled.eq_nil_iff {text : Text} {start stop : Nat} {body : List (Statement Extent)}
    (h : BodyTiled text start stop body) : body = [] ↔ start = stop := by
  cases body with
  | nil => simpa [Abut] using h.abut
  | cons s rest =>
    have forward := h.tiled.1.within.1
    have restForward := (Statement.ListTiled.within h.tiled.2 h.abut.2).1
    have := h.abut.1
    simp only [reduceCtorEq, false_iff]
    omega

theorem BodyTiled.program {text : Text} {start stop : Nat} {body : List (Statement Extent)}
    (h : BodyTiled text start stop body) (id : Nat) (blockParams : List Text) :
    Statement.ProgramTiled text ⟨⟨id, ⟨start, stop⟩⟩, body, blockParams, false⟩ :=
  ⟨h.abut, h.eq_nil_iff, h.contentApart, by simp, h.tiled⟩

/-! ### Open blocks -/

/-- The tag of an opener stands at its place. A chained opener is an else tag. -/
structure OpenerAt (text : Text) (chained : Bool) (opener : Opener) : Prop where
  tag : TagAt text opener.extent (if chained then .stop .elseTag else opener.kind.tagKind)
  call : StartsIn opener.extent opener.call
  block : chained = true → opener.kind = .block

/-- The openers of a chain, from the innermost outwards, with the first branches between them. -/
def ChainTiled (text : Text) : Opener → List (Opener × Program Extent) → Prop
  | opener, [] => OpenerAt text false opener
  | opener, (outer, first) :: rest =>
    OpenerAt text true opener ∧ first.chained = false ∧ Statement.ProgramTiled text first ∧
      first.label.range = ⟨outer.extent.stop, opener.extent.start⟩ ∧ ChainTiled text outer rest

/-- The outermost opener of a chain. -/
def outermost : Opener → List (Opener × Program Extent) → Opener
  | opener, [] => opener
  | _, (outer, _) :: rest => outermost outer rest

/-- What has been read of an open block is tiled. -/
def FrameTiled (text : Text) (frame : Frame) : Prop :=
  ChainTiled text frame.opener frame.chain ∧
    ∀ second, frame.second = some second →
      second.first.chained = false ∧ Statement.ProgramTiled text second.first ∧
        second.first.label.range.start = frame.opener.extent.stop ∧
        SeparatorAt text ⟨second.first.label.range.stop, second.start⟩

/-- The offset at which the innermost branch starts. -/
def bodyStart : List Frame → Nat
  | [] => 0
  | frame :: _ => (frame.second.map (·.start)).getD frame.opener.extent.stop

/-- What has been read of open blocks and in front of them is tiled. -/
def FramesTiled (text : Text) : List Frame → Prop
  | [] => True
  | frame :: rest =>
    FrameTiled text frame ∧
      BodyTiled text (bodyStart rest) (outermost frame.opener frame.chain).extent.start
        frame.before.reverse ∧
      FramesTiled text rest

/-- The branches of a block from its open tag up to the offset `stop`. -/
structure BranchesTiled (text : Text) (opener : Opener) (first : Program Extent)
    (second : Option (Program Extent)) (stop : Nat) : Prop where
  start : first.label.range.start = opener.extent.stop
  plain : first.chained = false
  firstTiled : Statement.ProgramTiled text first
  secondTiled : Statement.SecondTiled text true ⟨first.label.range.stop, stop⟩ second

theorem secondTiled_close {text : Text} {start middle stop : Nat}
    {second : Option (Program Extent)} (h : Statement.SecondTiled text true ⟨start, middle⟩ second)
    (closing : TagAt text ⟨middle, stop⟩ (.stop .close)) :
    Statement.SecondTiled text false ⟨start, stop⟩ second := by
  cases second with
  | none =>
    obtain rfl : start = middle := h
    exact closing
  | some branch =>
    obtain ⟨before, branchTiled, last⟩ := h
    obtain rfl : branch.label.range.stop = middle := last
    exact ⟨before, branchTiled, closing⟩

theorem blockOf_chained {text : Text} {opener : Opener} {first : Program Extent}
    {second : Option (Program Extent)} {stop : Nat} (h : BranchesTiled text opener first second stop)
    (opened : OpenerAt text true opener) :
    (State.blockOf opener stop first second).Tiled text true := by
  have extent : (⟨opener.extent.start, first.label.range.start⟩ : Extent) = opener.extent := by
    rw [h.start]
  refine ⟨?_, ?_, h.plain, h.firstTiled, h.secondTiled⟩
  · simpa [extent, openingKind] using opened.tag
  · simpa only [extent] using opened.call

theorem BranchesTiled.opening {text : Text} {opener : Opener} {first : Program Extent}
    {second : Option (Program Extent)} {stop : Nat} (h : BranchesTiled text opener first second stop)
    (opened : OpenerAt text false opener) :
    TagAt text ⟨opener.extent.start, first.label.range.start⟩ opener.kind.tagKind ∧
      StartsIn ⟨opener.extent.start, first.label.range.start⟩ opener.call := by
  have extent : (⟨opener.extent.start, first.label.range.start⟩ : Extent) = opener.extent := by
    rw [h.start]
  rw [extent]
  exact ⟨opened.tag, opened.call⟩

theorem Closes.tiled {text : Text} {opener : Opener} {first : Program Extent}
    {second : Option (Program Extent)} {middle stop : Nat} {s : Statement Extent}
    (h : Closes opener stop first second s) (opened : OpenerAt text false opener)
    (branches : BranchesTiled text opener first second middle)
    (closing : TagAt text ⟨middle, stop⟩ (.stop .close)) : s.Tiled text false := by
  obtain ⟨tag, starts⟩ := branches.opening opened
  have rest := secondTiled_close branches.secondTiled closing
  cases h with
  | block kind =>
    refine ⟨?_, starts, branches.plain, branches.firstTiled, rest⟩
    simpa [kind, openingKind, OpenKind.tagKind] using tag
  | inverseBlock kind =>
    refine ⟨?_, starts, branches.plain, branches.firstTiled, rest⟩
    simpa [kind, openingKind, OpenKind.tagKind] using tag
  | partialBlock kind =>
    rw [kind] at tag
    exact ⟨tag, starts, branches.plain, branches.firstTiled, rest⟩
  | decoratorBlock kind =>
    rw [kind] at tag
    exact ⟨tag, starts, branches.plain, branches.firstTiled, rest⟩

/-- Closing a chain leaves the outermost opener with branches that reach up to the close tag. -/
theorem closeChain_tiled {text : Text} {stop : Nat} {chain : List (Opener × Program Extent)}
    {opener : Opener} {first : Program Extent} {second : Option (Program Extent)} (next : Nat)
    (openers : ChainTiled text opener chain) (h : BranchesTiled text opener first second stop) :
    OpenerAt text false (outermost opener chain) ∧
      ∃ first' second' next', State.closeChain stop opener first second next chain =
          (outermost opener chain, first', second', next') ∧
        BranchesTiled text (outermost opener chain) first' second' stop := by
  induction chain generalizing opener first second next with
  | nil => exact ⟨openers, first, second, next, rfl, h⟩
  | cons link rest ih =>
    obtain ⟨outer, outerFirst⟩ := link
    obtain ⟨opened, plain, firstTiled, range, outerOpeners⟩ := openers
    have nested := blockOf_chained h opened
    have inverted : decide (opener.kind = .inverseBlock) = false := by simp [opened.block rfl]
    refine ih (next + 1) outerOpeners ⟨by rw [range], plain, firstTiled, ?_, ?_, rfl⟩
    · simp [range]
    · have forward := nested.within.1
      refine ⟨⟨rfl, rfl⟩, ?_, trivial, fun _ => ?_, nested, trivial⟩
      · simp only [State.blockOf, Statement.label] at forward
        simp only [List.cons_ne_self, false_iff]
        omega
      · refine ⟨⟨opener.id, ⟨opener.extent.start, stop⟩⟩, opener.call, first, second, ?_⟩
        rw [State.blockOf, inverted]

/-! ### The invariant -/

/-- Everything up to the offset `reached` is tiled. -/
structure State.Tiled (text : Text) (reached : Nat) (state : State) : Prop where
  frames : FramesTiled text state.frames
  body : BodyTiled text (bodyStart state.frames) reached state.body.reverse

/-- A tag at its place in the text. -/
structure Placed.At (text : Text) (placed : State.Placed) : Prop where
  tag : TagAt text placed.extent placed.tag.kind
  opening : 0 < placed.tag.opening.length

theorem State.start_tiled (text : Text) : State.start.Tiled text 0 :=
  ⟨trivial, rfl, trivial⟩

theorem State.add_tiled {text : Text} {reached : Nat} {state : State} (next : Nat)
    (s : Statement Extent) (h : state.Tiled text reached) (last : s.Tiled text false)
    (start : s.label.range.start = reached) :
    (state.add next s).Tiled text s.label.range.stop := by
  refine ⟨h.frames, ?_⟩
  rw [State.add, List.reverse_cons]
  exact h.body.concat last start

theorem Placed.call_startsIn {text : Text} {placed : State.Placed} {next : Nat} {allowParams : Bool}
    {read : CallRead} (h : Placed.At text placed) (called : placed.call text next allowParams = .ok read) :
    StartsIn placed.extent read.call := by
  intro node member
  have starts := readCall_starts called node member
  have opening := h.opening
  simp only [State.Placed.inner, State.Placed.extent, Tag.text, List.length_append] at starts ⊢
  omega

theorem Placed.opener_at {text : Text} {placed : State.Placed} {next next' : Nat} {kind : OpenKind}
    {opener : Opener} (here : Placed.At text placed)
    (run : placed.opener text next kind = .ok (opener, next')) :
    opener.kind = kind ∧ opener.extent = placed.extent ∧ StartsIn opener.extent opener.call := by
  obtain ⟨read, called, run⟩ := bind_ok run
  obtain ⟨rfl, -⟩ := Prod.mk.inj (Except.ok.inj run)
  exact ⟨rfl, rfl, Placed.call_startsIn here called⟩

theorem firstBranch_tiled {text : Text} {opener : Opener} {body : List (Statement Extent)}
    {stop : Nat} (h : BodyTiled text opener.extent.stop stop body.reverse) :
    Statement.ProgramTiled text (State.firstBranch opener body stop) :=
  h.program opener.programId opener.blockParams

theorem branches_tiled {text : Text} {frame : Frame} {frames : List Frame}
    {body : List (Statement Extent)} {stop : Nat} (framed : FrameTiled text frame)
    (h : BodyTiled text (bodyStart (frame :: frames)) stop body.reverse) :
    BranchesTiled text frame.opener (State.branches frame body stop).1
      (State.branches frame body stop).2 stop := by
  rw [bodyStart] at h
  cases isSecond : frame.second with
  | none =>
    rw [isSecond] at h
    rw [State.branches_of_none isSecond]
    exact ⟨rfl, rfl, firstBranch_tiled h, rfl⟩
  | some second =>
    rw [isSecond] at h
    rw [State.branches_of_some isSecond]
    obtain ⟨plain, tiled, start, separator⟩ := framed.2 second isSecond
    exact ⟨start, plain, tiled, separator, h.program _ _, rfl⟩

theorem MakesCall.label {kind : TagKind} {make : Label Extent → Call Extent → Statement Extent}
    (makes : MakesCall kind make) (label : Label Extent) (call : Call Extent) : (make label call).label = label := by
  cases makes <;> rfl

theorem MakesCall.tiled {text : Text} {kind : TagKind} {make : Label Extent → Call Extent → Statement Extent}
    {label : Label Extent} {call : Call Extent} (makes : MakesCall kind make) (tag : TagAt text label.range kind)
    (starts : StartsIn label.range call) : (make label call).Tiled text false := by
  cases makes <;> exact ⟨tag, starts⟩

/-- Taking a tag at its place keeps what has been read tiled, the tag included. -/
theorem State.Takes.tiled {text : Text} {placed : State.Placed} {state result : State}
    (step : state.Takes text placed result) (here : Placed.At text placed) (h : state.Tiled text placed.start) :
    result.Tiled text placed.extent.stop := by
  have tag := here.tag
  have framesTiled := h.frames
  have body := h.body
  cases step with
  | comment kind =>
    rw [kind] at tag
    exact State.add_tiled _ (.comment ⟨state.next, placed.extent⟩ _) h tag rfl
  | @call make read makes called =>
    have starts := Placed.call_startsIn here called
    have label := makes.label ⟨state.next, placed.extent⟩ read.call
    have added := State.add_tiled read.next (make ⟨state.next, placed.extent⟩ read.call) h
      (makes.tiled tag starts) (by rw [label]; rfl)
    rwa [label] at added
  | opens kind opened =>
    obtain ⟨kindEq, extentEq, starts⟩ := Placed.opener_at here opened
    rw [kind, ← kindEq, ← extentEq] at tag
    refine ⟨⟨⟨⟨tag, starts, by simp⟩, by simp⟩, ?_, framesTiled⟩, ?_, trivial⟩
    · simpa [outermost, extentEq, State.Placed.extent] using body
    · simp [bodyStart, Abut, extentEq]
  | chains kind isOpen noSecond opened =>
    rw [isOpen] at framesTiled body
    obtain ⟨framed, before, outer⟩ := framesTiled
    rw [bodyStart, noSecond] at body
    obtain ⟨kindEq, extentEq, starts⟩ := Placed.opener_at here opened
    rw [kind, ← extentEq] at tag
    refine ⟨⟨⟨⟨⟨tag, starts, fun _ => kindEq⟩, rfl, firstBranch_tiled body, ?_, framed.1⟩, by simp⟩, before,
      outer⟩, ?_, trivial⟩
    · simp [State.firstBranch, extentEq, State.Placed.extent]
    · simp [bodyStart, Abut, extentEq]
  | @separates stop frame frames kind notClose isOpen noSecond =>
    rw [isOpen] at framesTiled body
    obtain ⟨framed, before, outer⟩ := framesTiled
    rw [bodyStart, noSecond] at body
    rw [kind] at tag
    refine ⟨⟨⟨framed.1, ?_⟩, before, outer⟩, ?_, trivial⟩
    · intro second isSecond
      obtain rfl := Option.some.inj isSecond
      refine ⟨rfl, firstBranch_tiled body, rfl, ?_⟩
      cases stop with
      | close => exact absurd rfl notClose
      | elseTag => exact .inl tag
      | inverse => exact .inr tag
    · simp [bodyStart, Abut]
  | closes kind isOpen chain closes =>
    rw [isOpen] at framesTiled body
    obtain ⟨framed, before, outer⟩ := framesTiled
    rw [kind] at tag
    obtain ⟨opened, first, second, next, closed, branches⟩ :=
      closeChain_tiled state.next framed.1 (branches_tiled framed body)
    obtain ⟨rfl, rfl, rfl, rfl⟩ : _ ∧ _ ∧ _ ∧ _ := by simpa using closed.symm.trans chain
    refine ⟨outer, ?_⟩
    have concat := before.concat (closes.tiled opened branches tag) (by rw [closes.range])
    rwa [closes.range, ← List.reverse_cons] at concat

/-! ### Whole runs -/

theorem contentAt_of_readBefore {before written value rest : Text}
    (h : ReadBefore rest (.content written value)) :
    ContentAt (before ++ (written ++ rest)) ⟨before.length, before.length + written.length⟩
      value written where
  forward := Nat.lt_add_of_pos_right (List.length_pos_iff.mpr h.1)
  bounded := by simp
  slice := by
    rw [← List.append_assoc]
    exact Text.slice_append_of_length rfl rfl
  read := by simpa [← List.drop_drop] using h.2

theorem placed_of_readBefore {before rest : Text} {tag : Tag} (h : ReadBefore rest (.tag tag)) :
    Placed.At (before ++ (tag.text ++ rest)) ⟨tag, before.length⟩ := by
  obtain ⟨⟨more, opening⟩, closing, closes⟩ := readTag_braces h
  have slice : Text.slice (before ++ (tag.text ++ rest)) before.length
      (before.length + tag.text.length) = tag.text := by
    rw [← List.append_assoc]
    exact Text.slice_append_of_length rfl rfl
  simp only at opening closes
  refine ⟨⟨?_, ?_, ⟨more ++ tag.inner ++ closing, ?_⟩, tag, ?_, rfl, slice.symm⟩, ?_⟩
  · simp [State.Placed.extent, Tag.text, opening]
  · simp [State.Placed.extent]
  · rw [State.Placed.extent, slice, Tag.text, opening, closes]
    simp
  · have stop : (before ++ (tag.text ++ rest)).drop (before.length + tag.text.length) = rest := by
      simp [← List.drop_drop]
    rw [ReadBefore] at h
    simpa [State.Placed.extent, stop, ← List.drop_drop] using h
  · simp [opening]

/-- All of the text in front of what is left is tiled. -/
theorem State.tiled_invariant (text : Text) : Invariant text fun state => state.Tiled text state.offset where
  start := State.start_tiled text
  content {front written value back state} parts read reached h := by
    subst parts
    rw [reached] at h
    have added := State.add_tiled (state.next + 1)
      (.content ⟨state.next, ⟨front.length, front.length + written.length⟩⟩ value written) h
      (contentAt_of_readBefore read) rfl
    exact ⟨added.frames, added.body⟩
  tag {front back tag state next} parts read reached h step := by
    subst parts
    rw [reached] at h
    have taken := step.tiled (placed_of_readBefore read) h
    exact ⟨taken.frames, taken.body⟩

/-- The tree of a text tiles it. -/
theorem parse_tiled {text : Text} {tree : Program Extent} (parsed : parse text = .ok tree) :
    tree.Tiled text ∧ tree.label.range = ⟨0, text.length⟩ ∧ tree.chained = false := by
  obtain ⟨state, -, tiled, reached, closed, rfl⟩ := (State.tiled_invariant text).of_parse parsed
  rw [reached] at tiled
  have body := tiled.body
  rw [closed] at body
  exact ⟨body.program 0 [], rfl, rfl⟩

theorem parse_tilesFrom {text : Text} {tree : Program Extent} (parsed : parse text = .ok tree) :
    TilesFrom text text.length 0 tree.tiles := by
  obtain ⟨tiled, range, -⟩ := parse_tiled parsed
  have tiles := Statement.ProgramTiled.tilesFrom tiled
  rw [range] at tiles
  exact tiles

theorem load_parsed {source : String} {text : Text} {template : Template}
    (loaded : Template.load source text = .ok template) :
    ∃ tree, parse text = .ok tree ∧ template = ⟨source, text, tree.mapRange text.span⟩ := by
  unfold Template.load at loaded
  split at loaded
  · next tree parsed => exact ⟨tree, parsed, (Except.ok.inj loaded).symm⟩
  · simp at loaded

/-- A template that can be read is tiled by its tree, which covers the whole text: all of its
content and tags stand at their places and put together they are the text. -/
theorem load_tiled {source : String} {text : Text} {template : Template}
    (loaded : Template.load source text = .ok template) :
    ∃ tree, parse text = .ok tree ∧
      template = ⟨source, text, tree.mapRange text.span⟩ ∧
      tree.Tiled text ∧ tree.label.range = ⟨0, text.length⟩ ∧ tree.chained = false ∧
      (∀ tile ∈ tree.tiles, tile.At text) ∧ tilesText text tree.tiles = text := by
  obtain ⟨tree, parsed, isTemplate⟩ := load_parsed loaded
  obtain ⟨tiled, range, plain⟩ := parse_tiled parsed
  have tiles := Statement.ProgramTiled.tilesFrom tiled
  refine ⟨tree, parsed, isTemplate, tiled, range, plain, tiles.tiles_at, ?_⟩
  rw [ProgramOf.tiles, tiles.tilesText, range, Text.slice_zero_length]

/-- An inverse block with a chain of two more branches, then a comment. -/
theorem load_tiled_chain :
    ∃ template tree,
      Template.load "page" (tagged "^a" ++ ['x'] ++ tagged "else b" ++ ['\n', 'y'] ++ tagged "else" ++
        ['z'] ++ tagged "/a" ++ tagged "! c") = .ok template ∧
      parse template.text = .ok tree ∧ tree.Tiled template.text ∧
      tilesText template.text tree.tiles = template.text := by
  have readable : (Template.load "page" (tagged "^a" ++ ['x'] ++ tagged "else b" ++ ['\n', 'y'] ++
      tagged "else" ++ ['z'] ++ tagged "/a" ++ tagged "! c")).toOption.isSome = true := by decide +kernel
  obtain ⟨template, found⟩ := Option.isSome_iff_exists.mp readable
  have loaded := ok_of_toOption found
  obtain ⟨tree, parsed, rfl, tiled, -, -, -, joined⟩ := load_tiled loaded
  exact ⟨_, tree, loaded, parsed, tiled, joined⟩

end Phrasebook.Template
