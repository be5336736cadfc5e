import Phrasebook.Template.Node
import Phrasebook.Proofs.Text.Lines
import Phrasebook.Proofs.Template.Reading

/-!
Trees that tile a text. The statements of a program abut each other and cover its range; the range of
a block is its open tag, its branches with a tag between them, and its close tag. `Statement.tiles`
lists the content and the tags of a tree in order; they stand one behind the other and put together
they are the text.
-/

namespace Phrasebook.Template

/-! ### Content and tags at their places -/

/-- Content stands at a range: reading content at its start ends at its stop. -/
structure ContentAt (text : Text) (extent : Extent) (value written : Text) : Prop where
  forward : extent.start < extent.stop
  bounded : extent.stop ≤ text.length
  slice : text.slice extent.start extent.stop = written
  read : readContent (text.drop extent.start) = ⟨written, value, text.drop extent.stop⟩

/-- A tag stands at a range: reading a tag at its start ends at its stop, and it is written between
two opening and two closing braces. -/
structure TagAt (text : Text) (extent : Extent) (kind : TagKind) : Prop where
  forward : extent.start < extent.stop
  bounded : extent.stop ≤ text.length
  braces : ∃ inner, text.slice extent.start extent.stop = ['{', '{'] ++ inner ++ ['}', '}']
  read : ∃ tag, readTag (text.drop (extent.start + 2)) = .ok ⟨tag, text.drop extent.stop⟩ ∧
    tag.kind = kind ∧ tag.text = text.slice extent.start extent.stop

/-- The tag between the branches of a block stands at a range. -/
def SeparatorAt (text : Text) (extent : Extent) : Prop :=
  TagAt text extent (.stop .elseTag) ∨ TagAt text extent (.stop .inverse)

/-- The nodes of a call start inside of its tag, behind the start of the tag. -/
def StartsIn (extent : Extent) (call : Call Extent) : Prop :=
  ∀ node ∈ Expr.callNodes call,
    extent.start < node.label.range.start ∧ node.label.range.start < extent.stop

/-- Content cannot be followed by content: it was read as far as it goes. -/
theorem ContentAt.not_adjacent {text : Text} {first second : Extent} {v w v' w' : Text}
    (h : ContentAt text first v w) (h' : ContentAt text second v' w')
    (next : second.start = first.stop) : False := by
  have nothing := readContent_rest_written (text.drop first.start)
  rw [h.read, ← next] at nothing
  simp only [h'.read] at nothing
  have long : (text.slice second.start second.stop).length = second.stop - second.start :=
    Text.length_slice text h'.bounded
  rw [h'.slice, nothing] at long
  have := h'.forward
  simp at long
  omega

/-! ### Trees -/

/-- Whether a statement is content. -/
def Statement.isContent {ρ : Type} : Statement ρ → Bool
  | .content .. => true
  | _ => false

/-- The statements abut each other and cover a range. -/
def Abut (start stop : Nat) : List (Statement Extent) → Prop
  | [] => start = stop
  | s :: rest => s.label.range.start = start ∧ Abut s.label.range.stop stop rest

/-- No two statements of content stand side by side. -/
def ContentApart : List (Statement Extent) → Prop
  | [] => True
  | [_] => True
  | s :: t :: rest => ¬(s.isContent ∧ t.isContent) ∧ ContentApart (t :: rest)

/-- The kind of the tag that opens a block. The tag of a chained block is the else tag of the block
around it. -/
def openingKind (chained inverted : Bool) : TagKind :=
  if chained then .stop .elseTag else if inverted then .inverseBlock else .block

/-- The end of a block: a close tag, or nothing if the block is chained, since it ends where the
close tag of the outermost block of its chain starts. -/
def CloseAt (text : Text) (chained : Bool) (extent : Extent) : Prop :=
  if chained then extent.start = extent.stop else TagAt text extent (.stop .close)

mutual

/-- The statement tiles its range. `chained` says whether it is the block of a chained branch. -/
def Statement.Tiled (text : Text) (chained : Bool) : Statement Extent → Prop
  | .content label value written => ContentAt text label.range value written
  | .comment label _ => TagAt text label.range .comment
  | .mustache label call escaped =>
    TagAt text label.range (if escaped then .mustache else .unescaped) ∧ StartsIn label.range call
  | .partialCall label call => TagAt text label.range .partialCall ∧ StartsIn label.range call
  | .decorator label call => TagAt text label.range .decorator ∧ StartsIn label.range call
  | .block label call inverted first second =>
    TagAt text ⟨label.range.start, first.label.range.start⟩ (openingKind chained inverted) ∧
      StartsIn ⟨label.range.start, first.label.range.start⟩ call ∧ first.chained = false ∧
      Statement.ProgramTiled text first ∧
      Statement.SecondTiled text chained ⟨first.label.range.stop, label.range.stop⟩ second
  | .partialBlock label call body =>
    TagAt text ⟨label.range.start, body.label.range.start⟩ .partialBlock ∧
      StartsIn ⟨label.range.start, body.label.range.start⟩ call ∧ body.chained = false ∧
      Statement.ProgramTiled text body ∧
      TagAt text ⟨body.label.range.stop, label.range.stop⟩ (.stop .close)
  | .decoratorBlock label call body =>
    TagAt text ⟨label.range.start, body.label.range.start⟩ .decoratorBlock ∧
      StartsIn ⟨label.range.start, body.label.range.start⟩ call ∧ body.chained = false ∧
      Statement.ProgramTiled text body ∧
      TagAt text ⟨body.label.range.stop, label.range.stop⟩ (.stop .close)
  | .bare _ _ => False

/-- The program tiles its range. A chained one holds one block and nothing else. -/
def Statement.ProgramTiled (text : Text) : ProgramOf Extent (Statement Extent) → Prop
  | ⟨label, body, _, chained⟩ =>
    Abut label.range.start label.range.stop body ∧
      (body = [] ↔ label.range.start = label.range.stop) ∧ ContentApart body ∧
      (chained = true → ∃ label call first second, body = [.block label call false first second]) ∧
      Statement.ListTiled text chained body

/-- What follows the first branch of a block tiles the given range: the close tag, or a second branch
between tags. No tag stands in front of a chained branch. -/
def Statement.SecondTiled (text : Text) (chained : Bool) (extent : Extent) :
    Option (ProgramOf Extent (Statement Extent)) → Prop
  | none => CloseAt text chained extent
  | some branch =>
    (if branch.chained then extent.start = branch.label.range.start
      else SeparatorAt text ⟨extent.start, branch.label.range.start⟩) ∧
      Statement.ProgramTiled text branch ∧
      CloseAt text chained ⟨branch.label.range.stop, extent.stop⟩

/-- Every statement tiles its range. -/
def Statement.ListTiled (text : Text) (chained : Bool) : List (Statement Extent) → Prop
  | [] => True
  | s :: rest => s.Tiled text chained ∧ Statement.ListTiled text chained rest

end

/-! ### Tiles -/

/-- A part of a text that a tree stands for: content or a whole tag. -/
inductive Tile where
  | content (extent : Extent)
  | tag (extent : Extent)
deriving DecidableEq, Repr

/-- The range of a tile. -/
def Tile.extent : Tile → Extent
  | .content extent => extent
  | .tag extent => extent

/-- The tag in a gap between or around branches, unless the gap is empty. -/
def gapTiles (start stop : Nat) : List Tile :=
  if start = stop then [] else [.tag ⟨start, stop⟩]

mutual

/-- The tiles of a statement, in order. -/
def Statement.tiles : Statement Extent → List Tile
  | .content label _ _ => [.content label.range]
  | .comment label _ => [.tag label.range]
  | .mustache label _ _ => [.tag label.range]
  | .partialCall label _ => [.tag label.range]
  | .decorator label _ => [.tag label.range]
  | .block label _ _ first second =>
    gapTiles label.range.start first.label.range.start ++ Statement.programTiles first ++
      Statement.secondTiles ⟨first.label.range.stop, label.range.stop⟩ second
  | .partialBlock label _ body =>
    gapTiles label.range.start body.label.range.start ++ Statement.programTiles body ++
      gapTiles body.label.range.stop label.range.stop
  | .decoratorBlock label _ body =>
    gapTiles label.range.start body.label.range.start ++ Statement.programTiles body ++
      gapTiles body.label.range.stop label.range.stop
  | .bare _ _ => []

/-- The tiles of a program. -/
def Statement.programTiles : ProgramOf Extent (Statement Extent) → List Tile
  | ⟨_, body, _, _⟩ => Statement.listTiles body

/-- The tiles of what follows the first branch of a block in the given range. -/
def Statement.secondTiles (extent : Extent) :
    Option (ProgramOf Extent (Statement Extent)) → List Tile
  | none => gapTiles extent.start extent.stop
  | some branch =>
    gapTiles extent.start branch.label.range.start ++ Statement.programTiles branch ++
      gapTiles branch.label.range.stop extent.stop

/-- The tiles of several statements. -/
def Statement.listTiles : List (Statement Extent) → List Tile
  | [] => []
  | s :: rest => s.tiles ++ Statement.listTiles rest

end

/-- The tiles of a whole tree. -/
def ProgramOf.tiles (program : Program Extent) : List Tile := Statement.programTiles program

/-- The program tiles its range. -/
def ProgramOf.Tiled (text : Text) (program : Program Extent) : Prop :=
  Statement.ProgramTiled text program

theorem Statement.ProgramTiled.body_eq_nil_iff {text : Text} {program : Program Extent}
    (h : Statement.ProgramTiled text program) :
    program.body = [] ↔ program.label.range.start = program.label.range.stop := by
  rcases program with ⟨label, body, blockParams, chained⟩
  exact h.2.1

theorem Statement.ProgramTiled.body_ne_nil {text : Text} {program : Program Extent}
    (h : Statement.ProgramTiled text program) (chained : program.chained = true) :
    program.body ≠ [] := by
  rcases program with ⟨label, body, blockParams, _⟩
  obtain ⟨_, _, _, _, rfl⟩ := h.2.2.2.1 chained
  exact List.cons_ne_nil _ _

/-! ### Ranges run forward -/

theorem CloseAt.forward {text : Text} {chained : Bool} {extent : Extent}
    (h : CloseAt text chained extent) : extent.start ≤ extent.stop := by
  unfold CloseAt at h
  split at h
  · exact Nat.le_of_eq h
  · exact Nat.le_of_lt h.forward

theorem CloseAt.bounded {text : Text} {chained : Bool} {extent : Extent}
    (h : CloseAt text chained extent) (start : extent.start ≤ text.length) :
    extent.stop ≤ text.length := by
  unfold CloseAt at h
  split at h
  · omega
  · exact h.bounded

theorem SeparatorAt.forward {text : Text} {extent : Extent} (h : SeparatorAt text extent) :
    extent.start < extent.stop := by
  rcases h with tag | tag <;> exact tag.forward

theorem SeparatorAt.bounded {text : Text} {extent : Extent} (h : SeparatorAt text extent) :
    extent.stop ≤ text.length := by
  rcases h with tag | tag <;> exact tag.bounded

mutual

theorem Statement.Tiled.within {text : Text} {chained : Bool} :
    ∀ {s : Statement Extent}, s.Tiled text chained →
      s.label.range.start < s.label.range.stop ∧ s.label.range.stop ≤ text.length
  | .content _ _ _, h => ⟨h.forward, h.bounded⟩
  | .comment _ _, h => ⟨h.forward, h.bounded⟩
  | .mustache _ _ _, h => ⟨h.1.forward, h.1.bounded⟩
  | .partialCall _ _, h => ⟨h.1.forward, h.1.bounded⟩
  | .decorator _ _, h => ⟨h.1.forward, h.1.bounded⟩
  | .block label call inverted first second, h => by
    obtain ⟨opening, -, -, firstTiled, rest⟩ := h
    have := opening.forward
    have := opening.bounded
    obtain ⟨firstForward, firstBounded⟩ := Statement.ProgramTiled.within firstTiled
    obtain ⟨restForward, restBounded⟩ := Statement.SecondTiled.within rest
    simp only [Statement.label] at *
    exact ⟨by omega, restBounded (firstBounded (by omega))⟩
  | .partialBlock label call body, h => by
    obtain ⟨opening, -, -, bodyTiled, closing⟩ := h
    have := opening.forward
    have := closing.forward
    have := (Statement.ProgramTiled.within bodyTiled).1
    simp only [Statement.label] at *
    exact ⟨by omega, closing.bounded⟩
  | .decoratorBlock label call body, h => by
    obtain ⟨opening, -, -, bodyTiled, closing⟩ := h
    have := opening.forward
    have := closing.forward
    have := (Statement.ProgramTiled.within bodyTiled).1
    simp only [Statement.label] at *
    exact ⟨by omega, closing.bounded⟩
  | .bare _ _, h => h.elim

theorem Statement.ProgramTiled.within {text : Text} :
    ∀ {program : ProgramOf Extent (Statement Extent)}, Statement.ProgramTiled text program →
      program.label.range.start ≤ program.label.range.stop ∧
        (program.label.range.start ≤ text.length → program.label.range.stop ≤ text.length)
  | ⟨_, _, _, _⟩, h => Statement.ListTiled.within h.2.2.2.2 h.1

theorem Statement.SecondTiled.within {text : Text} {chained : Bool} {extent : Extent} :
    ∀ {second : Option (ProgramOf Extent (Statement Extent))},
      Statement.SecondTiled text chained extent second →
      extent.start ≤ extent.stop ∧ (extent.start ≤ text.length → extent.stop ≤ text.length)
  | none, h => ⟨CloseAt.forward h, CloseAt.bounded h⟩
  | some branch, h => by
    obtain ⟨before, branchTiled, closing⟩ := h
    obtain ⟨branchForward, branchBounded⟩ := Statement.ProgramTiled.within branchTiled
    have := closing.forward
    split at before
    · refine ⟨by simp only at *; omega, fun bounded => closing.bounded (branchBounded ?_)⟩
      omega
    · have := before.forward
      refine ⟨by simp only at *; omega, fun _ => closing.bounded (branchBounded before.bounded)⟩

theorem Statement.ListTiled.within {text : Text} {chained : Bool} :
    ∀ {body : List (Statement Extent)} {start stop : Nat}, Statement.ListTiled text chained body →
      Abut start stop body → start ≤ stop ∧ (start ≤ text.length → stop ≤ text.length)
  | [], _, _, _, abut => by
    obtain rfl := abut
    exact ⟨Nat.le_refl _, id⟩
  | s :: rest, start, stop, h, abut => by
    obtain ⟨forward, bounded⟩ := Statement.Tiled.within h.1
    obtain ⟨restForward, restBounded⟩ := Statement.ListTiled.within h.2 abut.2
    have := abut.1
    exact ⟨by omega, fun _ => restBounded bounded⟩

end

/-! ### Tiles in turn -/

/-- Whether a tile stands at its place in a text. -/
def Tile.At (text : Text) : Tile → Prop
  | .content extent => ∃ value written, ContentAt text extent value written
  | .tag extent => ∃ kind, TagAt text extent kind

/-- Tiles that stand at their places, one behind the other from `start` up to `stop`. -/
def TilesFrom (text : Text) (stop : Nat) : Nat → List Tile → Prop
  | start, [] => start = stop
  | start, tile :: rest =>
    tile.extent.start = start ∧ tile.At text ∧ TilesFrom text stop tile.extent.stop rest

theorem Tile.At.forward {text : Text} {tile : Tile} (h : tile.At text) :
    tile.extent.start < tile.extent.stop := by
  cases tile with
  | content extent =>
    obtain ⟨_, _, content⟩ := h
    exact content.forward
  | tag extent =>
    obtain ⟨_, tag⟩ := h
    exact tag.forward

theorem TilesFrom.append {text : Text} {start middle stop : Nat} {first second : List Tile}
    (h : TilesFrom text middle start first) (h' : TilesFrom text stop middle second) :
    TilesFrom text stop start (first ++ second) := by
  induction first generalizing start with
  | nil =>
    obtain rfl : start = middle := h
    exact h'
  | cons tile rest ih => exact ⟨h.1, h.2.1, ih h.2.2⟩

theorem TilesFrom.forward {text : Text} {start stop : Nat} {tiles : List Tile}
    (h : TilesFrom text stop start tiles) : start ≤ stop := by
  induction tiles generalizing start with
  | nil => exact Nat.le_of_eq h
  | cons tile rest ih =>
    have := h.1
    have := h.2.1.forward
    have := ih h.2.2
    omega

theorem TilesFrom.tiles_at {text : Text} {start stop : Nat} {tiles : List Tile}
    (h : TilesFrom text stop start tiles) : ∀ tile ∈ tiles, tile.At text := by
  induction tiles generalizing start with
  | nil => simp
  | cons tile rest ih => exact List.forall_mem_cons.mpr ⟨h.2.1, ih h.2.2⟩

theorem TagAt.gapTiles {text : Text} {extent : Extent} {kind : TagKind}
    (h : TagAt text extent kind) :
    TilesFrom text extent.stop extent.start (gapTiles extent.start extent.stop) := by
  rw [Template.gapTiles, if_neg (Nat.ne_of_lt h.forward)]
  exact ⟨rfl, ⟨kind, h⟩, rfl⟩

theorem CloseAt.gapTiles {text : Text} {chained : Bool} {extent : Extent}
    (h : CloseAt text chained extent) :
    TilesFrom text extent.stop extent.start (gapTiles extent.start extent.stop) := by
  unfold CloseAt at h
  split at h
  · rw [Template.gapTiles, if_pos h]
    exact h
  · exact h.gapTiles

mutual

theorem Statement.Tiled.tilesFrom {text : Text} {chained : Bool} :
    ∀ {s : Statement Extent}, s.Tiled text chained →
      TilesFrom text s.label.range.stop s.label.range.start s.tiles
  | .content _ _ _, h => ⟨rfl, ⟨_, _, h⟩, rfl⟩
  | .comment _ _, h => ⟨rfl, ⟨_, h⟩, rfl⟩
  | .mustache _ _ _, h => ⟨rfl, ⟨_, h.1⟩, rfl⟩
  | .partialCall _ _, h => ⟨rfl, ⟨_, h.1⟩, rfl⟩
  | .decorator _ _, h => ⟨rfl, ⟨_, h.1⟩, rfl⟩
  | .block label call inverted first second, h => by
    obtain ⟨opening, -, -, firstTiled, rest⟩ := h
    exact (opening.gapTiles.append (Statement.ProgramTiled.tilesFrom firstTiled)).append
      (Statement.SecondTiled.tilesFrom rest)
  | .partialBlock label call body, h => by
    obtain ⟨opening, -, -, bodyTiled, closing⟩ := h
    exact (opening.gapTiles.append (Statement.ProgramTiled.tilesFrom bodyTiled)).append
      closing.gapTiles
  | .decoratorBlock label call body, h => by
    obtain ⟨opening, -, -, bodyTiled, closing⟩ := h
    exact (opening.gapTiles.append (Statement.ProgramTiled.tilesFrom bodyTiled)).append
      closing.gapTiles
  | .bare _ _, h => h.elim

theorem Statement.ProgramTiled.tilesFrom {text : Text} :
    ∀ {program : ProgramOf Extent (Statement Extent)}, Statement.ProgramTiled text program →
      TilesFrom text program.label.range.stop program.label.range.start
        (Statement.programTiles program)
  | ⟨_, _, _, _⟩, h => Statement.ListTiled.tilesFrom h.2.2.2.2 h.1

theorem Statement.SecondTiled.tilesFrom {text : Text} {chained : Bool} {extent : Extent} :
    ∀ {second : Option (ProgramOf Extent (Statement Extent))},
      Statement.SecondTiled text chained extent second →
      TilesFrom text extent.stop extent.start (Statement.secondTiles extent second)
  | none, h => CloseAt.gapTiles h
  | some branch, h => by
    obtain ⟨before, branchTiled, closing⟩ := h
    refine (TilesFrom.append ?_ (Statement.ProgramTiled.tilesFrom branchTiled)).append closing.gapTiles
    split at before
    · rw [gapTiles, if_pos before]
      exact before
    · rcases before with tag | tag <;> exact tag.gapTiles

theorem Statement.ListTiled.tilesFrom {text : Text} {chained : Bool} :
    ∀ {body : List (Statement Extent)} {start stop : Nat}, Statement.ListTiled text chained body →
      Abut start stop body → TilesFrom text stop start (Statement.listTiles body)
  | [], _, _, _, abut => abut
  | s :: rest, start, stop, h, abut => by
    obtain ⟨rfl, abutRest⟩ := abut
    exact (Statement.Tiled.tilesFrom h.1).append (Statement.ListTiled.tilesFrom h.2 abutRest)

end

/-! ### The text of the tiles -/

/-- The characters of a text that a tile stands for. -/
def Tile.text (text : Text) (tile : Tile) : Text := text.slice tile.extent.start tile.extent.stop

/-- The text of several tiles. -/
def tilesText (text : Text) (tiles : List Tile) : Text := tiles.flatMap (Tile.text text)

/-- Put together, the tiles of a range are its text. -/
theorem TilesFrom.tilesText {text : Text} {start stop : Nat} {tiles : List Tile}
    (h : TilesFrom text stop start tiles) : tilesText text tiles = text.slice start stop := by
  induction tiles generalizing start with
  | nil =>
    obtain rfl : start = stop := h
    exact (Text.slice_self text start).symm
  | cons tile rest ih =>
    obtain ⟨rfl, here, later⟩ := h
    rw [← Text.slice_append_slice text (Nat.le_of_lt here.forward) later.forward, ← ih later]
    rfl

end Phrasebook.Template
