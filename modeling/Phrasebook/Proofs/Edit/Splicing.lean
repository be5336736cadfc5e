import Phrasebook.Proofs.Edit.Substitution
import Phrasebook.Proofs.Extract.Masking
import Phrasebook.Proofs.Template.Outline
import Phrasebook.Proofs.Template.Parser
import Phrasebook.Proofs.Template.Spelling

/-!
# Edits and the tree

Calls of the helper are put into the content of a template. `ChangeSet.apply_splices` shows that the
new text can be read and that its tree is the old one, up to the numbers and ranges of nodes, with
every call in its place in the content. `spliced_content` is the step from one content to its parts
and calls, `spliced_pieces` the induction over the pieces of the text.
-/

namespace Phrasebook.Template

open ChangeSet

/-! ### Calls of the helper -/

/-- The tag that an edit puts into a text. -/
def helperTag (helper text : Text) : Tag := ⟨.mustache, ['{', '{'], helper ++ ' ' :: quoted text, ['}', '}']⟩

/-- The call of the helper with a text as its only parameter. -/
def helperCall (helper text : Text) : Call Unit :=
  ⟨.path .blank (Path.ofSegments helper false [helper]), [.literal .blank (.string text)], none⟩

/-- The statement that stands for an edit in the new tree. -/
def helperMustache (helper text : Text) : Statement Unit :=
  .mustache .blank (helperCall helper text) true

variable {helper text : Text}

theorem helperTag_text (helper text : Text) : (helperTag helper text).text = wrap helper text :=
  (wrap_eq helper text).symm

theorem openParams?_quoted (text : Text) : openParams? ('a' :: 's' :: ' ' :: quoted text) = none := by
  rcases quoteFor_cases text with quote | quote <;> rw [quoted, quote] <;>
    simp [openParams?, Text.isBlank]

/-- The call of the helper in a tag whose inner text starts at an offset; its nodes have the numbers from
`next` on. -/
def helperCallAt (helper text : Text) (next offset : Nat) : Call Extent :=
  let behind := offset + helper.length + 1
  ⟨.path ⟨next, ⟨offset, offset + helper.length⟩⟩ (Path.ofSegments helper false [helper]),
    [.literal ⟨next + 1, ⟨behind, behind + (quoted text).length⟩⟩ (.string text)], none⟩

theorem readOperand_helper {whole : Text} {offset : Nat}
    (here : whole.slice offset (offset + helper.length) = helper) (next : Nat) {param : Token}
    (kind : param.kind = .string) :
    readOperand whole next ⟨.name, helper, ⟨offset, offset + helper.length⟩⟩ [param] =
      .ok ⟨.path ⟨next, ⟨offset, offset + helper.length⟩⟩ (Path.ofSegments helper false [helper]), next + 1,
        [param], Nat.le_refl _⟩ := by
  have walked (stop : Nat) : segments stop [param] = .ok ⟨[], stop, [param], Nat.le_refl _⟩ := by
    rw [segments, kind]
    rfl
  rw [readOperand]
  simp only [readPath, walked, bind, Except.bind, here]

theorem readArguments_text (whole : Text) (next : Nat) (extent : Extent) :
    readArguments whole next [⟨.string, quoted text, extent⟩] =
      .ok ⟨([.literal ⟨next, extent⟩ (.string text)], none), next + 1, [], by simp⟩ := by
  rw [readArguments, if_pos ⟨rfl, by simp [startsNamed]⟩, readOperand]
  simp only [readLiteral_quoted, readArguments, bind, Except.bind]

theorem readCall_helper (isName : IsName helper) {whole : Text} {offset : Nat}
    (here : whole.slice offset (offset + helper.length) = helper) (next start : Nat) :
    readCall whole next start offset (helper ++ ' ' :: quoted text) false =
      .ok ⟨helperCallAt helper text next offset, [], next + 2⟩ := by
  have behind : tokens (offset + helper.length) (' ' :: quoted text) = .ok [⟨.string, quoted text,
      ⟨offset + helper.length + 1, offset + helper.length + 1 + (quoted text).length⟩⟩] := by
    rw [tokens_blank _ (by decide), tokens_quoted_last]
  unfold readCall
  simp only [tokens_name isName rfl (openParams?_quoted text) behind, readOperand_helper here,
    readArguments_text, bind, Except.bind]
  rfl

theorem callIn?_helper (isName : IsName helper) (text : Text) :
    callIn? (helper ++ ' ' :: quoted text) false = some (helperCall helper text, []) := by
  have here : (helper ++ ' ' :: quoted text).slice 0 (0 + helper.length) = helper := by
    simp [Text.slice]
  rw [callIn?, readCall_helper isName here]
  rfl

/-! ### Parts of content -/

/-- What is left of content, unless nothing is. -/
def contentPart (part : Text) : List (Statement Unit) :=
  if part = [] then [] else [.content .blank part part]

/-- What stands for the text from `start` up to `stop` when edits are put in, one behind the other. -/
def splicedContent (helper text : Text) (start stop : Nat) :
    List (Extent × Text) → List (Statement Unit)
  | [] => contentPart (text.slice start stop)
  | (extent, new) :: rest =>
    contentPart (text.slice start extent.start) ++
      helperMustache helper new :: splicedContent helper text extent.stop stop rest

/-- The pieces of a part of content. -/
def partPieces (part : Text) : List Piece := if part = [] then [] else [.content part part]

/-- The pieces of the text from `start` up to `stop` when edits are put in, one behind the other. -/
def splicedPieces (helper text : Text) (start stop : Nat) : List (Extent × Text) → List Piece
  | [] => partPieces (text.slice start stop)
  | (extent, new) :: rest =>
    partPieces (text.slice start extent.start) ++
      .tag (helperTag helper new) :: splicedPieces helper text extent.stop stop rest

theorem partPieces_text (part : Text) : textOf (partPieces part) = part := by
  unfold partPieces
  split
  · next empty => exact empty.symm
  · simp [Piece.text]

theorem splicedPieces_text (start stop : Nat) (edits : List (Extent × Text)) :
    textOf (splicedPieces helper text start stop edits) =
      Text.substitute text start stop (edits.map (wrapped helper)) := by
  induction edits generalizing start with
  | nil => exact partPieces_text _
  | cons edit rest ih =>
    obtain ⟨extent, new⟩ := edit
    have tag : (Piece.tag (helperTag helper new)).text = wrap helper new := helperTag_text helper new
    simp only [splicedPieces, textOf_append, partPieces_text, textOf_cons, tag, ih, List.map_cons,
      wrapped, Text.substitute, List.append_assoc]

theorem Outline.run_part (outline : Outline) (part : Text) :
    outline.run (partPieces part) = some (outline.extend (contentPart part)) := by
  unfold partPieces contentPart
  split
  · simp [Outline.run, Outline.runAt, Outline.extend]
  · rfl

theorem Outline.takeTag_helper (isName : IsName helper) (new : Text) (outline : Outline) :
    outline.takeTag (helperTag helper new) = some (outline.extend [helperMustache helper new]) := by
  unfold Outline.takeTag helperTag Outline.addCall
  simp only [callIn?_helper isName]
  rfl

theorem Outline.run_spliced (isName : IsName helper) (edits : List (Extent × Text))
    (outline : Outline) (start stop : Nat) :
    outline.run (splicedPieces helper text start stop edits) =
      some (outline.extend (splicedContent helper text start stop edits)) := by
  induction edits generalizing outline start with
  | nil => exact Outline.run_part outline _
  | cons edit rest ih =>
    obtain ⟨extent, new⟩ := edit
    have here := Outline.takeTag_helper isName new
      (outline.extend (contentPart (text.slice start extent.start)))
    rw [splicedPieces, Outline.run_append, Outline.run_part, Option.bind_some, Outline.run_cons,
      Outline.takeAt, here, Option.bind_some, ih]
    simp [Outline.extend, splicedContent]

theorem EndsBefore.suffix {content part rest : Text} (isSuffix : part <:+ content)
    (h : EndsBefore content rest) : EndsBefore part rest := by
  obtain ⟨before, rfl⟩ := isSuffix
  induction before with
  | nil => exact h
  | cons c before ih => exact ih h.tail

theorem slice_suffix (text : Text) {start middle stop : Nat} (first : start ≤ middle)
    (second : middle ≤ stop) : text.slice middle stop <:+ text.slice start stop :=
  ⟨text.slice start middle, Text.slice_append_slice text first second⟩

theorem slice_prefix (text : Text) {start middle stop : Nat} (first : start ≤ middle)
    (second : middle ≤ stop) : text.slice start middle <+: text.slice start stop :=
  ⟨text.slice middle stop, Text.slice_append_slice text first second⟩

theorem ReadInTurn.part {part : Text} {behind : List Piece} (plain : '\\' ∉ part)
    (single : ¬['{', '{'] <:+: part) (ends : EndsBefore part (textOf behind))
    (turns : ReadInTurn behind) : ReadInTurn (partPieces part ++ behind) := by
  unfold partPieces
  split
  · exact turns
  · next filled => exact ⟨⟨filled, readContent_plain plain single ends⟩, turns⟩

theorem helperTag_readBefore (isName : IsName helper) {new : Text} (h : Wrappable new) (rest : Text) :
    ReadBefore rest (.tag (helperTag helper new)) := by
  have passes : tagCloser.Passes (helper ++ ([' '] ++ quoted new)) :=
    (tagCloser_bare.passes_plain fun c member => isPlain_nameChar (isName.chars c member)).append
      ((tagCloser_bare.passes_plain (List.all_eq_true.mp (by decide))).append (tagCloser.passes_quoted h))
  exact readBefore_mustache (startsCall_name isName rfl) passes rest

theorem splicedPieces_turns (isName : IsName helper) (plainText : '\\' ∉ text)
    {edits : List (Extent × Text)} (ordered : edits.Pairwise InOrder) {start stop : Nat}
    (within : ∀ edit ∈ edits, start ≤ edit.1.start ∧ edit.1.start ≤ edit.1.stop ∧ edit.1.stop ≤ stop)
    (noBrace : ∀ edit ∈ edits, (text.take edit.1.start).getLast? ≠ some '{')
    (plain : ∀ edit ∈ edits, '\\' ∉ edit.2) (single : ¬['{', '{'] <:+: text.slice start stop)
    {behind : List Piece} (ends : EndsBefore (text.slice start stop) (textOf behind))
    (turns : ReadInTurn behind) :
    ReadInTurn (splicedPieces helper text start stop edits ++ behind) := by
  have subset (first last : Nat) : '\\' ∉ text.slice first last := fun member =>
    plainText (List.mem_of_mem_drop (List.mem_of_mem_take member))
  induction edits generalizing start with
  | nil => exact ReadInTurn.part (subset _ _) single ends turns
  | cons edit rest ih =>
    obtain ⟨extent, new⟩ := edit
    obtain ⟨lower, forward, upper⟩ := within _ List.mem_cons_self
    obtain ⟨first, ordered⟩ := List.pairwise_cons.mp ordered
    have isSuffix : text.slice extent.stop stop <:+ text.slice start stop :=
      slice_suffix text (Nat.le_trans lower forward) upper
    have isPrefix : text.slice start extent.start <+: text.slice start stop :=
      slice_prefix text lower (Nat.le_trans forward upper)
    have later := ih ordered
      (fun edit member => ⟨first edit member, (within edit (List.mem_cons_of_mem _ member)).2⟩)
      (fun edit member => noBrace edit (List.mem_cons_of_mem _ member))
      (fun edit member => plain edit (List.mem_cons_of_mem _ member))
      (fun inside => single (inside.trans isSuffix.isInfix)) (ends.suffix isSuffix)
    have newPlain := plain _ List.mem_cons_self
    rw [splicedPieces, List.append_assoc, List.cons_append]
    refine ReadInTurn.part (subset _ _) (fun inside => single (inside.trans isPrefix.isInfix))
      (.inr ⟨fun last => ?_, _, rfl⟩) ⟨helperTag_readBefore isName (.of_plain newPlain) _, later⟩
    -- The character in front of the call is the last one of this part.
    apply noBrace _ List.mem_cons_self
    rw [← Text.take_append_slice text lower, List.getLast?_append, last]
    rfl

/-! ### Tiles of pieces -/

/-- The tile of a piece that stands at an offset. -/
def Piece.tile (offset : Nat) : Piece → Tile
  | .content written _ => .content ⟨offset, offset + written.length⟩
  | .tag read => .tag ⟨offset, offset + read.text.length⟩

/-- The tiles of pieces that stand one behind the other from an offset on. -/
def tilesOf : Nat → List Piece → List Tile
  | _, [] => []
  | offset, piece :: rest => piece.tile offset :: tilesOf (offset + piece.text.length) rest

theorem Piece.tile_extent (offset : Nat) (piece : Piece) :
    (piece.tile offset).extent = ⟨offset, offset + piece.text.length⟩ := by
  cases piece <;> rfl

theorem ReadBefore.opened {rest : Text} {tag : Tag} (h : ReadBefore rest (.tag tag)) :
    ∃ more, tag.text = '{' :: '{' :: more := by
  obtain ⟨⟨more, opening⟩, -⟩ := readTag_braces h
  have opening : tag.opening = '{' :: '{' :: more := opening
  exact ⟨more ++ tag.inner ++ tag.closing, by simp [Tag.text, opening]⟩

theorem ReadBefore.filled {rest : Text} {piece : Piece} (h : ReadBefore rest piece) :
    piece.text ≠ [] := by
  cases piece with
  | content written value => exact h.1
  | tag tag =>
    obtain ⟨more, opened⟩ := h.opened
    have text : (Piece.tag tag).text = tag.text := rfl
    simp [text, opened]

/-- What stands at the start of a piece is the piece. -/
theorem Tile.At.eq_tile {before rest : Text} {piece : Piece} {tile : Tile} (read : ReadBefore rest piece)
    (here : tile.At (before ++ (piece.text ++ rest))) (start : tile.extent.start = before.length) :
    tile = piece.tile before.length := by
  obtain ⟨text, whole⟩ : ∃ text, text = before ++ (piece.text ++ rest) := ⟨_, rfl⟩
  rw [← whole] at here
  have behind : text.drop tile.extent.start = piece.text ++ rest := by
    rw [start, whole, List.drop_left]
  have stop (bounded : tile.extent.stop ≤ text.length) (left : text.drop tile.extent.stop = rest) :
      tile.extent.stop = before.length + piece.text.length := by
    have long := congrArg List.length left
    rw [List.length_drop] at long
    simp only [whole, List.length_append] at bounded long
    omega
  cases tile with
  | content extent =>
    obtain ⟨value', written', content⟩ := here
    have found := content.read
    simp only [Tile.extent] at behind start stop
    rw [behind] at found
    cases piece with
    | content written value =>
      have same : readContent (written ++ rest) = ⟨written, value, rest⟩ := read.2
      have left := (ContentRead.mk.inj (found.symm.trans same)).2.2
      rw [← start, Piece.tile, Tile.content.injEq]
      exact congrArg₂ Extent.mk rfl (by rw [stop content.bounded left, start]; rfl)
    | tag tag =>
      -- No content starts with two braces.
      obtain ⟨more, opened⟩ := read.opened
      have text' : (Piece.tag tag).text = tag.text := rfl
      rw [text', opened, List.cons_append, List.cons_append, readContent_opened] at found
      have long := @Text.length_slice text extent.start extent.stop content.bounded
      rw [content.slice, ← (ContentRead.mk.inj found).1, List.length_nil] at long
      have := content.forward
      omega
  | tag extent =>
    obtain ⟨kind, tag'⟩ := here
    simp only [Tile.extent] at behind start stop
    cases piece with
    | content written value =>
      obtain ⟨inner, braces⟩ := tag'.braces
      have text' : (Piece.content written value).text = written := rfl
      have same : readContent (written ++ rest) = ⟨written, value, rest⟩ := read.2
      have opened : text.drop extent.start =
          '{' :: '{' :: (inner ++ ['}', '}'] ++ text.drop extent.stop) := by
        have parts := List.take_append_drop (extent.stop - extent.start) (text.drop extent.start)
        have reach : extent.start + (extent.stop - extent.start) = extent.stop := by
          have := tag'.forward
          omega
        rw [List.drop_drop, reach] at parts
        rw [← parts, show (text.drop extent.start).take _ = text.slice _ _ from rfl, braces]
        rfl
      rw [← text', ← behind, opened, readContent_opened] at same
      exact absurd (ContentRead.mk.inj same).1.symm read.1
    | tag tag =>
      obtain ⟨read', found, -, -⟩ := tag'.read
      have same : readTag ((tag.text ++ rest).drop 2) = .ok ⟨tag, rest⟩ := read
      have text' : (Piece.tag tag).text = tag.text := rfl
      rw [← text', ← behind, List.drop_drop, found] at same
      have left := (TagRead.mk.inj (Except.ok.inj same)).2
      rw [← start, Piece.tile, Tile.tag.injEq]
      exact congrArg₂ Extent.mk rfl (by rw [stop tag'.bounded left, start]; rfl)

/-- The tiles of a text are those of its pieces. -/
theorem TilesFrom.tilesOf {before : Text} {list : List Piece} {tiles : List Tile}
    (turns : ReadInTurn list)
    (tiled : TilesFrom (before ++ textOf list) (before ++ textOf list).length before.length tiles) :
    tiles = tilesOf before.length list := by
  induction list generalizing before tiles with
  | nil =>
    cases tiles with
    | nil => rfl
    | cons tile tiles =>
      obtain ⟨start, here, later⟩ := tiled
      have := here.forward
      have := later.forward
      simp at this
      omega
  | cons piece rest ih =>
    obtain ⟨read, turns⟩ := turns
    cases tiles with
    | nil =>
      have whole : before.length = (before ++ textOf (piece :: rest)).length := tiled
      have filled := List.length_pos_iff.mpr read.filled
      rw [textOf_cons, List.length_append, List.length_append] at whole
      omega
    | cons tile tiles =>
      obtain ⟨start, here, later⟩ := tiled
      have same := Tile.At.eq_tile read here start
      rw [textOf_cons, same, Piece.tile_extent, ← List.append_assoc, ← List.length_append] at later
      rw [Template.tilesOf, same, ← List.length_append, ih turns later]

/-! ### Markers over pieces -/

/-- A piece as masking leaves it. -/
def Piece.masked : Piece → Text
  | .content written _ => written
  | .tag read => Mask.cover read.text

/-- Pieces as masking leaves them. -/
def maskedOf (list : List Piece) : Text := (list.map Piece.masked).flatten

theorem maskedOf_append (first second : List Piece) : maskedOf (first ++ second) = maskedOf first ++ maskedOf second := by
  simp [maskedOf]

theorem maskedOf_cons (piece : Piece) (rest : List Piece) : maskedOf (piece :: rest) = piece.masked ++ maskedOf rest :=
  rfl

theorem Piece.length_masked (piece : Piece) : piece.masked.length = piece.text.length := by
  cases piece with
  | content written value => rfl
  | tag read => exact (Mask.sameLines_cover read.text).length_eq

theorem maskedTiles_tilesOf (before : Text) (list : List Piece) :
    Extract.maskedTiles (before ++ textOf list) (tilesOf before.length list) = maskedOf list := by
  induction list generalizing before with
  | nil => rfl
  | cons piece rest ih =>
    have later := ih (before ++ piece.text)
    rw [List.length_append, List.append_assoc, ← textOf_cons] at later
    have here : (before ++ textOf (piece :: rest)).slice before.length (before.length + piece.text.length) = piece.text := by
      rw [textOf_cons, ← List.append_assoc]
      exact Text.slice_append_of_length rfl rfl
    rw [tilesOf, Extract.maskedTiles_cons, later, maskedOf_cons]
    congr 1
    cases piece with
    | content written value => exact here
    | tag read => exact congrArg Mask.cover here

/-- The tiles of a text that is read are those of its pieces, and masking leaves the pieces with markers over the
tags. -/
theorem parse_pieces {text : Text} {list : List Piece} {tree : Program Extent} (turns : ReadInTurn list)
    (joined : textOf list = text) (parsed : parse text = .ok tree) :
    tree.tiles = tilesOf 0 list ∧ Extract.maskedTiles text tree.tiles = maskedOf list := by
  subst joined
  have tiles : tree.tiles = tilesOf 0 list := @TilesFrom.tilesOf [] _ _ turns (parse_tilesFrom parsed)
  exact ⟨tiles, tiles ▸ maskedTiles_tilesOf [] list⟩

/-- The marker over a call of the helper. -/
def coveredCall (helper key : Text) : Text := Mask.cover (wrap helper key)

theorem partPieces_masked (part : Text) : maskedOf (partPieces part) = part := by
  unfold partPieces
  split
  · next empty => exact empty.symm
  · simp [maskedOf, Piece.masked]

/-- Edits in content go under markers; what they are put into may be any text that agrees with the template there. -/
theorem splicedPieces_masked {masked : Text} {start stop : Nat} {edits : List (Extent × Text)}
    (same : ∀ first last, start ≤ first → last ≤ stop → masked.slice first last = text.slice first last)
    (ordered : edits.Pairwise InOrder)
    (within : ∀ edit ∈ edits, start ≤ edit.1.start ∧ edit.1.start ≤ edit.1.stop ∧ edit.1.stop ≤ stop) :
    maskedOf (splicedPieces helper text start stop edits) =
      Text.substitute masked start stop (edits.map (marked (coveredCall helper))) := by
  induction edits generalizing start with
  | nil =>
    rw [splicedPieces, partPieces_masked, List.map_nil, Text.substitute, same start stop (Nat.le_refl _) (Nat.le_refl _)]
  | cons edit rest ih =>
    obtain ⟨extent, new⟩ := edit
    obtain ⟨lower, forward, upper⟩ := within _ List.mem_cons_self
    obtain ⟨first, ordered⟩ := List.pairwise_cons.mp ordered
    have later := ih (fun first last behind => same first last (Nat.le_trans (Nat.le_trans lower forward) behind)) ordered
      (fun edit member => ⟨first edit member, (within edit (List.mem_cons_of_mem _ member)).2⟩)
    have tag : (Piece.tag (helperTag helper new)).masked = coveredCall helper new :=
      congrArg Mask.cover (helperTag_text helper new)
    rw [splicedPieces, maskedOf_append, maskedOf_cons, partPieces_masked, tag, later, List.map_cons, marked,
      Text.substitute, same start extent.start (Nat.le_refl _) (Nat.le_trans forward upper), List.append_assoc]

/-! ### Edits in content -/

/-- The edits that stand in a range. -/
def editsIn (extent : Extent) (edits : List (Extent × Text)) : List (Extent × Text) :=
  edits.filter fun edit => extent.start ≤ edit.1.start && edit.1.stop ≤ extent.stop

/-- Content with the edits in it put in. -/
def splicing (helper text : Text) (edits : List (Extent × Text)) : OfContent Extent :=
  fun extent value written =>
    match editsIn extent edits with
    | [] => [.content .blank value written]
    | inside => splicedContent helper text extent.start extent.stop inside

/-- An edit that stands in content. -/
def InContent (tiles : List Tile) (edit : Extent × Text) : Prop :=
  ∃ content, .content content ∈ tiles ∧ content.start ≤ edit.1.start ∧ edit.1.stop ≤ content.stop

/-- An edit that can be put into a text: it replaces some characters, none of them the one behind a
brace, by a call that can be read back. -/
structure Spliceable (text : Text) (edit : Extent × Text) : Prop where
  filled : edit.1.start < edit.1.stop
  noBrace : (text.take edit.1.start).getLast? ≠ some '{'
  plain : '\\' ∉ edit.2

theorem splicing_content {edits inside : List (Extent × Text)} {start stop : Nat} {written : Text}
    (found : editsIn ⟨start, stop⟩ edits = inside) (filled : written ≠ [])
    (here : text.slice start stop = written) :
    splicing helper text edits ⟨start, stop⟩ written written =
      splicedContent helper text start stop inside := by
  unfold splicing
  rw [found]
  cases inside with
  | nil => simp [splicedContent, contentPart, here, filled]
  | cons edit rest => rfl

theorem editsIn_append {earlier inside later : List (Extent × Text)} {start stop : Nat}
    (before : ∀ edit ∈ earlier, edit.1.start < start)
    (here : ∀ edit ∈ inside, start ≤ edit.1.start ∧ edit.1.stop ≤ stop)
    (behind : ∀ edit ∈ later, stop < edit.1.stop) :
    editsIn ⟨start, stop⟩ (earlier ++ (inside ++ later)) = inside := by
  unfold editsIn
  rw [List.filter_append, List.filter_append, List.filter_eq_nil_iff.mpr,
    List.filter_eq_self.mpr, List.filter_eq_nil_iff.mpr]
  · simp
  · intro edit member
    have := behind edit member
    simp
    omega
  · intro edit member
    have := here edit member
    simp
    omega
  · intro edit member
    have := before edit member
    simp
    omega

/-- Edits that do not cross a place are cut there into those in front of it and those behind it. -/
theorem exists_split {edits : List (Extent × Text)} (ordered : edits.Pairwise InOrder)
    (filled : ∀ edit ∈ edits, edit.1.start < edit.1.stop) {place : Nat}
    (sides : ∀ edit ∈ edits, edit.1.stop ≤ place ∨ place ≤ edit.1.start) :
    ∃ inside later, edits = inside ++ later ∧ (∀ edit ∈ inside, edit.1.stop ≤ place) ∧
      ∀ edit ∈ later, place ≤ edit.1.start := by
  induction edits with
  | nil => exact ⟨[], [], rfl, by simp, by simp⟩
  | cons edit rest ih =>
    obtain ⟨first, ordered⟩ := List.pairwise_cons.mp ordered
    rcases sides edit List.mem_cons_self with before | behind
    · obtain ⟨inside, later, rfl, front, back⟩ := ih ordered
        (fun other member => filled other (List.mem_cons_of_mem _ member))
        (fun other member => sides other (List.mem_cons_of_mem _ member))
      exact ⟨edit :: inside, later, rfl, List.forall_mem_cons.mpr ⟨before, front⟩, back⟩
    · refine ⟨[], edit :: rest, rfl, by simp, List.forall_mem_cons.mpr ⟨behind, fun other member => ?_⟩⟩
      have := filled edit List.mem_cons_self
      have := first other member
      unfold InOrder at this
      omega

theorem le_of_mem_tilesOf {offset : Nat} {list : List Piece} {tile : Tile}
    (member : tile ∈ tilesOf offset list) : offset ≤ tile.extent.start := by
  induction list generalizing offset with
  | nil => simp [tilesOf] at member
  | cons piece rest ih =>
    rcases List.mem_cons.mp member with rfl | member
    · rw [Piece.tile_extent]
    · have := ih member
      omega

theorem InContent.le {offset : Nat} {list : List Piece} {edit : Extent × Text}
    (h : InContent (tilesOf offset list) edit) : offset ≤ edit.1.start := by
  obtain ⟨content, member, lower, -⟩ := h
  exact Nat.le_trans (le_of_mem_tilesOf member) lower

theorem InContent.cons {offset : Nat} {piece : Piece} {rest : List Piece} {edit : Extent × Text}
    (h : InContent (tilesOf offset (piece :: rest)) edit) :
    ((∃ written value, piece = .content written value) ∧
      edit.1.stop ≤ offset + piece.text.length) ∨
      InContent (tilesOf (offset + piece.text.length) rest) edit := by
  obtain ⟨content, member, lower, upper⟩ := h
  rcases List.mem_cons.mp member with same | member
  · cases piece with
    | content written value =>
      obtain rfl := Tile.content.inj same
      exact .inl ⟨⟨written, value, rfl⟩, upper⟩
    | tag tag => simp [Piece.tile] at same
  · exact .inr ⟨content, member, lower, upper⟩

theorem EndsBefore.of_content {written value rest content : Text}
    (read : ReadBefore rest (.content written value)) : ¬EndsBefore content (written ++ rest) := by
  obtain ⟨filled, read⟩ := read
  rintro (ended | ⟨-, more, opened⟩)
  · exact filled (List.append_eq_nil_iff.mp ended).1
  · rw [opened, readContent_opened] at read
    exact filled (ContentRead.mk.inj read).1.symm

theorem EndsBefore.of_tag {tag : Tag} {rest content other : Text} (read : ReadBefore rest (.tag tag))
    (h : EndsBefore content (tag.text ++ rest)) : EndsBefore content (tag.text ++ other) := by
  obtain ⟨more, opened⟩ := read.opened
  rw [opened] at h ⊢
  rcases h with ended | ⟨last, -⟩
  · simp at ended
  · exact .inr ⟨last, more ++ other, rfl⟩

/-! ### Edits in pieces -/

/-- Pieces that stand for other pieces from an offset on, with edits put in. -/
structure SplicedAs (helper text : Text) (edits later : List (Extent × Text)) (offset : Nat)
    (list pieces : List Piece) : Prop where
  written : textOf pieces = Text.substitute text offset text.length (later.map (wrapped helper))
  turns : ReadInTurn pieces
  ends : ∀ content, EndsBefore content (textOf list) → EndsBefore content (textOf pieces)
  run : ∀ outline : Outline,
    outline.run pieces = Outline.runAt (splicing helper text edits) offset outline list
  masked : ∀ before : Text, before.length = offset → maskedOf pieces =
    Text.substitute (before ++ maskedOf list) offset (before ++ maskedOf list).length
      (later.map (marked (coveredCall helper)))

theorem SplicedAs.tag {edits later : List (Extent × Text)} {offset : Nat} {tag : Tag}
    {rest pieces : List Piece} (read : ReadBefore (textOf rest) (.tag tag))
    (h : SplicedAs helper text edits later (offset + tag.text.length) rest pieces)
    (here : text.slice offset (offset + tag.text.length) = tag.text)
    (bounded : offset + tag.text.length ≤ text.length)
    (behind : ∀ edit ∈ later, offset + tag.text.length ≤ edit.1.start) :
    SplicedAs helper text edits later offset (.tag tag :: rest) (.tag tag :: pieces) where
  written := by
    have behind : ∀ edit ∈ later.map (wrapped helper), offset + tag.text.length ≤ edit.1.start :=
      List.forall_mem_map.mpr behind
    rw [Text.substitute_skip text (Nat.le_add_right _ _) bounded behind, textOf_cons, h.written, here]
    rfl
  turns := ⟨read.elsewhere _, h.turns⟩
  ends := fun _ ends => ends.of_tag read
  run := fun outline => by
    rw [Outline.run_cons, Outline.runAt]
    have same : outline.takeAt .keep 0 (.tag tag) =
        outline.takeAt (splicing helper text edits) offset (.tag tag) := rfl
    rw [same]
    exact congrArg _ (funext h.run)
  masked := fun before atOffset => by
    have marker : (Piece.tag tag).masked.length = tag.text.length := Piece.length_masked _
    have behind : ∀ edit ∈ later.map (marked (coveredCall helper)), offset + tag.text.length ≤ edit.1.start :=
      List.forall_mem_map.mpr behind
    have reached : (before ++ (Piece.tag tag).masked).length = offset + tag.text.length := by
      rw [List.length_append, marker, atOffset]
    have placed : (before ++ (Piece.tag tag).masked ++ maskedOf rest).slice offset (offset + tag.text.length) =
        (Piece.tag tag).masked :=
      Text.slice_append_of_length atOffset (by rw [marker])
    have bounded : offset + tag.text.length ≤ (before ++ (Piece.tag tag).masked ++ maskedOf rest).length := by
      rw [List.length_append, reached]
      exact Nat.le_add_right _ _
    rw [maskedOf_cons, h.masked _ reached, maskedOf_cons, ← List.append_assoc,
      Text.substitute_skip _ (Nat.le_add_right _ _) bounded behind, placed]

theorem SplicedAs.content (isName : IsName helper) (plain : '\\' ∉ text)
    {earlier inside later : List (Extent × Text)} {offset : Nat} {written value : Text}
    {rest pieces : List Piece} (read : ReadBefore (textOf rest) (.content written value))
    (h : SplicedAs helper text (earlier ++ (inside ++ later)) later (offset + written.length) rest pieces)
    (here : text.slice offset (offset + written.length) = written)
    (bounded : offset + written.length ≤ text.length) (ordered : inside.Pairwise InOrder)
    (spliceable : ∀ edit ∈ inside, Spliceable text edit)
    (before : ∀ edit ∈ earlier, edit.1.start < offset)
    (within : ∀ edit ∈ inside, offset ≤ edit.1.start ∧ edit.1.stop ≤ offset + written.length)
    (behind : ∀ edit ∈ later, offset + written.length < edit.1.stop ∧
      offset + written.length ≤ edit.1.start) :
    SplicedAs helper text (earlier ++ (inside ++ later)) (inside ++ later) offset
      (.content written value :: rest)
      (splicedPieces helper text offset (offset + written.length) inside ++ pieces) := by
  have plainHere : '\\' ∉ written := fun member =>
    plain (List.mem_of_mem_drop (List.mem_of_mem_take (here ▸ member)))
  obtain ⟨rfl, single, ends⟩ := plain_of_readContent plainHere read.2
  refine ⟨?_, ?_, fun content ends => absurd ends (EndsBefore.of_content read), fun outline => ?_,
    fun before atOffset => ?_⟩
  · rw [textOf_append, splicedPieces_text, h.written, List.map_append]
    refine (Text.substitute_append text (Nat.le_add_right _ _) bounded ?_ ?_).symm
    · exact List.forall_mem_map.mpr fun edit member => (within edit member).2
    · exact List.forall_mem_map.mpr fun edit member => (behind edit member).2
  · apply splicedPieces_turns isName plain ordered _ (fun edit member => (spliceable edit member).noBrace)
      (fun edit member => (spliceable edit member).plain) (here.symm ▸ single)
      (here.symm ▸ h.ends _ ends) h.turns
    intro edit member
    exact ⟨(within edit member).1, Nat.le_of_lt (spliceable edit member).filled, (within edit member).2⟩
  · have found := editsIn_append before within fun edit member => (behind edit member).1
    rw [Outline.run_append, Outline.run_spliced isName, Option.bind_some, Outline.runAt, Outline.takeAt,
      splicing_content found read.1 here, h.run]
    rfl
  · have whole : before ++ maskedOf (.content value value :: rest) = before ++ value ++ maskedOf rest := by
      rw [maskedOf_cons, ← List.append_assoc]
      rfl
    have reached : (before ++ value).length = offset + value.length := by rw [List.length_append, atOffset]
    have content := @Text.slice_append_of_length before value (maskedOf rest) _ _ atOffset rfl
    have same (first last : Nat) (lower : offset ≤ first) (upper : last ≤ offset + value.length) :
        (before ++ value ++ maskedOf rest).slice first last = text.slice first last := by
      have parts (other : Text) (found : other.slice offset (offset + value.length) = value) :
          other.slice first last = value.slice (first - offset) (last - offset) := by
        have start : offset + (first - offset) = first := by omega
        have count : offset + (last - offset) - first = last - first := by omega
        rw [← found, Text.slice_slice _ (by omega), start, Text.slice, Text.slice, count]
      rw [parts _ content, parts _ here]
    have bounded : offset + value.length ≤ (before ++ value ++ maskedOf rest).length := by
      rw [List.length_append, reached]
      exact Nat.le_add_right _ _
    have front : ∀ edit ∈ inside.map (marked (coveredCall helper)), edit.1.stop ≤ offset + value.length :=
      List.forall_mem_map.mpr fun edit member => (within edit member).2
    have back : ∀ edit ∈ later.map (marked (coveredCall helper)), offset + value.length ≤ edit.1.start :=
      List.forall_mem_map.mpr fun edit member => (behind edit member).2
    rw [maskedOf_append, whole, List.map_append, Text.substitute_append _ (Nat.le_add_right _ _) bounded front back,
      h.masked _ reached, splicedPieces_masked same ordered]
    intro edit member
    exact ⟨(within edit member).1, Nat.le_of_lt (spliceable edit member).filled, (within edit member).2⟩

/-- Edits can be put into the content among pieces. -/
theorem spliced_pieces (isName : IsName helper) (plain : '\\' ∉ text) {list : List Piece}
    (turns : ReadInTurn list) {before : Text} (whole : text = before ++ textOf list)
    {earlier later : List (Extent × Text)} (passed : ∀ edit ∈ earlier, edit.1.start < before.length)
    (ordered : later.Pairwise InOrder) (placed : ∀ edit ∈ later, InContent (tilesOf before.length list) edit)
    (spliceable : ∀ edit ∈ later, Spliceable text edit) :
    ∃ pieces, SplicedAs helper text (earlier ++ later) later before.length list pieces := by
  -- The pieces taken go over into `before`, and the edits in them into `earlier`.
  induction list generalizing before earlier later with
  | nil =>
    cases later with
    | nil =>
      exact ⟨[], by simp [Text.substitute, Text.slice, whole], trivial, fun _ ends => ends, fun _ => rfl, fun _ same => by
        simp [maskedOf, Text.substitute, Text.slice, same]⟩
    | cons edit later =>
      obtain ⟨content, member, -⟩ := placed edit List.mem_cons_self
      simp [tilesOf] at member
  | cons piece rest ih =>
    obtain ⟨read, turns⟩ := turns
    have sides (edit : Extent × Text) (member : edit ∈ later) :
        edit.1.stop ≤ before.length + piece.text.length ∨
          before.length + piece.text.length ≤ edit.1.start :=
      (placed edit member).cons.imp And.right InContent.le
    obtain ⟨inside, later, rfl, front, back⟩ := exists_split ordered
      (fun edit member => (spliceable edit member).filled) sides
    obtain ⟨orderedInside, orderedLater, -⟩ := List.pairwise_append.mp ordered
    have filledLater (edit : Extent × Text) (member : edit ∈ later) :=
      (spliceable edit (List.mem_append_right _ member)).filled
    have here : text.slice before.length (before.length + piece.text.length) = piece.text := by
      rw [whole, textOf_cons, ← List.append_assoc]
      exact Text.slice_append_of_length rfl rfl
    have bounded : before.length + piece.text.length ≤ text.length := by
      rw [whole, textOf_cons]
      simp only [List.length_append]
      omega
    obtain ⟨pieces, h⟩ := @ih turns (before ++ piece.text) (by rw [whole, textOf_cons, List.append_assoc])
      (earlier ++ inside) later
      (fun edit member => by
        rw [List.length_append]
        rcases List.mem_append.mp member with isEarlier | isInside
        · have := passed edit isEarlier
          omega
        · have := (spliceable edit (List.mem_append_left _ isInside)).filled
          have := front edit isInside
          omega)
      orderedLater
      (fun edit member => by
        rw [List.length_append]
        have := filledLater edit member
        have := back edit member
        refine (placed edit (List.mem_append_right _ member)).cons.resolve_left fun inFront => ?_
        have upper := inFront.2
        omega)
      (fun edit member => spliceable edit (List.mem_append_right _ member))
    rw [List.length_append, List.append_assoc] at h
    cases piece with
    | content written value =>
      refine ⟨_, SplicedAs.content isName plain read h here bounded orderedInside
        (fun edit member => spliceable edit (List.mem_append_left _ member)) passed
        (fun edit member => ⟨(placed edit (List.mem_append_left _ member)).le, front edit member⟩) ?_⟩
      intro edit member
      exact ⟨Nat.lt_of_le_of_lt (back edit member) (filledLater edit member), back edit member⟩
    | tag tag =>
      have noInside : inside = [] := by
        refine List.eq_nil_iff_forall_not_mem.mpr fun edit member => ?_
        have filled := (spliceable edit (List.mem_append_left _ member)).filled
        have := front edit member
        rcases (placed edit (List.mem_append_left _ member)).cons with ⟨⟨_, _, same⟩, -⟩ | behind
        · simp at same
        · have := behind.le
          omega
      subst noInside
      exact ⟨_, SplicedAs.tag read h here bounded back⟩

end Phrasebook.Template

namespace Phrasebook.ChangeSet

open Template

/-- A text with calls of the helper in its content can be read. Its tree is the old one with the calls in place of
what they replace, and so is what masking leaves of it, with markers for the calls. -/
theorem parse_spliced {helper text : Text} {tree : Program Extent} {edits : List (Extent × Text)}
    (parsed : parse text = .ok tree) (plain : '\\' ∉ text) (isName : IsName helper) (ordered : edits.Pairwise InOrder)
    (placed : ∀ edit ∈ edits, InContent tree.tiles edit) (spliceable : ∀ edit ∈ edits, Spliceable text edit) :
    let result := text.substitute 0 text.length (edits.map (wrapped helper))
    let masked := Extract.maskedTiles text tree.tiles
    ∃ tree', parse result = .ok tree' ∧ tree'.shape = tree.edited (splicing helper text edits) ∧
      Extract.maskedTiles result tree'.tiles =
        masked.substitute 0 masked.length (edits.map (marked (coveredCall helper))) := by
  intro result masked
  -- The pieces of the text, and those of the text with the edits.
  have outline := parse_outline (splicing helper text edits) text
  rw [parsed] at outline
  split at outline
  · simp [Except.toOption] at outline
  · next whole =>
    obtain ⟨joined, turns⟩ := pieces_readInTurn whole
    obtain ⟨same, isMasked⟩ := parse_pieces turns joined parsed
    obtain ⟨pieces', h⟩ := @spliced_pieces helper text isName plain _ turns [] joined.symm [] edits (by simp)
      ordered (fun edit member => same ▸ placed edit member) spliceable
    obtain ⟨template, loaded, shape⟩ := @load_of_outline "" _ pieces'
      (tree.edited (splicing helper text edits)) h.turns h.written (by rw [h.run]; exact outline.symm)
    rw [List.length_nil] at loaded
    obtain ⟨tree', parsed', rfl⟩ := load_parsed loaded
    rw [ProgramOf.shape_mapRange] at shape
    have replaced := h.masked [] rfl
    rw [List.nil_append, ← isMasked] at replaced
    exact ⟨tree', parsed', shape, (parse_pieces h.turns h.written parsed').2.trans replaced⟩

/-- Calls of the helper in the content of a template leave the rest of its tree as it is. -/
theorem apply_splices (source : String) {helper text : Text} {tree : Program Extent}
    {edits : List (Extent × Text)} (parsed : parse text = .ok tree) (plain : '\\' ∉ text)
    (isName : IsName helper) (apart : edits.Pairwise Apart)
    (placed : ∀ edit ∈ edits, InContent tree.tiles edit)
    (spliceable : ∀ edit ∈ edits, Spliceable text edit)
    (single : ∀ edit ∈ edits, '\n' ∉ text.slice edit.1.start edit.1.stop) :
    ∃ sorted result template, sorted.Perm edits ∧ sorted.Pairwise InOrder ∧
      (ofEdits source (edits.map (editOf text))).apply helper text = .ok result ∧
      Template.load source result = .ok template ∧
      template.program.shape = tree.edited (splicing helper text sorted) := by
  obtain ⟨sorted, perm, ordered⟩ := exists_sorted (fun edit member => (spliceable edit member).filled) apart
  obtain ⟨tree', parsed', shape, -⟩ := parse_spliced parsed plain isName ordered
    (fun edit member => placed edit (perm.mem_iff.mp member))
    (fun edit member => spliceable edit (perm.mem_iff.mp member))
  have inside (edit : Extent × Text) (member : edit ∈ edits) :
      edit.1.start < edit.1.stop ∧ edit.1.stop ≤ text.length := by
    obtain ⟨content, isTile, -, upper⟩ := placed edit member
    obtain ⟨_, _, here⟩ := (parse_tilesFrom parsed).tiles_at _ isTile
    exact ⟨(spliceable edit member).filled, Nat.le_trans upper here.bounded⟩
  rcases @apply_ofEdits source helper text edits sorted inside perm ordered with
    ⟨-, applied⟩ | ⟨edit, member, newline, -⟩
  · refine ⟨sorted, _, _, perm, ordered, applied, by rw [Template.load, parsed'], ?_⟩
    rw [ProgramOf.shape_mapRange, shape]
  · exact absurd newline (single edit member)

/-- Two edits given out of order, one of them in a block and next to a word that stays; the texts hold
quotes and braces. -/
theorem apply_splices_block :
    ∃ (text : Text) (edits sorted : List (Extent × Text)) (tree : Program Extent) (result : Text)
      (template : Template),
      text = "It is ".toList ++ tagged "#if a" ++ "so here".toList ++ tagged "/if" ∧
      edits = [(⟨15, 17⟩, "\x7d\x7d \"so\"".toList), (⟨0, 5⟩, "It's \"it\"".toList)] ∧
      parse text = .ok tree ∧ '\\' ∉ text ∧ IsName ['t'] ∧ edits.Pairwise Apart ∧
      (∀ edit ∈ edits, InContent tree.tiles edit ∧ Spliceable text edit ∧
        '\n' ∉ text.slice edit.1.start edit.1.stop) ∧
      sorted.Perm edits ∧ sorted.Pairwise InOrder ∧
      (ofEdits "page" (edits.map (editOf text))).apply ['t'] text = .ok result ∧
      Template.load "page" result = .ok template ∧
      template.program.shape = tree.edited (splicing ['t'] text sorted) := by
  obtain ⟨text, isText⟩ : ∃ text : Text, text =
    "It is ".toList ++ tagged "#if a" ++ "so here".toList ++ tagged "/if" := ⟨_, rfl⟩
  obtain ⟨edits, isEdits⟩ : ∃ edits : List (Extent × Text), edits =
    [(⟨15, 17⟩, "\x7d\x7d \"so\"".toList), (⟨0, 5⟩, "It's \"it\"".toList)] := ⟨_, rfl⟩
  have tiles : (parse text).toOption.map ProgramOf.tiles =
      some [.content ⟨0, 6⟩, .tag ⟨6, 15⟩, .content ⟨15, 22⟩, .tag ⟨22, 29⟩] := by
    rw [isText]
    decide +kernel
  obtain ⟨tree, read, tiles⟩ := Option.map_eq_some_iff.mp tiles
  have parsed := ok_of_toOption read
  have plain : '\\' ∉ text := by rw [isText]; decide +kernel
  have isName : IsName ['t'] := by decide
  have apart : edits.Pairwise Apart := by
    rw [isEdits, List.pairwise_pair]
    exact .inr (by unfold InOrder; decide)
  have placed : ∀ edit ∈ edits, InContent tree.tiles edit ∧ Spliceable text edit ∧
      '\n' ∉ text.slice edit.1.start edit.1.stop := by
    rw [isEdits, tiles, isText]
    simp only [List.forall_mem_cons, List.not_mem_nil, false_implies, implies_true, and_true]
    refine ⟨⟨⟨⟨15, 22⟩, by decide, by decide, by decide⟩, ⟨by decide, ?_, ?_⟩, ?_⟩,
      ⟨⟨0, 6⟩, by decide, by decide, by decide⟩, ⟨by decide, ?_, ?_⟩, ?_⟩ <;> decide +kernel
  obtain ⟨sorted, result, template, perm, ordered, applied, loaded, shape⟩ :=
    apply_splices "page" parsed plain isName apart (fun edit member => (placed edit member).1)
      (fun edit member => (placed edit member).2.1) (fun edit member => (placed edit member).2.2)
  exact ⟨text, edits, sorted, tree, result, template, isText, isEdits, parsed, plain, isName, apart, placed,
    perm, ordered, applied, loaded, shape⟩

end Phrasebook.ChangeSet
