import Phrasebook.Proofs.Mask.Markers
import Phrasebook.Proofs.Extract.Masking

/-!
Masked texts. The text that masking leaves of tiles is well marked and its markers are the tags among
them; ordinary characters that stand together lie inside of one content.
-/

namespace Phrasebook.Extract

open Template Mask Text

/-! ### Markers and tags -/

/-- The ranges of the tags among tiles. -/
def tagExtents (tiles : List Tile) : List Extent :=
  tiles.filterMap fun
    | .tag extent => some extent
    | .content _ => none

theorem slice_subset {text : Text} {start stop : Nat} {c : Char} (member : c ∈ text.slice start stop) :
    c ∈ text :=
  List.mem_of_mem_drop (List.mem_of_mem_take member)

theorem isMarker_tag {text : Text} {extent : Extent} (h : Tile.At text (.tag extent)) :
    IsMarker (maskedTile text (.tag extent)) := by
  obtain ⟨kind, tag⟩ := h
  obtain ⟨inner, braces⟩ := tag.braces
  exact isMarker_cover braces

theorem wellMarked_maskedTiles {text : Text} {tiles : List Tile}
    (ordinary : ∀ c ∈ text, isReserved c = false) (h : ∀ tile ∈ tiles, tile.At text) :
    WellMarked (maskedTiles text tiles) := by
  induction tiles with
  | nil => exact .nil
  | cons tile rest ih =>
    obtain ⟨here, later⟩ := List.forall_mem_cons.mp h
    refine WellMarked.append ?_ (ih later)
    cases tile with
    | content extent => exact wellMarked_of_plain fun c member => ordinary c (slice_subset member)
    | tag extent =>
      rw [← List.append_nil (maskedTile text _)]
      exact .marker (isMarker_tag here) .nil

theorem length_maskedTile {text : Text} {tile : Tile} (h : tile.At text) :
    (maskedTile text tile).length = tile.extent.stop - tile.extent.start := by
  cases tile with
  | content extent =>
    obtain ⟨_, _, content⟩ := h
    exact length_slice text content.bounded
  | tag extent =>
    obtain ⟨_, tag⟩ := h
    exact (sameLines_cover _).length_eq.trans (length_slice text tag.bounded)

/-- The markers of a masked text are its tags. -/
theorem markers_maskedTiles {text : Text} {tiles : List Tile} {start stop : Nat}
    (ordinary : ∀ c ∈ text, isReserved c = false) (h : TilesFrom text stop start tiles) :
    markers.go 0 start (maskedTiles text tiles) = tagExtents tiles := by
  induction tiles generalizing start with
  | nil => rfl
  | cons tile rest ih =>
    obtain ⟨rfl, here, later⟩ := h
    have reached : tile.extent.start + (maskedTile text tile).length = tile.extent.stop := by
      have := here.forward
      rw [length_maskedTile here]
      omega
    have tail := ih later
    rw [maskedTiles_cons]
    cases tile with
    | content extent =>
      have plain : ∀ c ∈ maskedTile text (.content extent), isReserved c = false :=
        fun c member => ordinary c (slice_subset member)
      rw [markers_go_plain plain, reached]
      exact tail
    | tag extent =>
      rw [markers_go_marker (isMarker_tag here), reached, tail]
      rfl

/-! ### Content -/

theorem TilesFrom.split {text : Text} {start stop : Nat} {first second : List Tile}
    (h : TilesFrom text stop start (first ++ second)) :
    ∃ middle, TilesFrom text middle start first ∧ TilesFrom text stop middle second := by
  induction first generalizing start with
  | nil => exact ⟨start, rfl, h⟩
  | cons tile rest ih =>
    obtain ⟨here, placed, later⟩ := h
    obtain ⟨middle, before, after⟩ := ih later
    exact ⟨middle, ⟨here, placed, before⟩, after⟩

theorem length_maskedTiles {text : Text} {start stop : Nat} {tiles : List Tile}
    (h : TilesFrom text stop start tiles) : start + (maskedTiles text tiles).length = stop := by
  induction tiles generalizing start with
  | nil => exact h
  | cons tile rest ih =>
    obtain ⟨rfl, here, later⟩ := h
    have := ih later
    have := here.forward
    rw [maskedTiles_cons, List.length_append, length_maskedTile here]
    omega

theorem getElem?_maskedTiles {text : Text} {start stop index : Nat} {first second : List Tile}
    {tile : Tile} (h : TilesFrom text stop start (first ++ tile :: second)) (from_ : start = 0)
    (behind : tile.extent.start ≤ index) (inside : index < tile.extent.stop) :
    (maskedTiles text (first ++ tile :: second))[index]? =
      (maskedTile text tile)[index - tile.extent.start]? := by
  subst from_
  obtain ⟨middle, before, rfl, here, later⟩ := TilesFrom.split h
  have reached := length_maskedTiles before
  rw [Nat.zero_add] at reached
  have long := length_maskedTile here
  rw [maskedTiles_append, maskedTiles_cons, List.getElem?_append_right (by omega), reached,
    List.getElem?_append_left (by omega)]

theorem exists_tile {text : Text} {start stop index : Nat} {tiles : List Tile}
    (h : TilesFrom text stop start tiles) (behind : start ≤ index) (inside : index < stop) :
    ∃ tile ∈ tiles, tile.extent.start ≤ index ∧ index < tile.extent.stop := by
  induction tiles generalizing start with
  | nil =>
    have : start = stop := h
    omega
  | cons tile rest ih =>
    obtain ⟨rfl, here, later⟩ := h
    by_cases inTile : index < tile.extent.stop
    · exact ⟨tile, List.mem_cons_self, behind, inTile⟩
    · obtain ⟨other, member, inOther⟩ := ih later (by omega)
      exact ⟨other, List.mem_cons_of_mem _ member, inOther⟩

theorem tag_of_adjacent {text : Text} {first second : Tile} (h : first.At text) (h' : second.At text)
    (adjacent : second.extent.start = first.extent.stop) :
    (∃ extent, first = .tag extent) ∨ ∃ extent, second = .tag extent := by
  cases first with
  | tag extent => exact .inl ⟨extent, rfl⟩
  | content extent =>
    cases second with
    | tag extent => exact .inr ⟨extent, rfl⟩
    | content extent' =>
      obtain ⟨_, _, content⟩ := h
      obtain ⟨_, _, content'⟩ := h'
      exact (content.not_adjacent content' adjacent).elim

/-- The character in front of content is the last one of a marker. -/
theorem reserved_before {text : Text} {first second : List Tile} {extent : Extent}
    (h : TilesFrom text text.length 0 (first ++ .content extent :: second))
    (more : 0 < extent.start) :
    ∃ c, (maskedTiles text (first ++ .content extent :: second))[extent.start - 1]? = some c ∧
      isReserved c = true := by
  obtain ⟨middle, before, rfl, here, -⟩ := TilesFrom.split h
  rcases List.eq_nil_or_concat first with rfl | ⟨earlier, tile, rfl⟩
  · have : 0 = extent.start := before
    omega
  · rw [List.concat_eq_append] at h before ⊢
    obtain ⟨start, -, rfl, neighbour, same⟩ := TilesFrom.split before
    have same : tile.extent.stop = extent.start := same
    obtain ⟨tag, rfl⟩ := (tag_of_adjacent neighbour here same.symm).resolve_right (by simp)
    have forward := neighbour.forward
    have last := (isMarker_tag neighbour).getElem?_last
    rw [length_maskedTile neighbour] at last
    rw [List.append_assoc, List.singleton_append] at h ⊢
    simp only [Tile.extent] at same forward last
    have found := getElem?_maskedTiles h rfl (show tag.start ≤ extent.start - 1 by omega)
      (show extent.start - 1 < tag.stop by omega)
    have count : extent.start - 1 - tag.start = tag.stop - tag.start - 1 := by omega
    simp only [Tile.extent, count, last] at found
    exact ⟨endChar, found, by decide⟩

/-- The character in front of content is the closing brace of a tag. -/
theorem brace_before {text : Text} {first second : List Tile} {extent : Extent}
    (h : TilesFrom text text.length 0 (first ++ .content extent :: second))
    (more : 0 < extent.start) : text[extent.start - 1]? = some '}' := by
  obtain ⟨middle, before, rfl, here, -⟩ := TilesFrom.split h
  rcases List.eq_nil_or_concat first with rfl | ⟨earlier, tile, rfl⟩
  · have : 0 = extent.start := before
    omega
  · rw [List.concat_eq_append] at before
    obtain ⟨start, -, rfl, neighbour, same⟩ := TilesFrom.split before
    have same : tile.extent.stop = extent.start := same
    obtain ⟨tag, rfl⟩ := (tag_of_adjacent neighbour here same.symm).resolve_right (by simp)
    obtain ⟨kind, isTag⟩ := neighbour
    obtain ⟨inner, braces⟩ := isTag.braces
    have forward := isTag.forward
    have parts : text.slice tag.start tag.stop = ('{' :: '{' :: (inner ++ ['}'])) ++ ['}'] := by
      rw [braces]
      simp
    have long := congrArg List.length parts
    rw [length_slice text isTag.bounded, List.length_append, List.length_singleton] at long
    simp only [Tile.extent] at same
    have last := @getElem?_slice text tag.start tag.stop (tag.stop - tag.start - 1) (by omega)
    have place : tag.start + (tag.stop - tag.start - 1) = extent.start - 1 := by omega
    have inner : tag.stop - tag.start - 1 = ('{' :: '{' :: (inner ++ ['}'])).length := by omega
    rw [place, parts, inner, List.getElem?_concat_length] at last
    exact last.symm

/-- The character behind content is the first one of a marker. -/
theorem reserved_behind {text : Text} {first second : List Tile} {extent : Extent}
    (h : TilesFrom text text.length 0 (first ++ .content extent :: second))
    (more : extent.stop < text.length) :
    ∃ c, (maskedTiles text (first ++ .content extent :: second))[extent.stop]? = some c ∧
      isReserved c = true := by
  obtain ⟨middle, -, rfl, here, after⟩ := TilesFrom.split h
  rcases second with _ | ⟨tile, later⟩
  · have : extent.stop = text.length := after
    omega
  · obtain ⟨adjacent, neighbour, -⟩ := after
    obtain ⟨tag, rfl⟩ := (tag_of_adjacent here neighbour adjacent).resolve_left (by simp)
    have regroup : first ++ .content extent :: .tag tag :: later =
        (first ++ [.content extent]) ++ .tag tag :: later := by simp
    rw [regroup] at h ⊢
    have forward := neighbour.forward
    simp only [Tile.extent] at adjacent forward
    have found := getElem?_maskedTiles h rfl (show tag.start ≤ extent.stop by omega)
      (show extent.stop < tag.stop by omega)
    simp only [Tile.extent, adjacent, Nat.sub_self, (isMarker_tag neighbour).getElem?_first] at found
    exact ⟨startChar, found, by decide⟩

/-- Ordinary characters of a masked text that stand together, not all newlines, lie inside of one
content, and masking has left them as they were. -/
theorem inside_content {text : Text} {tiles : List Tile} {start stop place : Nat} {c : Char}
    (h : TilesFrom text text.length 0 tiles) (bounded : stop ≤ text.length)
    (ordinary : ∀ index c, start ≤ index → index < stop →
      (maskedTiles text tiles)[index]? = some c → isReserved c = false)
    (behind : start ≤ place) (inside : place < stop)
    (here : (maskedTiles text tiles)[place]? = some c) (plain : c ≠ '\n') :
    ∃ extent, .content extent ∈ tiles ∧ extent.start ≤ start ∧ stop ≤ extent.stop ∧
      (maskedTiles text tiles).slice start stop = text.slice start stop := by
  obtain ⟨tile, member, placed⟩ := exists_tile h (Nat.zero_le place) (by omega)
  obtain ⟨first, second, rfl⟩ := List.append_of_mem member
  have isOrdinary := ordinary place c behind inside here
  rw [getElem?_maskedTiles h rfl placed.1 placed.2] at here
  obtain ⟨middle, -, rfl, tileAt, -⟩ := TilesFrom.split h
  cases tile with
  | tag extent =>
    exact absurd (List.mem_of_getElem? here) ((isMarker_tag tileAt).not_mem isOrdinary plain)
  | content extent =>
    simp only [Tile.extent] at placed
    -- The characters around content are reserved, so the range cannot go beyond it.
    have lower : extent.start ≤ start := by
      apply Decidable.byContradiction
      intro notBehind
      obtain ⟨d, found, reserved⟩ := reserved_before h (by omega)
      rw [ordinary _ d (by omega) (by omega) found] at reserved
      simp at reserved
    have upper : stop ≤ extent.stop := by
      apply Decidable.byContradiction
      intro notInside
      obtain ⟨d, found, reserved⟩ := reserved_behind h (by omega)
      rw [ordinary _ d (by omega) (by omega) found] at reserved
      simp at reserved
    refine ⟨extent, member, lower, upper, List.ext_getElem? fun index => ?_⟩
    by_cases less : index < stop - start
    · have inTile : start + index - extent.start < extent.stop - extent.start := by omega
      have count : extent.start + (start + index - extent.start) = start + index := by omega
      rw [getElem?_slice less, getElem?_slice less, getElem?_maskedTiles h rfl
        (show extent.start ≤ start + index by omega) (show start + index < extent.stop by omega)]
      simp only [maskedTile, Tile.extent, getElem?_slice inTile, count]
    · rw [slice, slice, List.getElem?_take_eq_none (by omega), List.getElem?_take_eq_none (by omega)]

end Phrasebook.Extract
