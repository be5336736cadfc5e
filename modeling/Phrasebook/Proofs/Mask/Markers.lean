import Phrasebook.Proofs.Mask.Cover

/-!
Finding markers again. A text that is made of ordinary characters and whole markers is well marked;
`markers` lists the ranges of its markers from left to right.
-/

namespace Phrasebook.Mask

open Text

/-! ### Single markers -/

/-- One start character, fill characters and newlines, and one end character. -/
def IsMarker (text : Text) : Prop :=
  ∃ middle, (∀ c ∈ middle, c = fillChar ∨ c = '\n') ∧ text = startChar :: (middle ++ [endChar])

theorem overlay_concat {count : Nat} {region : Text} (wide : width region = count) (last c : Char)
    (plain : c ≠ '\n') :
    overlay (List.replicate count fillChar ++ [last]) (region ++ [c]) =
      overlay (List.replicate count fillChar) region ++ [last] := by
  induction region generalizing count with
  | nil =>
    obtain rfl : count = 0 := wide.symm
    simp [overlay, plain]
  | cons d rest ih =>
    by_cases newline : d = '\n'
    · subst newline
      rw [width_cons_newline] at wide
      cases count with
      | zero => simpa [overlay, overlay_nil] using ih wide
      | succ count => simpa [overlay, List.replicate_succ] using ih wide
    · rw [width_cons newline] at wide
      obtain ⟨count, rfl⟩ : ∃ n, count = n + 1 := ⟨_, wide.symm⟩
      have tail := ih (by omega : width rest = count)
      simpa [overlay, List.replicate_succ, newline] using tail

theorem mem_overlay_replicate {count : Nat} {region : Text} (wide : width region = count) :
    ∀ c ∈ overlay (List.replicate count fillChar) region, c = fillChar ∨ c = '\n' := by
  induction region generalizing count with
  | nil => cases count <;> simp [overlay]
  | cons d rest ih =>
    by_cases newline : d = '\n'
    · subst newline
      rw [width_cons_newline] at wide
      have tail := ih wide
      cases count with
      | zero => simpa [overlay, overlay_nil] using tail
      | succ count => simpa [overlay, List.replicate_succ] using tail
    · rw [width_cons newline] at wide
      obtain ⟨count, rfl⟩ : ∃ n, count = n + 1 := ⟨_, wide.symm⟩
      have tail := ih (by omega : width rest = count)
      simpa [overlay, List.replicate_succ, newline] using tail

/-- What covers a tag is one marker. -/
theorem isMarker_cover {region inner : Text} (braces : region = ['{', '{'] ++ inner ++ ['}', '}']) :
    IsMarker (cover region) := by
  have parts : region = '{' :: (('{' :: (inner ++ ['}'])) ++ ['}']) := by simp [braces]
  have wide : width region = width ('{' :: (inner ++ ['}'])) + 2 := by
    rw [parts, width_cons (by decide), width_append]
    rfl
  refine ⟨overlay (List.replicate (width ('{' :: (inner ++ ['}']))) fillChar)
    ('{' :: (inner ++ ['}'])), mem_overlay_replicate rfl, ?_⟩
  rw [cover, ink, wide, Nat.add_sub_cancel, ← overlay_concat rfl endChar '}' (by decide)]
  rw [parts]
  rfl

theorem IsMarker.markerLength? {marker : Text} (h : IsMarker marker) (rest : Text) :
    markerLength? (marker ++ rest) = some marker.length := by
  obtain ⟨middle, fills, rfl⟩ := h
  have isMiddle : (middle ++ endChar :: rest).takeWhile (fun c => c = fillChar || c = '\n') =
      middle := by
    rw [List.takeWhile_append_of_pos (by simpa using fills), List.takeWhile_cons_of_neg (by decide),
      List.append_nil]
  have whole : startChar :: (middle ++ [endChar]) ++ rest = startChar :: (middle ++ endChar :: rest) := by
    simp
  rw [whole, Mask.markerLength?, if_pos rfl, isMiddle]
  simp

theorem markerLength?_of_ne {c : Char} (other : c ≠ startChar) (rest : Text) :
    markerLength? (c :: rest) = none := by
  simp [markerLength?, other]

theorem IsMarker.length_pos {marker : Text} (h : IsMarker marker) : 0 < marker.length := by
  obtain ⟨middle, -, rfl⟩ := h
  simp

theorem IsMarker.getElem?_first {marker : Text} (h : IsMarker marker) :
    marker[0]? = some startChar := by
  obtain ⟨middle, -, rfl⟩ := h
  rfl

theorem IsMarker.getElem?_last {marker : Text} (h : IsMarker marker) :
    marker[marker.length - 1]? = some endChar := by
  obtain ⟨middle, -, rfl⟩ := h
  rw [← List.getLast?_eq_getElem?, ← List.cons_append, List.getLast?_concat]

theorem IsMarker.mem {marker : Text} (h : IsMarker marker) {c : Char} (member : c ∈ marker) :
    isReserved c = true ∨ c = '\n' := by
  obtain ⟨middle, fills, rfl⟩ := h
  simp only [List.mem_cons, List.mem_append, List.not_mem_nil, or_false] at member
  rcases member with rfl | here | rfl
  · exact .inl (by decide)
  · rcases fills c here with rfl | rfl
    · exact .inl (by decide)
    · exact .inr rfl
  · exact .inl (by decide)

theorem IsMarker.not_mem {marker : Text} (h : IsMarker marker) {c : Char}
    (ordinary : isReserved c = false) (plain : c ≠ '\n') : c ∉ marker := by
  intro member
  rcases h.mem member with reserved | newline
  · simp [reserved] at ordinary
  · exact plain newline

/-! ### Texts with markers -/

/-- A text of ordinary characters and whole markers. -/
inductive WellMarked : Text → Prop where
  | nil : WellMarked []
  | plain {c : Char} {rest : Text} (ordinary : isReserved c = false) (h : WellMarked rest) :
    WellMarked (c :: rest)
  | marker {marker rest : Text} (is : IsMarker marker) (h : WellMarked rest) :
    WellMarked (marker ++ rest)

theorem WellMarked.append {first second : Text} (h : WellMarked first) (h' : WellMarked second) :
    WellMarked (first ++ second) := by
  induction h with
  | nil => exact h'
  | plain ordinary _ ih => exact .plain ordinary ih
  | marker is _ ih =>
    rw [List.append_assoc]
    exact .marker is ih

theorem wellMarked_of_plain {text : Text} (plain : ∀ c ∈ text, isReserved c = false) :
    WellMarked text := by
  induction text with
  | nil => exact .nil
  | cons c rest ih =>
    obtain ⟨ordinary, later⟩ := List.forall_mem_cons.mp plain
    exact .plain ordinary (ih later)

/-! ### Parts of texts with markers -/

theorem WellMarked.tail {c : Char} {rest : Text} (h : WellMarked (c :: rest))
    (ordinary : isReserved c = false) : WellMarked rest := by
  generalize whole : c :: rest = text at h
  cases h with
  | nil => simp at whole
  | plain _ tail =>
    obtain ⟨-, rfl⟩ := List.cons.inj whole
    exact tail
  | marker is tail =>
    obtain ⟨middle, -, rfl⟩ := is
    obtain ⟨rfl, -⟩ := List.cons.inj whole
    simp [isReserved] at ordinary

theorem WellMarked.drop_plain {before rest : Text} (h : WellMarked (before ++ rest))
    (ordinary : ∀ c ∈ before, isReserved c = false) : WellMarked rest := by
  induction before with
  | nil => exact h
  | cons c more ih =>
    obtain ⟨here, later⟩ := List.forall_mem_cons.mp ordinary
    exact ih (h.tail here) later

/-- A character that cannot be part of a marker ends the markers in front of it: what follows it is
well marked. -/
theorem WellMarked.behind {front rest : Text} {c : Char} (h : WellMarked (front ++ c :: rest))
    (ordinary : isReserved c = false) (plain : c ≠ '\n') : WellMarked rest := by
  generalize whole : front ++ c :: rest = text at h
  induction h generalizing front with
  | nil => simp at whole
  | @plain d more _ tail ih =>
    cases front with
    | nil =>
      obtain ⟨-, rfl⟩ := List.cons.inj whole
      exact tail
    | cons e front => exact ih (List.cons.inj whole).2
  | @marker marker more is tail ih =>
    rcases List.append_eq_append_iff.mp whole with ⟨front', rfl, split⟩ | ⟨later, rfl, split⟩
    · cases front' with
      | nil =>
        have split : [] ++ c :: rest = more := split
        exact ih split
      | cons d front' =>
        obtain ⟨rfl, -⟩ := List.cons.inj split
        exact absurd (List.mem_append_right _ List.mem_cons_self) (is.not_mem ordinary plain)
    · exact ih split.symm

/-- What stands in front of a character that cannot be part of a marker is well marked. -/
theorem WellMarked.before {front rest : Text} {c : Char} (h : WellMarked (front ++ c :: rest))
    (ordinary : isReserved c = false) (plain : c ≠ '\n') : WellMarked front := by
  generalize whole : front ++ c :: rest = text at h
  induction h generalizing front with
  | nil => simp at whole
  | @plain d more here tail ih =>
    cases front with
    | nil => exact .nil
    | cons e front =>
      obtain ⟨rfl, split⟩ := List.cons.inj whole
      exact .plain here (ih split)
  | @marker marker more is tail ih =>
    rcases List.append_eq_append_iff.mp whole with ⟨front', rfl, split⟩ | ⟨later, rfl, split⟩
    · cases front' with
      | nil =>
        rw [List.append_nil] at is
        rw [← List.append_nil front]
        exact .marker is .nil
      | cons d front' =>
        obtain ⟨rfl, -⟩ := List.cons.inj split
        exact absurd (List.mem_append_right _ List.mem_cons_self) (is.not_mem ordinary plain)
    · exact .marker is (ih split.symm)

/-! ### Ranges of markers -/

/-- The ranges of the markers of a text, from left to right. -/
def markers (text : Text) : List Extent := go 0 0 text
where
  /-- The ranges from `offset` on; the first `skip` characters belong to the marker before. -/
  go (skip offset : Nat) : Text → List Extent
    | [] => []
    | c :: rest =>
      match skip with
      | skip + 1 => go skip (offset + 1) rest
      | 0 =>
        match markerLength? (c :: rest) with
        | some length => ⟨offset, offset + length⟩ :: go (length - 1) (offset + 1) rest
        | none => go 0 (offset + 1) rest

theorem markers_go_skip (marker rest : Text) (offset : Nat) :
    markers.go marker.length offset (marker ++ rest) =
      markers.go 0 (offset + marker.length) rest := by
  induction marker generalizing offset with
  | nil => rfl
  | cons c more ih =>
    rw [List.length_cons, List.cons_append, markers.go, ih]
    congr 1
    omega

theorem markers_go_marker {marker : Text} (h : IsMarker marker) (rest : Text) (offset : Nat) :
    markers.go 0 offset (marker ++ rest) =
      ⟨offset, offset + marker.length⟩ :: markers.go 0 (offset + marker.length) rest := by
  have found := h.markerLength? rest
  obtain ⟨c, more, rfl⟩ := List.exists_cons_of_length_pos h.length_pos
  rw [List.cons_append] at found ⊢
  simp only [markers.go, found, List.length_cons, Nat.add_sub_cancel]
  rw [markers_go_skip]
  congr 2
  omega

theorem markers_go_plain {plain : Text} (ordinary : ∀ c ∈ plain, isReserved c = false) (rest : Text)
    (offset : Nat) :
    markers.go 0 offset (plain ++ rest) = markers.go 0 (offset + plain.length) rest := by
  induction plain generalizing offset with
  | nil => rfl
  | cons c more ih =>
    obtain ⟨here, later⟩ := List.forall_mem_cons.mp ordinary
    have notStart : c ≠ startChar := by
      rintro rfl
      simp [isReserved] at here
    rw [List.cons_append, markers.go, markerLength?_of_ne notStart]
    simp only
    rw [ih later, List.length_cons]
    congr 1
    omega

/-! ### Reserved characters -/

theorem rejectReserved_ok_iff (source : String) (text : Text) :
    rejectReserved source text.lines = .ok () ↔ ∀ c ∈ text, isReserved c = false := by
  have inLines : (∀ c ∈ text, isReserved c = false) ↔
      ∀ line ∈ text.lines, ∀ c ∈ line, isReserved c = false := by
    induction text with
    | nil => simp [lines]
    | cons c rest ih =>
      rw [List.forall_mem_cons, ih]
      by_cases newline : c = '\n'
      · subst newline
        rw [lines_cons_newline, List.forall_mem_cons]
        simp [show isReserved '\n' = false by decide]
      · obtain ⟨first, others, split⟩ := exists_first_line rest
        rw [lines_cons newline split, split]
        simp [and_assoc]
  have noneFound : findReserved? text.lines = none ↔
      ∀ line ∈ text.lines, ∀ c ∈ line, isReserved c = false := by
    rw [findReserved?, List.findSome?_eq_none_iff]
    constructor
    · intro notFound line member
      obtain ⟨row, here⟩ := List.mem_iff_getElem?.mp member
      have notHere := notFound (line, row) (List.mk_mem_zipIdx_iff_getElem?.mpr here)
      rw [← List.findIdx?_eq_none_iff]
      cases found : line.findIdx? isReserved with
      | none => rfl
      | some column => simp [found] at notHere
    · rintro ordinary ⟨line, row⟩ member
      have inText := List.mem_of_getElem? (List.mk_mem_zipIdx_iff_getElem?.mp member)
      simp [List.findIdx?_eq_none_iff.mpr (ordinary line inText)]
  rw [inLines, ← noneFound, rejectReserved]
  cases findReserved? text.lines <;> simp

end Phrasebook.Mask
