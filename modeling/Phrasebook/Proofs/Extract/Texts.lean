import Phrasebook.Extract.Reading
import Phrasebook.Proofs.Extract.Buffer
import Phrasebook.Proofs.Markup.Runs
import Phrasebook.Proofs.Text.Resolver

/-!
Reading the texts of a masked template. Every text that is recorded is a range of the template between
two markers, without blanks at its ends; the ranges stand one behind the other.
-/

namespace Phrasebook.Extract

open Template Mask Markup Text

/-! ### Slices of lines -/

theorem sourceSlice?_line (earlier later : List Text) (left middle right : Text) :
    sourceSlice? (earlier ++ [left ++ middle ++ right] ++ later)
        ⟨⟨earlier.length + 1, left.length⟩, ⟨earlier.length + 1, left.length + middle.length⟩⟩ =
      some middle := by
  have here : index? (earlier ++ [left ++ middle ++ right] ++ later).length
      ((earlier.length : Int) + 1 - 1) = some earlier.length := by
    rw [Int.add_sub_cancel, index?_natCast (by simp)]
  have line : (earlier ++ [left ++ middle ++ right] ++ later).getD earlier.length [] =
      left ++ middle ++ right := by simp
  have stop : (left.length : Int) + middle.length = ((left.length + middle.length : Nat) : Int) := rfl
  have found : ((left ++ middle ++ right).drop left.length).take
      (left.length + middle.length - left.length) = middle := by
    rw [List.append_assoc, List.drop_left, Nat.add_sub_cancel_left, List.take_left]
  simp only [sourceSlice?, here, line, stop, between_natCast, Option.bind_eq_bind, Option.bind_some,
    if_true, found]

theorem sourceSlice?_lines (earlier rest later : List Text) (left first last right : Text) :
    sourceSlice? (earlier ++ (left ++ first) :: (rest ++ [last ++ right]) ++ later)
        ⟨⟨earlier.length + 1, left.length⟩,
          ⟨earlier.length + 1 + (rest.length + 1 : Nat), last.length⟩⟩ =
      some (ofLines (first :: (rest ++ [last]))) := by
  have length : (earlier ++ (left ++ first) :: (rest ++ [last ++ right]) ++ later).length =
      earlier.length + rest.length + 2 + later.length := by
    simp only [List.length_append, List.length_cons, List.length_nil]
    omega
  have firstRow : index? (earlier ++ (left ++ first) :: (rest ++ [last ++ right]) ++ later).length
      ((earlier.length : Int) + 1 - 1) = some earlier.length := by
    rw [Int.add_sub_cancel, index?_natCast (by omega)]
  have lastRow : index? (earlier ++ (left ++ first) :: (rest ++ [last ++ right]) ++ later).length
      ((earlier.length : Int) + 1 + (rest.length + 1 : Nat) - 1) =
        some (earlier.length + 1 + rest.length) := by
    have shift : (earlier.length : Int) + 1 + (rest.length + 1 : Nat) - 1 =
        ((earlier.length + 1 + rest.length : Nat) : Int) := by omega
    rw [shift, index?_natCast (by omega)]
  have apart : ¬(earlier.length : Int) + 1 = earlier.length + 1 + (rest.length + 1 : Nat) := by omega
  have firstLine : (earlier ++ (left ++ first) :: (rest ++ [last ++ right]) ++ later).getD
      earlier.length [] = left ++ first := by simp
  have lastLine : (earlier ++ (left ++ first) :: (rest ++ [last ++ right]) ++ later).getD
      (earlier.length + 1 + rest.length) [] = last ++ right := by
    have regroup : earlier ++ (left ++ first) :: (rest ++ [last ++ right]) ++ later =
        (earlier ++ [left ++ first] ++ rest) ++ (last ++ right) :: later := by simp
    have count : earlier.length + 1 + rest.length = (earlier ++ [left ++ first] ++ rest).length := by
      simp only [List.length_append, List.length_cons, List.length_nil]
    rw [regroup, count, List.getD_eq_getElem?_getD, List.getElem?_append_right (Nat.le_refl _),
      Nat.sub_self]
    rfl
  have middle : between (earlier ++ (left ++ first) :: (rest ++ [last ++ right]) ++ later)
      ((earlier.length : Int) + 1) ((earlier.length : Int) + 1 + (rest.length + 1 : Nat) - 1) =
        rest := by
    have start : (earlier.length : Int) + 1 = ((earlier.length + 1 : Nat) : Int) := rfl
    have stop : ((earlier.length + 1 : Nat) : Int) + (rest.length + 1 : Nat) - 1 =
        ((earlier.length + 1 + rest.length : Nat) : Int) := by omega
    have regroup : earlier ++ (left ++ first) :: (rest ++ [last ++ right]) ++ later =
        (earlier ++ [left ++ first]) ++ (rest ++ ([last ++ right] ++ later)) := by simp
    have count : earlier.length + 1 = (earlier ++ [left ++ first]).length := by simp
    rw [start, stop, between_natCast, regroup, Nat.add_sub_cancel_left, count, List.drop_left,
      List.take_left]
  simp only [sourceSlice?, firstRow, lastRow, firstLine, lastLine, middle, if_neg apart,
    Option.bind_eq_bind, Option.bind_some, dropTo_natCast, takeTo_natCast, List.drop_left,
    List.take_left]

/-- The lines of a text give back the slice that a span covers. -/
theorem sourceSlice?_span {text : Text} {start stop : Nat} (forward : start ≤ stop)
    (bounded : stop ≤ text.length) :
    sourceSlice? text.lines (text.span ⟨start, stop⟩) = some (text.slice start stop) := by
  obtain ⟨earlier, left, lines, last, right, later, parts, cut, atStart, atStop⟩ := exists_span_lines forward bounded
  have joined := ofLines_lines (text.slice start stop)
  rw [cut] at joined
  rw [spliced_concat] at parts
  rw [Text.span, atStart, atStop, parts, ← joined]
  rcases lines with _ | ⟨first, rest⟩
  · rw [List.nil_append, ofLines_singleton]
    simpa using sourceSlice?_line earlier later left last right
  · simpa using sourceSlice?_lines earlier rest later left first last right

/-! ### Parts between markers -/

/-- Parts of a text that stand one behind the other from the offset `reached` on, all of ordinary
characters. -/
def PartsFrom (raw : Text) : Nat → List (Nat × Text) → Prop
  | _, [] => True
  | reached, (start, part) :: rest =>
    reached ≤ start ∧ start + part.length ≤ raw.length ∧
      raw.slice start (start + part.length) = part ∧ (∀ c ∈ part, isReserved c = false) ∧
      PartsFrom raw (start + part.length) rest

/-- An offset lies in one of some parts. -/
def Holds (parts : List (Nat × Text)) (index : Nat) : Prop :=
  ∃ part ∈ parts, part.1 ≤ index ∧ index < part.1 + part.2.length

theorem unmarked_go_skip (marker rest : Text) (offset start : Nat) (part : Text) :
    unmarked.go marker.length offset start part (marker ++ rest) =
      unmarked.go 0 (offset + marker.length) start part rest := by
  induction marker generalizing offset with
  | nil => rfl
  | cons c more ih =>
    rw [List.length_cons, List.cons_append, unmarked.go, ih]
    congr 1
    omega

theorem unmarked_go_marker {marker : Text} (is : IsMarker marker) (rest : Text)
    (offset start : Nat) (part : Text) :
    unmarked.go 0 offset start part (marker ++ rest) =
      (start, part.reverse) ::
        unmarked.go 0 (offset + marker.length) (offset + marker.length) [] rest := by
  have found := is.markerLength? rest
  obtain ⟨c, more, rfl⟩ := List.exists_cons_of_length_pos is.length_pos
  rw [List.cons_append] at found ⊢
  simp only [unmarked.go, found, List.length_cons, Nat.add_sub_cancel]
  rw [unmarked_go_skip]
  congr 2
  omega

theorem PartsFrom.mono {raw : Text} {reached earlier : Nat} {parts : List (Nat × Text)}
    (le : earlier ≤ reached) (h : PartsFrom raw reached parts) : PartsFrom raw earlier parts := by
  cases parts with
  | nil => trivial
  | cons part rest => exact ⟨Nat.le_trans le h.1, h.2⟩

theorem Holds.cons {part : Nat × Text} {rest : List (Nat × Text)} {index : Nat} (h : Holds rest index) :
    Holds (part :: rest) index := by
  obtain ⟨other, member, inside⟩ := h
  exact ⟨other, List.mem_cons_of_mem _ member, inside⟩

theorem PartsFrom.cons {raw before part rest : Text} {parts : List (Nat × Text)}
    (whole : raw = before ++ part.reverse ++ rest) (ordinary : ∀ c ∈ part, isReserved c = false)
    (later : PartsFrom raw (before.length + part.length) parts) :
    PartsFrom raw before.length ((before.length, part.reverse) :: parts) := by
  refine ⟨Nat.le_refl _, ?_, ?_, by simpa using ordinary, by simpa using later⟩
  · rw [whole]
    simp
  · rw [whole]
    exact slice_append_of_length rfl rfl

/-- The parts of a well marked text: `before` is what stands in front of the part under way, and
`part` what has been read of it. -/
theorem unmarked_go_parts {raw before part rest : Text} (h : WellMarked rest)
    (whole : raw = before ++ part.reverse ++ rest) (ordinary : ∀ c ∈ part, isReserved c = false) :
    PartsFrom raw before.length
        (unmarked.go 0 (before.length + part.length) before.length part rest) ∧
      ∀ index c, before.length ≤ index → raw[index]? = some c → isReserved c = false → c ≠ '\n' →
        Holds (unmarked.go 0 (before.length + part.length) before.length part rest) index := by
  induction h generalizing before part with
  | nil =>
    refine ⟨PartsFrom.cons whole ordinary trivial, ?_⟩
    intro index c behind here _ _
    have inside := (List.getElem?_eq_some_iff.mp here).1
    rw [whole] at inside
    exact ⟨_, List.mem_cons_self, behind, by simpa using inside⟩
  | @plain d more here tail ih =>
    have notStart : d ≠ startChar := by
      rintro rfl
      simp [isReserved] at here
    have parts := @ih before (d :: part) (by simp [whole]) (List.forall_mem_cons.mpr ⟨here, ordinary⟩)
    rw [unmarked.go, markerLength?_of_ne notStart]
    exact parts
  | @marker marker more is tail ih =>
    have parts := @ih (before ++ part.reverse ++ marker) [] (by simp [whole]) (by simp)
    have length : (before ++ part.reverse ++ marker).length =
        before.length + part.length + marker.length := by simp [Nat.add_assoc]
    rw [unmarked_go_marker is]
    rw [length, List.length_nil, Nat.add_zero] at parts
    refine ⟨PartsFrom.cons whole ordinary (parts.1.mono (Nat.le_add_right _ _)), ?_⟩
    intro index c behind here plain notNewline
    by_cases inPart : index < before.length + part.length
    · exact ⟨_, List.mem_cons_self, behind, by simpa using inPart⟩
    · by_cases inMarker : index < before.length + part.length + marker.length
      · -- A character of the marker is reserved or a newline.
        have found : c ∈ marker := by
          have skip : (before ++ part.reverse).length ≤ index := by
            simp only [List.length_append, List.length_reverse]
            omega
          rw [whole, List.getElem?_append_right skip, List.getElem?_append_left] at here
          · exact List.mem_of_getElem? here
          · simp only [List.length_append, List.length_reverse] at skip ⊢
            omega
        exact absurd found (is.not_mem plain notNewline)
      · exact (parts.2 index c (by omega) here plain notNewline).cons

/-- The parts of a well marked text stand one behind the other and hold all of its characters outside
of markers. -/
theorem unmarked_parts {raw : Text} (h : WellMarked raw) :
    PartsFrom raw 0 (unmarked raw) ∧
      ∀ index c, raw[index]? = some c → isReserved c = false → c ≠ '\n' →
        Holds (unmarked raw) index := by
  obtain ⟨parts, holds⟩ := @unmarked_go_parts raw [] [] raw h rfl (by simp)
  exact ⟨parts, fun index c => holds index c (Nat.zero_le index)⟩

/-! ### Parts of runs -/

theorem isReserved_of_isBlank {c : Char} (blank : isBlank c = true) : isReserved c = false := by
  cases reserved : isReserved c with
  | false => rfl
  | true =>
    simp only [isReserved, Bool.or_eq_true, decide_eq_true_eq] at reserved
    rcases reserved with (rfl | rfl) | rfl <;> exact absurd blank (by decide)

/-- A run of a well marked text is well marked: no marker goes over one of its ends. -/
theorem wellMarked_run {before raw after : Text} (h : WellMarked (before ++ (raw ++ after)))
    (settled : Settled before) (ends : after = [] ∨ ∃ more, after = '<' :: more) : WellMarked raw := by
  have started : WellMarked (raw ++ after) := by
    rcases settled with rfl | ⟨front, mark, blanks, isMark, blank, rfl⟩
    · exact h
    · rw [List.append_assoc, List.cons_append] at h
      have behind : WellMarked (blanks ++ (raw ++ after)) := by
        rcases isMark with rfl | rfl
        · exact h.behind (by decide) (by decide)
        · exact h.behind (by decide) (by decide)
      -- Blanks may stand between the mark and the run, but no marker starts with a blank.
      exact behind.drop_plain fun c member => isReserved_of_isBlank (blank c member)
  rcases ends with rfl | ⟨more, rfl⟩
  · rwa [List.append_nil] at started
  · exact started.before (by decide) (by decide)

theorem run_parts {masked : Text} (wellMarked : WellMarked masked) {run : TextRun}
    {rest : List TextRun} {reached : Nat} (h : RunsFrom masked reached (run :: rest)) :
    PartsFrom run.raw 0 (unmarked run.raw) ∧
      ∀ index c, run.raw[index]? = some c → isReserved c = false → c ≠ '\n' →
        Holds (unmarked run.raw) index := by
  obtain ⟨before, after, rfl, -, -, settled, ends, -⟩ := h.block
  exact unmarked_parts (wellMarked_run wellMarked settled ends)

/-- The parts of the runs of a text, at their offsets in the text. -/
def partsOf (runs : List TextRun) : List (Nat × Text) :=
  runs.flatMap fun run => (unmarked run.raw).map fun part => (run.offset + part.1, part.2)

theorem PartsFrom.within {raw : Text} {reached : Nat} {parts : List (Nat × Text)}
    (h : PartsFrom raw reached parts) {part : Nat × Text} (member : part ∈ parts) :
    reached ≤ part.1 ∧ part.1 + part.2.length ≤ raw.length ∧
      raw.slice part.1 (part.1 + part.2.length) = part.2 ∧ ∀ c ∈ part.2, isReserved c = false := by
  induction parts generalizing reached with
  | nil => simp at member
  | cons first rest ih =>
    obtain ⟨le, inside, placed, ordinary, later⟩ := h
    rcases List.mem_cons.mp member with rfl | member
    · exact ⟨le, inside, placed, ordinary⟩
    · obtain ⟨behind, found⟩ := ih later member
      exact ⟨by omega, found⟩

theorem PartsFrom.block {before raw after : Text} {reached : Nat} {parts later : List (Nat × Text)}
    (h : PartsFrom raw reached parts) (inside : reached ≤ raw.length)
    (more : PartsFrom (before ++ (raw ++ after)) (before.length + raw.length) later) :
    PartsFrom (before ++ (raw ++ after)) (before.length + reached)
      (parts.map (fun part => (before.length + part.1, part.2)) ++ later) := by
  induction parts generalizing reached with
  | nil => exact more.mono (by omega)
  | cons part rest ih =>
    obtain ⟨le, bounded, placed, ordinary, tail⟩ := h
    refine ⟨by simpa using le, ?_, ?_, ordinary, ?_⟩
    · simp only [List.length_append]
      omega
    · rw [Nat.add_assoc, slice_append_right, slice_append_left (Nat.le_add_right _ _) bounded,
        placed]
    · simp only [Nat.add_assoc]
      exact ih tail bounded

theorem partsOf_from {masked : Text} (wellMarked : WellMarked masked) {runs : List TextRun}
    {reached : Nat} (h : RunsFrom masked reached runs) : PartsFrom masked reached (partsOf runs) := by
  induction runs generalizing reached with
  | nil => trivial
  | cons run rest ih =>
    have parts := (run_parts wellMarked h).1
    obtain ⟨before, after, rfl, atStart, le, -, -, later⟩ := h.block
    rw [← atStart] at le later
    rw [partsOf, List.flatMap_cons, ← atStart]
    exact (parts.block (Nat.zero_le _) (ih later)).mono le

/-! ### Ranges of texts -/

/-- The range of a part without the blanks around it, unless it is blank. -/
def trimmed? (part : Nat × Text) : Option Extent :=
  if (strip part.2).isEmpty then none
  else
    let start := part.1 + (part.2.length - (stripLeft part.2).length)
    some ⟨start, start + (strip part.2).length⟩

/-- The ranges of the texts in runs. -/
def textExtents (runs : List TextRun) : List Extent := (partsOf runs).filterMap trimmed?

theorem trimmed?_bounds {part : Nat × Text} {extent : Extent} (h : trimmed? part = some extent) :
    part.1 ≤ extent.start ∧ extent.start < extent.stop ∧ extent.stop ≤ part.1 + part.2.length := by
  simp only [trimmed?, Option.ite_none_left_eq_some] at h
  obtain ⟨notBlank, h⟩ := h
  obtain ⟨lead, trail, whole, -, -, skipped⟩ := strip_parts part.2
  have long := congrArg List.length whole
  have positive : 0 < (strip part.2).length := List.length_pos_of_ne_nil (by simpa using notBlank)
  simp only [List.length_append] at long
  obtain rfl := Option.some.inj h
  simp only [skipped]
  omega

theorem trimmed?_slice {masked : Text} {part : Nat × Text} {extent : Extent}
    (placed : masked.slice part.1 (part.1 + part.2.length) = part.2)
    (h : trimmed? part = some extent) : masked.slice extent.start extent.stop = strip part.2 := by
  simp only [trimmed?, Option.ite_none_left_eq_some] at h
  obtain ⟨-, h⟩ := h
  obtain ⟨lead, trail, whole, -, -, skipped⟩ := strip_parts part.2
  have inside : lead.length + (strip part.2).length ≤ part.2.length := by
    have := congrArg List.length whole
    simp only [List.length_append] at this
    omega
  rw [skipped] at h
  obtain rfl := Option.some.inj h
  calc masked.slice (part.1 + lead.length) (part.1 + lead.length + (strip part.2).length)
    _ = part.2.slice lead.length (lead.length + (strip part.2).length) := by
      rw [Nat.add_assoc, ← slice_slice masked (Nat.add_le_add_left inside part.1), placed]
    _ = (lead ++ strip part.2 ++ trail : Text).slice lead.length
        (lead.length + (strip part.2).length) := by rw [← whole]
    _ = strip part.2 := slice_append_of_length rfl rfl

theorem exists_trimmed? {part : Nat × Text} {index : Nat} {c : Char}
    (here : part.2[index]? = some c) (notBlank : isBlank c = false) :
    ∃ extent, trimmed? part = some extent ∧ extent.start ≤ part.1 + index ∧
      part.1 + index < extent.stop := by
  obtain ⟨lead, trail, whole, leadBlank, trailBlank, skipped⟩ := strip_parts part.2
  have inside : lead.length ≤ index ∧ index < lead.length + (strip part.2).length := by
    rw [whole] at here
    by_cases inLead : index < lead.length
    · rw [List.append_assoc, List.getElem?_append_left inLead] at here
      rw [leadBlank c (List.mem_of_getElem? here)] at notBlank
      simp at notBlank
    · refine ⟨by omega, Decidable.byContradiction fun notInside => ?_⟩
      rw [List.getElem?_append_right (by simp only [List.length_append]; omega)] at here
      rw [trailBlank c (List.mem_of_getElem? here)] at notBlank
      simp at notBlank
  have remains : (strip part.2).isEmpty = false := by
    rw [List.isEmpty_eq_false_iff]
    exact List.ne_nil_of_length_pos (by omega)
  refine ⟨_, by simp only [trimmed?, remains]; rfl, ?_, ?_⟩
  · simp only [skipped]
    omega
  · simp only [skipped]
    omega

/-! ### Records -/

/-- Adds the text of a range of a template. -/
def recordAt (source : String) (text : Text) (texts : Texts) (extent : Extent) : Except Fault Texts :=
  match unescape (text.slice extent.start extent.stop) with
  | .error long => .error (.longReference long.digits)
  | .ok key => .ok (texts.add key [⟨source, text.span extent⟩])

theorem record_eq (source : String) {text before raw after part : Text} {offset start : Nat}
    (texts : Texts) (same : SameLines (before ++ raw ++ after) text) (inOrder : offset ≤ start)
    (inside : start + part.length ≤ raw.length)
    (kept : ∀ extent, trimmed? (before.length + start, part) = some extent →
      text.slice extent.start extent.stop = strip part) :
    let place := (before ++ raw ++ after).position before.length
    record source text.lines texts (.reached raw place.line place.column offset) start part =
      match trimmed? (before.length + start, part) with
      | none => .ok (texts, .reached raw place.line place.column offset)
      | some extent => recordAt source text texts extent >>= fun texts =>
        .ok (texts, .reached raw place.line place.column (extent.stop - before.length)) := by
  intro place
  have reverse : stripRight (stripLeft part) = strip part := rfl
  by_cases blank : (strip part).isEmpty = true
  · simp only [record, reverse, blank, if_true, trimmed?]
  · obtain ⟨lead, trail, whole, -, -, skipped⟩ := strip_parts part
    generalize long : (strip part).length = length at *
    have bounded : start + lead.length + length ≤ raw.length := by
      have := congrArg List.length whole
      simp only [List.length_append, long] at this
      omega
    have inText : before.length + (start + lead.length + length) ≤ text.length := by
      rw [← same.length_eq]
      simp only [List.length_append]
      omega
    have trimmed : trimmed? (before.length + start, part) = some
        ⟨before.length + (start + lead.length), before.length + (start + lead.length + length)⟩ := by
      simp only [trimmed?, blank, skipped, long, Nat.add_assoc]
      rfl
    have resolved := @Resolver.resolve_reached before raw after offset _ _
      (Nat.le_trans inOrder (Nat.le_add_right start lead.length))
      (Nat.le_add_right (start + lead.length) length) bounded
    rw [same.span_eq] at resolved
    have found := sourceSlice?_span (Nat.add_le_add_left
      (Nat.le_add_right (start + lead.length) length) before.length) inText
    rw [kept _ trimmed] at found
    have resolved : (Resolver.reached raw place.line place.column offset).resolve
        (start + lead.length : Nat) ((start + lead.length : Nat) + (length : Nat)) = _ := resolved
    simp only [record, reverse, blank, Bool.false_eq_true, if_false, long, skipped, resolved, found,
      if_true, trimmed, recordAt, kept _ trimmed, Nat.add_sub_cancel_left]
    cases unescape (strip part) <;> rfl

theorem records_eq (source : String) {text before raw after : Text} {offset : Nat}
    {parts : List (Nat × Text)} (texts : Texts) (same : SameLines (before ++ raw ++ after) text)
    (placed : PartsFrom raw offset parts)
    (kept : ∀ part ∈ parts, ∀ extent, trimmed? (before.length + part.1, part.2) = some extent →
      text.slice extent.start extent.stop = strip part.2) :
    let place := (before ++ raw ++ after).position before.length
    (parts.foldlM
        (fun (texts, resolver) (start, part) => record source text.lines texts resolver start part)
        (texts, .reached raw place.line place.column offset) >>= fun result => .ok result.1) =
      (parts.filterMap fun part => trimmed? (before.length + part.1, part.2)).foldlM
        (recordAt source text) texts := by
  intro place
  -- The resolver has passed the newlines in front of `offset`, and no part left starts before it.
  induction parts generalizing texts offset with
  | nil => rfl
  | cons part rest ih =>
    obtain ⟨start, part⟩ := part
    obtain ⟨le, inside, -, -, later⟩ := placed
    obtain ⟨keptHere, keptRest⟩ := List.forall_mem_cons.mp kept
    have first := record_eq source texts same le inside keptHere
    rw [List.foldlM_cons, List.filterMap_cons]
    cases trimmed : trimmed? (before.length + start, part) with
    | none =>
      simp only [trimmed] at first ⊢
      rw [first]
      exact ih texts (later.mono (Nat.le_trans le (Nat.le_add_right start part.length))) keptRest
    | some extent =>
      simp only [trimmed] at first ⊢
      rw [first, List.foldlM_cons]
      have bound := (trimmed?_bounds trimmed).2.2
      simp only at bound
      cases recordAt source text texts extent with
      | error fault => rfl
      | ok texts => exact ih texts (later.mono (by omega)) keptRest

/-! ### Masked templates -/

/-- What is left of a part of a masked text lies inside of one content and stands so in the
template. -/
theorem trimmed?_content {text : Text} {tiles : List Tile} {part : Nat × Text} {extent : Extent}
    (h : TilesFrom text text.length 0 tiles) (bounded : part.1 + part.2.length ≤ text.length)
    (placed : (maskedTiles text tiles).slice part.1 (part.1 + part.2.length) = part.2)
    (ordinary : ∀ c ∈ part.2, isReserved c = false) (trimmed : trimmed? part = some extent) :
    ∃ content, .content content ∈ tiles ∧ content.start ≤ extent.start ∧
      extent.stop ≤ content.stop ∧ text.slice extent.start extent.stop = strip part.2 := by
  obtain ⟨behind, forward, inside⟩ := trimmed?_bounds trimmed
  have left := trimmed?_slice placed trimmed
  have characters (index : Nat) (c : Char) (lower : extent.start ≤ index) (upper : index < extent.stop)
      (here : (maskedTiles text tiles)[index]? = some c) : c ∈ part.2 := by
    have count : part.1 + (index - part.1) = index := by omega
    rw [← count, ← getElem?_slice (show index - part.1 < part.1 + part.2.length - part.1 by omega),
      placed] at here
    exact List.mem_of_getElem? here
  have bound : extent.stop ≤ (maskedTiles text tiles).length := by
    have := length_maskedTiles h
    omega
  have long : ((maskedTiles text tiles).slice extent.start extent.stop).length = _ :=
    length_slice (maskedTiles text tiles) bound
  rw [left] at long
  obtain ⟨c, rest, first⟩ := List.exists_cons_of_length_pos (show 0 < (strip part.2).length by omega)
  -- The first character left is no blank, so it is not one of the newlines inside of a marker.
  have notBlank : isBlank c = false :=
    isBlank_head_stripLeft ((stripLeft_strip part.2).trans first)
  have here : (maskedTiles text tiles)[extent.start]? = some c := by
    have := @getElem?_slice (maskedTiles text tiles) extent.start extent.stop 0 (by omega)
    rw [left, first] at this
    simpa using this.symm
  have plain : c ≠ '\n' := by
    rintro rfl
    simp [isBlank] at notBlank
  obtain ⟨content, member, lower, upper, same⟩ := inside_content h (by omega)
    (fun index c lower upper here => ordinary c (characters index c lower upper here))
    (Nat.le_refl _) forward here plain
  exact ⟨content, member, lower, upper, by rw [← same, left]⟩

theorem recordRun_eq {source : String} {text : Text} {tiles : List Tile} {run : TextRun}
    {rest : List TextRun} {reached : Nat} (texts : Texts)
    (ordinary : ∀ c ∈ text, isReserved c = false) (h : TilesFrom text text.length 0 tiles)
    (runs : RunsFrom (maskedTiles text tiles) reached (run :: rest)) :
    recordRun source text.lines (maskedTiles text tiles) texts run =
      (textExtents [run]).foldlM (recordAt source text) texts := by
  have same : SameLines (maskedTiles text tiles) text := by
    have lines := sameLines_maskedTiles text tiles
    rwa [h.tilesText, slice_zero_length] at lines
  have wellMarked := wellMarked_maskedTiles ordinary h.tiles_at
  have placed := partsOf_from wellMarked runs
  have parts := (run_parts wellMarked runs).1
  obtain ⟨before, after, whole, atStart, -, -, -, -⟩ := runs.block
  have joined : maskedTiles text tiles = before ++ run.raw ++ after := by
    rw [whole, List.append_assoc]
  have records := records_eq source texts (joined ▸ same) parts
  rw [← joined, atStart] at records
  rw [recordRun, Resolver.ofText_eq_reached, textExtents, partsOf]
  simp only [List.flatMap_cons, List.flatMap_nil, List.append_nil, List.filterMap_map]
  refine records fun part member extent trimmed => ?_
  have inRuns : (run.offset + part.1, part.2) ∈ partsOf (run :: rest) := by
    rw [partsOf, List.flatMap_cons]
    exact List.mem_append_left _ (List.mem_map_of_mem member)
  obtain ⟨-, bounded, here, plain⟩ := placed.within inRuns
  rw [same.length_eq] at bounded
  obtain ⟨-, -, -, -, kept⟩ := trimmed?_content h bounded here plain trimmed
  exact kept

/-- Reading a masked template records the texts of the ranges of its runs in turn. -/
theorem readTexts_eq (source : String) {text : Text} {tiles : List Tile} (texts : Texts)
    (ordinary : ∀ c ∈ text, isReserved c = false) (h : TilesFrom text text.length 0 tiles) :
    readTexts source text.lines (maskedTiles text tiles).lines texts =
      match textRuns (maskedTiles text tiles) with
      | .error refusal => .error (.ofRefusal refusal)
      | .ok runs => (textExtents runs).foldlM (recordAt source text) texts := by
  rw [readTexts, ofLines_lines]
  cases read : textRuns (maskedTiles text tiles) with
  | error refusal => rfl
  | ok runs =>
    have placed := textRuns_from read
    simp only
    -- What the runs left have to do with those before is only the offset that they start from.
    clear read
    generalize 0 = reached at placed
    induction runs generalizing texts reached with
    | nil => rfl
    | cons run rest ih =>
      have extents : textExtents (run :: rest) = textExtents [run] ++ textExtents rest := by
        simp [textExtents, partsOf]
      obtain ⟨-, -, -, -, -, -, later⟩ := id placed
      rw [List.foldlM_cons, recordRun_eq texts ordinary h placed, extents, List.foldlM_append]
      cases (textExtents [run]).foldlM (recordAt source text) texts with
      | error fault => rfl
      | ok texts => exact ih texts _ later

/-! ### The ranges of a masked template -/

theorem PartsFrom.extents {raw : Text} {reached : Nat} {parts : List (Nat × Text)}
    (h : PartsFrom raw reached parts) :
    (parts.filterMap trimmed?).Pairwise (fun first second => first.stop ≤ second.start) ∧
      ∀ extent ∈ parts.filterMap trimmed?, reached ≤ extent.start := by
  induction parts generalizing reached with
  | nil => simp
  | cons part rest ih =>
    obtain ⟨le, -, -, -, later⟩ := h
    obtain ⟨inOrder, behind⟩ := ih later
    rw [List.filterMap_cons]
    split
    · exact ⟨inOrder, fun extent member => by have := behind extent member; omega⟩
    · next extent trimmed =>
      have bounds := trimmed?_bounds trimmed
      refine ⟨List.pairwise_cons.mpr ⟨fun other member => ?_, inOrder⟩,
        List.forall_mem_cons.mpr ⟨by omega, fun other member => ?_⟩⟩
      · have := behind other member
        omega
      · have := behind other member
        omega

section Ranges

variable {text : Text} {tiles : List Tile} {runs : List TextRun}

/-- The ranges of texts stand one behind the other. -/
theorem textExtents_inOrder (ordinary : ∀ c ∈ text, isReserved c = false)
    (h : TilesFrom text text.length 0 tiles) (read : textRuns (maskedTiles text tiles) = .ok runs) :
    (textExtents runs).Pairwise fun first second => first.stop ≤ second.start :=
  (partsOf_from (wellMarked_maskedTiles ordinary h.tiles_at) (textRuns_from read)).extents.1

/-- What is left of a part of a run lies inside of one content and stands so in the template. -/
theorem part_content (ordinary : ∀ c ∈ text, isReserved c = false)
    (h : TilesFrom text text.length 0 tiles) (read : textRuns (maskedTiles text tiles) = .ok runs)
    {part : Nat × Text} (member : part ∈ partsOf runs) {extent : Extent} (trimmed : trimmed? part = some extent) :
    ∃ content, .content content ∈ tiles ∧ content.start ≤ extent.start ∧ extent.stop ≤ content.stop ∧
      text.slice extent.start extent.stop = strip part.2 := by
  have placed := partsOf_from (wellMarked_maskedTiles ordinary h.tiles_at) (textRuns_from read)
  obtain ⟨-, bounded, here, plain⟩ := placed.within member
  have length := length_maskedTiles h
  exact trimmed?_content h (by omega) here plain trimmed

/-- A range of a text is not empty, lies inside of one content and has no blanks at its ends. -/
theorem textExtents_content (ordinary : ∀ c ∈ text, isReserved c = false)
    (h : TilesFrom text text.length 0 tiles) (read : textRuns (maskedTiles text tiles) = .ok runs)
    {extent : Extent} (member : extent ∈ textExtents runs) :
    extent.start < extent.stop ∧
      (∃ content, .content content ∈ tiles ∧ content.start ≤ extent.start ∧
        extent.stop ≤ content.stop) ∧
      strip (text.slice extent.start extent.stop) = text.slice extent.start extent.stop := by
  obtain ⟨part, inRuns, trimmed⟩ := List.mem_filterMap.mp member
  obtain ⟨content, isTile, lower, upper, slice⟩ := part_content ordinary h read inRuns trimmed
  refine ⟨(trimmed?_bounds trimmed).2.1, ⟨content, isTile, lower, upper⟩, ?_⟩
  rw [slice, strip_strip]

/-- A character of a masked text outside of its markers that is no blank lies in the range of a text
exactly if it lies in a run. -/
theorem textExtents_complete (ordinary : ∀ c ∈ text, isReserved c = false)
    (h : TilesFrom text text.length 0 tiles) (read : textRuns (maskedTiles text tiles) = .ok runs)
    {index : Nat} {c : Char} (here : (maskedTiles text tiles)[index]? = some c)
    (notBlank : isBlank c = false) (plain : isReserved c = false) :
    (∃ extent ∈ textExtents runs, extent.start ≤ index ∧ index < extent.stop) ↔
      ∃ run ∈ runs, run.offset ≤ index ∧ index < run.offset + run.raw.length := by
  have wellMarked := wellMarked_maskedTiles ordinary h.tiles_at
  have placed := textRuns_from read
  constructor
  · rintro ⟨extent, member, lower, upper⟩
    obtain ⟨part, inRuns, trimmed⟩ := List.mem_filterMap.mp member
    obtain ⟨run, isRun, inRun⟩ := List.mem_flatMap.mp inRuns
    obtain ⟨inner, isPart, rfl⟩ := List.mem_map.mp inRun
    obtain ⟨reached, rest, first⟩ := placed.of_mem isRun
    have within := (run_parts wellMarked first).1.within isPart
    have bounds := trimmed?_bounds trimmed
    simp only at bounds
    exact ⟨run, isRun, by omega, by omega⟩
  · rintro ⟨run, isRun, lower, upper⟩
    obtain ⟨reached, rest, first⟩ := placed.of_mem isRun
    obtain ⟨parts, holds⟩ := run_parts wellMarked first
    obtain ⟨-, -, slice, -⟩ := first
    have inRaw : run.raw[index - run.offset]? = some c := by
      have count : run.offset + (index - run.offset) = index := by omega
      rw [← slice, getElem?_slice (by omega), count, here]
    have notNewline : c ≠ '\n' := by
      rintro rfl
      simp [isBlank] at notBlank
    obtain ⟨part, isPart, behind, inside⟩ := holds _ c inRaw plain notNewline
    have inPart : part.2[index - run.offset - part.1]? = some c := by
      have count : part.1 + (index - run.offset - part.1) = index - run.offset := by omega
      obtain ⟨-, -, partSlice, -⟩ := parts.within isPart
      rw [← partSlice, getElem?_slice (by omega), count, inRaw]
    obtain ⟨extent, trimmed, found⟩ :=
      @exists_trimmed? (run.offset + part.1, part.2) _ _ inPart notBlank
    simp only at found
    refine ⟨extent, List.mem_filterMap.mpr ⟨_, ?_, trimmed⟩, by omega, by omega⟩
    exact List.mem_flatMap.mpr ⟨run, isRun, List.mem_map_of_mem isPart⟩

end Ranges

end Phrasebook.Extract
