import Phrasebook.Proofs.Edit.Alone
import Phrasebook.Proofs.Edit.Splicing
import Phrasebook.Proofs.Extract.Analysable
import Phrasebook.Proofs.Extract.Covered

/-!
# Reading a template again
-/

namespace Phrasebook

open Template Extract ChangeSet Mask Markup Text

/-! ### What stands in front of a text -/

namespace Extract

/-- Parts of a text start where it starts or behind a marker. -/
theorem Cut.partsAt_start {text : Text} (h : Cut text) (before : Text) {part : Nat × Text}
    (member : part ∈ partsAt before.length text) :
    part.1 = before.length ∨ ((before ++ text).take part.1).getLast? = some endChar := by
  induction h generalizing before with
  | last plain =>
    rw [partsAt_last plain] at member
    exact .inl (by rw [List.mem_singleton.mp member])
  | @marker front marker rest plain is _ ih =>
    rw [partsAt_marker plain is] at member
    rcases List.mem_cons.mp member with rfl | later
    · exact .inl rfl
    · have reached : before.length + (front.length + marker.length) = (before ++ front ++ marker).length := by
        simp only [List.length_append]
        omega
      have whole : before ++ (front ++ (marker ++ rest)) = before ++ front ++ marker ++ rest := by simp
      rw [reached] at later
      rw [whole]
      rcases ih _ later with same | behind
      · obtain ⟨middle, -, rfl⟩ := is
        rw [same, List.take_left, ← List.cons_append, ← List.append_assoc, List.getLast?_concat]
        exact .inr rfl
      · exact .inr behind

theorem blank_ne_brace {c : Char} (blank : isBlank c = true) : c ≠ '{' := by
  rintro rfl
  exact absurd blank (by decide)

theorem settled_no_brace {before : Text} (h : Settled before) : before.getLast? ≠ some '{' := by
  rcases h with rfl | ⟨front, mark, blanks, isMark, blank, rfl⟩
  · simp
  · intro last
    rw [List.getLast?_append_cons] at last
    rcases List.mem_cons.mp (List.mem_of_getLast? last) with rfl | inBlanks
    · rcases isMark with same | same <;> exact absurd same (by decide)
    · exact blank_ne_brace (blank _ inBlanks) rfl

/-- A text in a run does not stand behind an opening brace. -/
theorem no_brace_before {masked : Text} {runs : List TextRun} (wellMarked : WellMarked masked)
    (read : textRuns masked = .ok runs) {part : Nat × Text} (member : part ∈ partsOf runs) {extent : Extent}
    (trimmed : trimmed? part = some extent) : (masked.take extent.start).getLast? ≠ some '{' := by
  obtain ⟨-, bounded, placed, -⟩ := (partsOf_from wellMarked (textRuns_from read)).within member
  -- In front of the part stands the start of its run or a marker,
  have atStart : (masked.take part.1).getLast? ≠ some '{' := by
    obtain ⟨run, isRun, inRun⟩ := List.mem_flatMap.mp member
    obtain ⟨reached, rest, first⟩ := (textRuns_from read).of_mem isRun
    obtain ⟨inner, isInner, same⟩ := List.mem_map.mp inRun
    have within := (run_parts wellMarked first).1.within isInner
    obtain ⟨before, after, rfl, atStart, -, settled, ends, -⟩ := first.block
    have cut := cut_of_wellMarked (wellMarked_run wellMarked settled ends)
    have inPart : part ∈ partsAt before.length run.raw := by
      have shifted := cut.partsAt_add before.length 0
      rw [Nat.add_zero] at shifted
      rw [shifted, atStart]
      exact List.mem_map.mpr ⟨inner, isInner, same⟩
    have inFront : part.1 ≤ (before ++ run.raw).length := by
      rw [← same, List.length_append, atStart]
      omega
    rcases cut.partsAt_start before inPart with first | behind
    · rw [first, List.take_left]
      exact settled_no_brace settled
    · rw [← List.append_assoc, List.take_append_of_le_length inFront, behind]
      decide
  -- and between its start and the text there are only blanks.
  obtain ⟨lead, trail, whole, front, -, skipped⟩ := strip_parts part.2
  have start : extent.start = part.1 + lead.length := by
    simp only [trimmed?, skipped, Option.ite_none_left_eq_some] at trimmed
    rw [← Option.some.inj trimmed.2]
  have between : masked.slice part.1 (part.1 + lead.length) = lead := by
    have inside : lead.length ≤ part.2.length := by
      rw [whole]
      simp only [List.length_append]
      omega
    have cut := @slice_slice masked part.1 (part.1 + part.2.length) 0 lead.length (by omega)
    rw [placed, whole, List.append_assoc, slice_append_left (Nat.zero_le _) (Nat.le_refl _), slice_zero_length] at cut
    exact cut.symm
  rw [start, ← take_append_slice masked (Nat.le_add_right part.1 lead.length), between, List.getLast?_append]
  cases last : lead.getLast? with
  | none => exact atStart
  | some c =>
    intro same
    exact blank_ne_brace (front c (List.mem_of_getLast? last)) (Option.some.inj same)

section Template

variable {text : Text} {tiles : List Tile} {runs : List TextRun}

/-- A text that is recorded does not stand behind an opening brace. -/
theorem no_brace_before_text (ordinary : ∀ c ∈ text, isReserved c = false) (h : TilesFrom text text.length 0 tiles)
    (read : textRuns (maskedTiles text tiles) = .ok runs) {part : Nat × Text} (member : part ∈ partsOf runs)
    {extent : Extent} (trimmed : trimmed? part = some extent) : (text.take extent.start).getLast? ≠ some '{' := by
  have inMasked := no_brace_before (wellMarked_maskedTiles ordinary h.tiles_at) read member trimmed
  obtain ⟨content, isTile, lower, upper, -⟩ := part_content ordinary h read member trimmed
  obtain ⟨first, second, rfl⟩ := List.append_of_mem isTile
  obtain ⟨kind, value, here⟩ := h.tiles_at _ isTile
  have bounded := here.bounded
  have forward := (trimmed?_bounds trimmed).2.1
  rcases Nat.eq_zero_or_pos extent.start with zero | positive
  · simp [zero]
  have last (other : Text) (long : extent.start ≤ other.length) :
      (other.take extent.start).getLast? = other[extent.start - 1]? := by
    rw [List.getLast?_take, if_neg (by omega), List.getElem?_eq_getElem (by omega)]
    rfl
  rw [last _ (by have := length_maskedTiles h; omega)] at inMasked
  rw [last _ (by omega)]
  by_cases atStart : extent.start = content.start
  · rw [atStart, brace_before h (by omega)]
    decide
  · have count : content.start + (extent.start - 1 - content.start) = extent.start - 1 := by omega
    rw [getElem?_maskedTiles h rfl (show content.start ≤ extent.start - 1 by omega)
      (show extent.start - 1 < content.stop by omega)] at inMasked
    simp only [maskedTile, Tile.extent] at inMasked
    rwa [getElem?_slice (by omega), count] at inMasked

/-! ### The edits of a template -/

variable {all : Bool}

theorem chosenKey?_iff {written key : Text} :
    chosenKey? all written = some key ↔ unescape written = .ok key ∧ (all || key.hasLetter) = true := by
  unfold chosenKey?
  cases unescape written with
  | error long => simp [Except.toOption]
  | ok found =>
    simp only [Except.toOption, Option.filter_eq_some_iff, Option.some.injEq, Except.ok.injEq]

theorem Stays.notChosen {written key : Text} (h : Stays all written) (isKey : unescape written = .ok key) :
    (all || key.hasLetter) = false := by
  by_contra chosen
  have found := chosenKey?_iff.mpr ⟨isKey, eq_true_of_ne_false chosen⟩
  rw [h.2] at found
  cases found

theorem partEdit?_iff {part : Nat × Text} {edit : Extent × Text} :
    partEdit? all part = some edit ↔ trimmed? part = some edit.1 ∧ chosenKey? all (strip part.2) = some edit.2 := by
  obtain ⟨extent, key⟩ := edit
  simp only [partEdit?, Option.bind_eq_some_iff, Option.map_eq_some_iff, Prod.mk.injEq]
  constructor
  · rintro ⟨_, trimmed, _, chosen, rfl, rfl⟩
    exact ⟨trimmed, chosen⟩
  · rintro ⟨trimmed, chosen⟩
    exact ⟨extent, trimmed, key, chosen, rfl, rfl⟩

theorem partEdits_inOrder {parts : List (Nat × Text)}
    (ordered : (parts.filterMap trimmed?).Pairwise fun first second => first.stop ≤ second.start) :
    (partEdits all parts).Pairwise InOrder := by
  induction parts with
  | nil => exact .nil
  | cons part rest ih =>
    have mono (edit : Extent × Text) (member : edit ∈ partEdits all rest) : edit.1 ∈ rest.filterMap trimmed? := by
      obtain ⟨part, inRest, isEdit⟩ := List.mem_filterMap.mp member
      exact List.mem_filterMap.mpr ⟨part, inRest, (partEdit?_iff.mp isEdit).1⟩
    rw [partEdits, List.filterMap_cons]
    cases trimmed : trimmed? part with
    | none =>
      rw [List.filterMap_cons_none trimmed] at ordered
      have noEdit : partEdit? all part = none := by rw [partEdit?, trimmed, Option.bind_none]
      rw [noEdit]
      exact ih ordered
    | some extent =>
      rw [List.filterMap_cons_some trimmed] at ordered
      obtain ⟨first, later⟩ := List.pairwise_cons.mp ordered
      cases isEdit : partEdit? all part with
      | none => exact ih later
      | some edit =>
        obtain rfl : extent = edit.1 := Option.some.inj (trimmed.symm.trans (partEdit?_iff.mp isEdit).1)
        exact List.pairwise_cons.mpr ⟨fun other member => first _ (mono other member), ih later⟩

/-- The edits of a template are the ranges of its texts that are chosen, with their keys. -/
theorem mem_partEdits (ordinary : ∀ c ∈ text, isReserved c = false) (h : TilesFrom text text.length 0 tiles)
    (read : textRuns (maskedTiles text tiles) = .ok runs) {edit : Extent × Text} :
    edit ∈ partEdits all (partsOf runs) ↔
      edit.1 ∈ textExtents runs ∧ unescape (text.slice edit.1.start edit.1.stop) = .ok edit.2 ∧
        (all || edit.2.hasLetter) = true := by
  have same {part : Nat × Text} (member : part ∈ partsOf runs) (trimmed : trimmed? part = some edit.1) :
      text.slice edit.1.start edit.1.stop = strip part.2 := by
    obtain ⟨-, -, -, -, slice⟩ := part_content ordinary h read member trimmed
    exact slice
  constructor
  · intro member
    obtain ⟨part, inRuns, isEdit⟩ := List.mem_filterMap.mp member
    obtain ⟨trimmed, chosen⟩ := partEdit?_iff.mp isEdit
    rw [same inRuns trimmed]
    exact ⟨List.mem_filterMap.mpr ⟨part, inRuns, trimmed⟩, chosenKey?_iff.mp chosen⟩
  · rintro ⟨member, chosen⟩
    obtain ⟨part, inRuns, trimmed⟩ := List.mem_filterMap.mp member
    rw [same inRuns trimmed] at chosen
    exact List.mem_filterMap.mpr ⟨part, inRuns, partEdit?_iff.mpr ⟨trimmed, chosenKey?_iff.mpr chosen⟩⟩

end Template

end Extract

/-! ### Edits of a theme -/

section Theme

variable {helper : Text} {all : Bool} {analysed : List (Template × Findings)} {template : Template}
  {findings : Findings} {tree : Program Extent} {runs : List TextRun}

theorem Extract.AnalysedFrom.ranges (h : AnalysedFrom helper template findings tree runs) :
    RangesFound template findings (textExtents runs) := by
  have tiles := parse_tilesFrom h.parsed
  refine ⟨h.recorded, textExtents_inOrder h.ordinary tiles h.read, fun extent member => ?_⟩
  obtain ⟨filled, ⟨content, isTile, -, upper⟩, -⟩ := textExtents_content h.ordinary tiles h.read member
  obtain ⟨_, _, placed⟩ := tiles.tiles_at _ isTile
  exact ⟨filled, Nat.le_trans upper placed.bounded⟩

theorem span_inj {text : Text} {extent extent' : Extent} (same : text.span extent = text.span extent') :
    extent = extent' := by
  have start : text.position extent.start = text.position extent'.start := congrArg Span.start same
  have stop : text.position extent.stop = text.position extent'.stop := congrArg Span.stop same
  cases extent
  cases extent'
  exact congrArg₂ Extent.mk (position_inj start) (position_inj stop)

/-- A template has its edits in one order only. -/
theorem EditsOf.unique {texts : Texts} {edits edits' : List (Extent × Text)} (h : EditsOf texts all template edits)
    (h' : EditsOf texts all template edits') : edits = edits' := by
  have subset {edits edits' : List (Extent × Text)} (h : EditsOf texts all template edits)
      (h' : EditsOf texts all template edits') {edit : Extent × Text} (member : edit ∈ edits) : edit ∈ edits' := by
    obtain ⟨extent, here, same⟩ := (h'.recorded edit.2 _).mp ((h.recorded edit.2 _).mpr ⟨edit.1, member, rfl⟩)
    rwa [← span_inj same] at here
  have nodup {edits : List (Extent × Text)} (h : EditsOf texts all template edits) : edits.Nodup := by
    refine h.ordered.imp_of_mem fun {first second} isFirst _ inOrder => ?_
    rintro rfl
    have := (h.inside first isFirst).1
    unfold InOrder at inOrder
    omega
  refine List.Perm.eq_of_pairwise (fun first second isFirst isSecond inOrder reverse => ?_) h.ordered h'.ordered
    ((List.perm_ext_iff_of_nodup (nodup h) (nodup h')).mpr fun edit => ⟨subset h h', subset h' h⟩)
  have := (h.inside first isFirst).1
  have := (h'.inside second isSecond).1
  unfold InOrder at inOrder reverse
  omega

theorem editsOf_parts (each : ∀ pair ∈ analysed, Analysed helper pair.1 pair.2)
    (distinct : (analysed.map fun pair => pair.1.source).Nodup) (member : (template, findings) ∈ analysed)
    (h : AnalysedFrom helper template findings tree runs) :
    EditsOf (textsOf analysed) all template (partEdits all (partsOf runs)) := by
  have tiles := parse_tilesFrom h.parsed
  have edits {edit : Extent × Text} := @mem_partEdits template.text tree.tiles runs all h.ordinary tiles h.read edit
  refine ⟨partEdits_inOrder (textExtents_inOrder h.ordinary tiles h.read),
    fun edit isEdit => h.ranges.inside _ (edits.mp isEdit).1, fun key span => ?_⟩
  rw [isEdit_iff each distinct member h.ranges]
  simp only [edits, mem_rangeEdits each distinct member h.ranges, mem_rangesOf, and_assoc]

end Theme

/-! ### Calls that are put in -/

section Spliced

variable {helper text : Text} {edits : List (Extent × Text)}

theorem helperCall_callsHelper (helper key : Text) : CallsHelper helper (helperCall helper key) := ⟨_, rfl, rfl⟩

theorem helperCall_hasKey {helper key other : Text} : HasKey (helperCall helper key) other ↔ other = key := by
  simp [HasKey, helperCall, eq_comm]

theorem calls_helperMustache (helper key : Text) : (helperMustache helper key).calls = [helperCall helper key] := rfl

theorem listCalls_contentPart (part : Text) : Statement.listCalls (contentPart part) = [] := by
  unfold contentPart
  split <;> rfl

theorem listCalls_spliced (start stop : Nat) :
    Statement.listCalls (splicedContent helper text start stop edits) = edits.map fun edit => helperCall helper edit.2 := by
  induction edits generalizing start with
  | nil => exact listCalls_contentPart _
  | cons edit rest ih =>
    obtain ⟨extent, key⟩ := edit
    rw [splicedContent, Statement.listCalls_append, listCalls_contentPart, List.nil_append, Statement.listCalls, ih,
      calls_helperMustache]
    rfl

theorem splicing_adds : OfContent.Adds (splicing helper text edits) fun extent =>
    (editsIn extent edits).map fun edit => helperCall helper edit.2 := by
  intro extent value written call
  unfold splicing
  split
  · next noEdits => simp [noEdits, Statement.listCalls, Statement.calls]
  · rw [listCalls_spliced]

theorem listMaskable_spliced (start stop : Nat) :
    Statement.ListMaskable (splicedContent helper text start stop edits) := by
  have part (part : Text) : Statement.ListMaskable (contentPart part) := by
    unfold contentPart
    split <;> simp [Statement.ListMaskable, Statement.Maskable]
  induction edits generalizing start with
  | nil => exact part _
  | cons edit rest ih => exact Statement.listMaskable_append.mpr ⟨part _, trivial, ih _⟩

theorem splicing_harmless : OfContent.Harmless (splicing helper text edits) where
  filled extent value written := by
    unfold splicing
    split
    · simp
    · next filled =>
      obtain ⟨⟨first, key⟩, rest, same⟩ := List.exists_cons_of_ne_nil filled
      simp [same, splicedContent]
  maskable extent value written := by
    unfold splicing
    split
    · simp [Statement.ListMaskable, Statement.Maskable]
    · exact listMaskable_spliced _ _

/-- The calls of the helper in a tree with edits put in are its own and those of the edits. -/
theorem calls_edited {tree : Program Extent} {tree' : Program Extent}
    (shape : tree'.shape = tree.edited (splicing helper text edits)) (placed : ∀ edit ∈ edits, InContent tree.tiles edit)
    {call : Call Unit} :
    call ∈ tree'.calls ↔ call ∈ tree.calls ∨ ∃ edit ∈ edits, call = helperCall helper edit.2 := by
  rw [← ProgramOf.calls_shape, shape, ProgramOf.mem_calls_edited splicing_adds]
  refine or_congr_right ⟨?_, ?_⟩
  · rintro ⟨extent, -, added⟩
    obtain ⟨edit, member, rfl⟩ := List.mem_map.mp added
    exact ⟨edit, List.mem_of_mem_filter member, rfl⟩
  · rintro ⟨edit, member, rfl⟩
    obtain ⟨content, isTile, lower, upper⟩ := placed edit member
    exact ⟨content, isTile, List.mem_map.mpr ⟨edit, List.mem_filter.mpr ⟨member, by simp [lower, upper]⟩, rfl⟩⟩

theorem wellUsed_edited {tree tree' : Program Extent}
    (calls : ∀ call, call ∈ tree'.calls ↔ call ∈ tree.calls ∨ ∃ edit ∈ edits, call = helperCall helper edit.2)
    (used : WellUsed helper tree.calls) : WellUsed helper tree'.calls := by
  intro call member isCall
  rcases (calls call).mp member with old | ⟨edit, -, rfl⟩
  · exact used call old isCall
  · exact ⟨edit.2, helperCall_hasKey.mpr rfl⟩

theorem uses_edited {tree tree' : Program Extent}
    (calls : ∀ call, call ∈ tree'.calls ↔ call ∈ tree.calls ∨ ∃ edit ∈ edits, call = helperCall helper edit.2)
    (key : Text) : Uses helper tree'.calls key ↔ Uses helper tree.calls key ∨ ∃ edit ∈ edits, edit.2 = key := by
  unfold Uses
  simp only [calls, or_and_right, exists_or]
  refine or_congr_right ⟨?_, ?_⟩
  · rintro ⟨_, ⟨edit, member, rfl⟩, -, hasKey⟩
    exact ⟨edit, member, (helperCall_hasKey.mp hasKey).symm⟩
  · rintro ⟨edit, member, rfl⟩
    exact ⟨_, ⟨edit, member, rfl⟩, helperCall_callsHelper helper edit.2, helperCall_hasKey.mpr rfl⟩

/-! ### The new text -/

theorem mem_substitute {start stop : Nat} {c : Char} (member : c ∈ Text.substitute text start stop edits) :
    c ∈ text ∨ ∃ edit ∈ edits, c ∈ edit.2 := by
  induction edits generalizing start with
  | nil => exact .inl (slice_subset member)
  | cons edit rest ih =>
    obtain ⟨extent, new⟩ := edit
    rw [Text.substitute, List.append_assoc, List.mem_append, List.mem_append] at member
    rcases member with kept | here | later
    · exact .inl (slice_subset kept)
    · exact .inr ⟨_, List.mem_cons_self, here⟩
    · refine (ih later).imp_right ?_
      rintro ⟨edit, isRest, here⟩
      exact ⟨edit, List.mem_cons_of_mem _ isRest, here⟩

theorem wrap_ordinary {key : Text} (helperOrdinary : ∀ c ∈ helper, isReserved c = false)
    (keyOrdinary : ∀ c ∈ key, isReserved c = false) : ∀ c ∈ wrap helper key, isReserved c = false := by
  have quote : isReserved (quoteFor key) = false := by
    rcases quoteFor_cases key with same | same <;> rw [same] <;> decide
  have escaped : ∀ c ∈ escape (quoteFor key) key, isReserved c = false := by
    intro c member
    obtain ⟨d, isIn, member⟩ := List.mem_flatMap.mp member
    split at member
    · rcases List.mem_cons.mp member with rfl | member
      · decide
      · rw [List.mem_singleton.mp member]
        exact keyOrdinary d isIn
    · rw [List.mem_singleton.mp member]
      exact keyOrdinary d isIn
  intro c member
  simp only [wrap_eq, quoted, List.mem_append, List.mem_cons, List.not_mem_nil, or_false] at member
  rcases member with ((rfl | rfl) | inHelper | rfl | rfl | inKey | rfl) | rfl | rfl
  · decide
  · decide
  · exact helperOrdinary c inHelper
  · decide
  · exact quote
  · exact escaped c inKey
  · exact quote
  · decide
  · decide

end Spliced

/-! ### Reading again -/

theorem isReserved_of_letter {c : Char} (letter : isAsciiLetter c = true) : isReserved c = false := by
  cases reserved : isReserved c with
  | false => rfl
  | true =>
    simp only [isReserved, Bool.or_eq_true, decide_eq_true_eq] at reserved
    rcases reserved with (rfl | rfl) | rfl <;> exact absurd letter (by decide)

theorem endsOpen_masked {text : Text} {tiles : List Tile} (h : TilesFrom text text.length 0 tiles)
    (open_ : EndsOpen (maskedTiles text tiles)) : EndsOpen text := by
  obtain ⟨front, c, whole, letter⟩ := open_
  have long := length_maskedTiles h
  rw [whole, Nat.zero_add, List.length_append] at long
  have bounded : front.length + 2 ≤ text.length := Nat.le_of_eq long
  have place (index : Nat) (lower : front.length ≤ index) :
      (maskedTiles text tiles)[index]? = ['&', c][index - front.length]? := by
    rw [whole, List.getElem?_append_right lower]
  have ordinary (index : Nat) (d : Char) (lower : front.length ≤ index) (_ : index < front.length + 2)
      (here : (maskedTiles text tiles)[index]? = some d) : isReserved d = false := by
    rw [place index lower] at here
    rcases List.mem_cons.mp (List.mem_of_getElem? here) with rfl | last
    · decide
    · rw [List.mem_singleton.mp last]
      exact isReserved_of_letter letter
  have amp : (maskedTiles text tiles)[front.length]? = some '&' := by
    rw [place _ (Nat.le_refl _), Nat.sub_self]
    rfl
  obtain ⟨-, -, -, -, slice⟩ := inside_content h bounded ordinary (Nat.le_refl _) (by omega) amp (by decide)
  have inMasked : (maskedTiles text tiles).slice front.length (front.length + 2) = ['&', c] := by
    have cut := @slice_append_of_length front ['&', c] [] _ (front.length + 2) rfl rfl
    rwa [List.append_nil, ← whole] at cut
  have parts := take_append_slice text (Nat.le_add_right front.length 2)
  rw [← slice, inMasked, show front.length + 2 = text.length from long, List.take_length] at parts
  exact ⟨text.take front.length, c, parts.symm, letter⟩

/-- What a template must be for it to be read in the same way once its texts are in calls of the helper: it holds no
backslash, and neither do the keys of those texts, which hold no reserved characters either; its other texts hold no
construct of their own, and the end of the template is none that the text behind it could change. -/
structure Rereadable (all : Bool) (template : Template) (findings : Findings) : Prop where
  plain : '\\' ∉ template.text
  keys : ∀ key ∈ findings.texts.translatable all, '\\' ∉ key ∧ ∀ c ∈ key, isReserved c = false
  calm : ∀ key places, (key, places) ∈ findings.texts → (all || key.hasLetter) = false → ∀ place ∈ places,
    ∀ written, sourceSlice? template.text.lines place.span = some written → Calm written
  closed : ¬EndsOpen template.text

/-- All texts that were to be put into calls have become keys: none is left, and the keys are those of before and
these texts. -/
structure Extract.Findings.BecomeKeys (all : Bool) (before after : Findings) : Prop where
  left : after.texts.translatable all = []
  keys (key : Text) : key ∈ Members.names after.keys ↔
    key ∈ Members.names before.keys ∨ key ∈ before.texts.translatable all

theorem Extract.Texts.mem_translatable {texts : Texts} {all : Bool} {key : Text} :
    key ∈ texts.translatable all ↔ key ∈ Members.names texts ∧ (all || key.hasLetter) = true := List.mem_filter

section Reread

variable {helper : Text} {all : Bool} {template : Template} {findings : Findings} {tree : Program Extent}
  {runs : List TextRun}

/-- A template without a backslash and without a reference, all of whose texts are put into calls, can be read again. -/
theorem Rereadable.of_texts (plain : '\\' ∉ template.text) (noReference : '&' ∉ template.text)
    (texts : ∀ key ∈ Members.names findings.texts,
      (all || key.hasLetter) = true ∧ '\\' ∉ key ∧ ∀ c ∈ key, isReserved c = false) :
    Rereadable all template findings where
  plain := plain
  keys key isKey := (texts key (Extract.Texts.mem_translatable.mp isKey).1).2
  calm key places isEntry stays := by
    rw [(texts key (List.mem_map_of_mem isEntry)).1] at stays
    cases stays
  closed := by
    rintro ⟨front, c, same, -⟩
    exact noReference (by simp [same])

theorem Extract.Recorded.entry_of {source : String} {text : Text} {extents : List Extent} {texts : Texts}
    (h : Recorded source text extents texts) {extent : Extent} {key : Text} (member : extent ∈ extents)
    (isKey : unescape (text.slice extent.start extent.stop) = .ok key) :
    ∃ places, (key, places) ∈ texts ∧ ⟨source, text.span extent⟩ ∈ places := by
  have here : (⟨source, text.span extent⟩ : Location) ∈ (Members.get? texts key).getD [] := by
    rw [h.places key]
    exact List.mem_map.mpr ⟨extent, mem_rangesOf.mpr ⟨member, isKey⟩, rfl⟩
  cases known : Members.get? texts key with
  | none => simp [known] at here
  | some places =>
    rw [known] at here
    exact ⟨places, Members.mem_of_get? known, here⟩

theorem Extract.AnalysedFrom.part_extent (h : AnalysedFrom helper template findings tree runs) {part : Nat × Text}
    (member : part ∈ partsOf runs) (filled : strip part.2 ≠ []) :
    ∃ extent ∈ textExtents runs, template.text.slice extent.start extent.stop = strip part.2 := by
  obtain ⟨extent, trimmed⟩ : ∃ extent, trimmed? part = some extent := by simp [trimmed?, filled]
  obtain ⟨-, -, -, -, slice⟩ := part_content h.ordinary (parse_tilesFrom h.parsed) h.read member trimmed
  exact ⟨extent, List.mem_filterMap.mpr ⟨part, member, trimmed⟩, slice⟩

theorem Extract.AnalysedFrom.part_keyed (h : AnalysedFrom helper template findings tree runs) {part : Nat × Text}
    (member : part ∈ partsOf runs) (filled : strip part.2 ≠ []) : ∃ key, unescape (strip part.2) = .ok key := by
  obtain ⟨extent, isExtent, slice⟩ := h.part_extent member filled
  rw [← slice]
  exact h.recorded.keyed extent isExtent

theorem Extract.AnalysedFrom.staysCalm (h : AnalysedFrom helper template findings tree runs)
    (rereadable : Rereadable all template findings) : StaysCalm all (partsOf runs) := by
  intro part member stays
  obtain ⟨extent, isExtent, slice⟩ := h.part_extent member stays.1
  obtain ⟨key, isKey⟩ := h.recorded.keyed extent isExtent
  obtain ⟨places, isEntry, isPlace⟩ := h.recorded.entry_of isExtent isKey
  have bounds := h.ranges.inside extent isExtent
  rw [← slice] at stays ⊢
  exact rereadable.calm key places isEntry (stays.notChosen isKey) _ isPlace _
    (sourceSlice?_span (Nat.le_of_lt bounds.1) bounds.2)

/-- The edits of a template are for all of its texts that are to be put into calls. -/
theorem Extract.AnalysedFrom.edits_texts (h : AnalysedFrom helper template findings tree runs) {key : Text} :
    (∃ edit ∈ partEdits all (partsOf runs), edit.2 = key) ↔ key ∈ findings.texts.translatable all := by
  have isEdit {edit : Extent × Text} := @mem_partEdits template.text tree.tiles runs all h.ordinary
    (parse_tilesFrom h.parsed) h.read edit
  rw [Texts.mem_translatable]
  constructor
  · rintro ⟨edit, member, rfl⟩
    obtain ⟨isExtent, isKey, chosen⟩ := isEdit.mp member
    obtain ⟨places, isEntry, -⟩ := h.recorded.entry_of isExtent isKey
    exact ⟨List.mem_map_of_mem isEntry, chosen⟩
  · rintro ⟨member, chosen⟩
    obtain ⟨extent, isExtent, isKey⟩ := h.named key member
    exact ⟨(extent, key), isEdit.mpr ⟨isExtent, isKey, chosen⟩, rfl⟩

/-- A template that is analysed is analysed again once its texts are in calls of the helper. -/
theorem Extract.AnalysedFrom.reread (isName : IsName helper) (helperOrdinary : ∀ c ∈ helper, isReserved c = false)
    (h : AnalysedFrom helper template findings tree runs) (rereadable : Rereadable all template findings) :
    ∃ after found, after.source = template.source ∧
      after.text = template.text.substitute 0 template.text.length
        ((partEdits all (partsOf runs)).map (wrapped helper)) ∧
      Analysed helper after found ∧ findings.BecomeKeys all found := by
  obtain ⟨edits, isEdits⟩ : ∃ edits, partEdits all (partsOf runs) = edits := ⟨_, rfl⟩
  have tiles := parse_tilesFrom h.parsed
  have isEdit {edit : Extent × Text} := @mem_partEdits template.text tree.tiles runs all h.ordinary tiles h.read edit
  have texts {key : Text} := @Extract.AnalysedFrom.edits_texts _ all _ _ _ _ h key
  have ordered := @partEdits_inOrder all _ (textExtents_inOrder h.ordinary tiles h.read)
  have covered := fun (mark : Text → Text) isMarker closed calm =>
    @textRuns_covered mark all isMarker _ _ (wellMarked_maskedTiles h.ordinary tiles.tiles_at) h.read closed calm
  simp only [isEdits] at isEdit texts ordered covered ⊢
  have placed : ∀ edit ∈ edits, InContent tree.tiles edit := fun edit member =>
    (textExtents_content h.ordinary tiles h.read (isEdit.mp member).1).2.1
  have keys : ∀ edit ∈ edits, '\\' ∉ edit.2 ∧ ∀ c ∈ edit.2, isReserved c = false :=
    fun edit member => rereadable.keys _ (texts.mp ⟨edit, member, rfl⟩)
  have spliceable : ∀ edit ∈ edits, Spliceable template.text edit := by
    intro edit member
    obtain ⟨part, inRuns, trimmed⟩ := List.mem_filterMap.mp (isEdit.mp member).1
    exact ⟨(trimmed?_bounds trimmed).2.1, no_brace_before_text h.ordinary tiles h.read inRuns trimmed,
      (keys edit member).1⟩
  obtain ⟨tree', parsed', shape, masked⟩ :=
    parse_spliced h.parsed rereadable.plain isName ordered placed spliceable
  obtain ⟨result, isResult⟩ : ∃ result, template.text.substitute 0 template.text.length (edits.map (wrapped helper)) =
    result := ⟨_, rfl⟩
  rw [isResult] at parsed' masked
  -- The new text in runs,
  obtain ⟨runs', read', remains⟩ := covered (coveredCall helper) (fun key => isMarker_cover (wrap_eq helper key))
    (fun open_ => rereadable.closed (endsOpen_masked tiles open_)) (h.staysCalm rereadable)
  rw [← masked] at read'
  have ordinary' : ∀ c ∈ result, isReserved c = false := by
    intro c member
    rw [← isResult] at member
    rcases mem_substitute member with inText | ⟨_, isWrapped, here⟩
    · exact h.ordinary c inText
    · obtain ⟨edit, isEdit, rfl⟩ := List.mem_map.mp isWrapped
      exact wrap_ordinary helperOrdinary (keys edit isEdit).2 c here
  -- whose texts were there before and were left out,
  have left : ∀ extent ∈ textExtents runs', ∃ key, unescape (result.slice extent.start extent.stop) = .ok key ∧
      (all || key.hasLetter) = false := by
    intro extent isExtent
    obtain ⟨part, inRuns, trimmed⟩ := List.mem_filterMap.mp isExtent
    obtain ⟨-, -, -, -, slice⟩ := part_content ordinary' (parse_tilesFrom parsed') read' inRuns trimmed
    rw [slice]
    rcases remains part inRuns with isBlank | ⟨old, inOld, same, stays⟩
    · simp [trimmed?, isBlank] at trimmed
    · rw [← same] at stays ⊢
      obtain ⟨key, isKey⟩ := h.part_keyed inOld stays.1
      exact ⟨key, isKey, stays.notChosen isKey⟩
  -- and the calls of the new tree, which are the old ones and those put in.
  have calls := fun call => @calls_edited helper template.text edits tree tree' shape placed call
  have maskable : tree'.Maskable := by
    rw [← ProgramOf.maskable_edited OfContent.keep_harmless, ← ProgramOf.shape, shape,
      ProgramOf.maskable_edited splicing_harmless]
    exact h.maskable
  obtain ⟨found, analysed⟩ := @exists_analysed template.source _ helper _ _ parsed' ordinary' maskable read'
    (fun extent member => (left extent member).imp fun _ => And.left) (wellUsed_edited calls h.used)
  have from_ := analysed.reading_of parsed' read'
  refine ⟨⟨template.source, result, tree'.mapRange result.span⟩, found, rfl, isResult.symm, analysed, ?_, fun key => ?_⟩
  · refine List.filter_eq_nil_iff.mpr fun key member chosen => ?_
    obtain ⟨extent, isExtent, isKey⟩ := from_.named key member
    obtain ⟨key', isKey', notChosen⟩ := left extent isExtent
    obtain rfl := Except.ok.inj (isKey.symm.trans isKey')
    rw [notChosen] at chosen
    cases chosen
  · rw [from_.keys, uses_edited calls, h.keys, texts]

end Reread

end Phrasebook
