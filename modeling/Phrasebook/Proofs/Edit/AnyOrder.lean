import Phrasebook.Proofs.Edit.Substitution

/-!
# Edits in any order

A change set is made from edits in any order. `ofEdits_anyOrder` shows that the order says nothing: spans
that stand apart are replaced all at once, and of the edits that reach over several lines the last one in
the text is complained about.
-/

namespace Phrasebook

namespace Position

theorem eq_of_not_lt {p q : Position} (notLess : ¬p < q) (notGreater : ¬q < p) : p = q := by
  obtain ⟨line, column⟩ := p
  obtain ⟨line', column'⟩ := q
  rw [lt_iff] at notLess notGreater
  simp only at notLess notGreater
  rw [Position.mk.injEq]
  omega

theorem le_of_not_lt {p q : Position} (notLess : ¬q < p) : p ≤ q := by
  by_cases less : p < q
  · exact .inl less
  · exact .inr (eq_of_not_lt less notLess)

end Position

open Text

/-- A span of a text: both its ends are positions on lines of the text, the end not in front of the start. -/
structure Span.InRange (text : Text) (span : Span) : Prop where
  start : text.Holds span.start
  stop : text.Holds span.stop
  forward : ¬span.stop < span.start

/-- The range of a text that an edit replaces, with the new text. -/
def Edit.range (text : Text) (edit : Edit) : Extent × Text :=
  (⟨(text.offset edit.span.start).toNat, (text.offset edit.span.stop).toNat⟩, edit.text)

theorem Text.position_offset {text : Text} {place : Position} (holds : text.Holds place) :
    text.position (text.offset place).toNat = place ∧ (text.offset place).toNat ≤ text.length := by
  obtain ⟨offset, bounded, rfl⟩ := exists_offset holds
  rw [offset_position, Int.toNat_natCast]
  exact ⟨rfl, bounded⟩

theorem Text.offset_le_iff {text : Text} {first second : Position} (isFirst : text.Holds first)
    (isSecond : text.Holds second) :
    (text.offset first).toNat ≤ (text.offset second).toNat ↔ first ≤ second := by
  rw [← @position_le_iff text, (position_offset isFirst).1, (position_offset isSecond).1]

theorem Text.offset_lt_iff {text : Text} {first second : Position} (isFirst : text.Holds first)
    (isSecond : text.Holds second) :
    (text.offset first).toNat < (text.offset second).toNat ↔ first < second := by
  rw [← position_lt_iff text, (position_offset isFirst).1, (position_offset isSecond).1]

/-- Every range of a text is a span of it. -/
theorem Span.inRange_span {text : Text} {extent : Extent} (forward : extent.start ≤ extent.stop)
    (bounded : extent.stop ≤ text.length) : (text.span extent).InRange text where
  start := holds_position (Nat.le_trans forward bounded)
  stop := holds_position bounded
  forward := by
    rw [span_start, span_stop, position_lt_iff]
    omega

namespace ChangeSet

variable {text : Text} {edits : List Edit}

/-! ### Edits that stand apart -/

theorem editOf_range {edit : Edit} (inRange : edit.span.InRange text) :
    editOf text (edit.range text) = edit := by
  obtain ⟨new, start, stop⟩ := edit
  have atStart := (position_offset inRange.start).1
  have atStop := (position_offset inRange.stop).1
  simp only at atStart atStop
  rw [editOf, Edit.range, Text.span, atStart, atStop]

theorem map_editOf_range (inRange : ∀ edit ∈ edits, edit.span.InRange text) :
    (edits.map (Edit.range text)).map (editOf text) = edits := by
  rw [List.map_map]
  exact (List.map_congr_left fun edit isEdit => editOf_range (inRange edit isEdit)).trans (List.map_id edits)

theorem span_range {edit : Edit} (inRange : edit.span.InRange text) :
    text.span (edit.range text).1 = edit.span :=
  congrArg Edit.span (editOf_range inRange)

/-- Two edits share no character. -/
def Separate (first second : Edit) : Prop :=
  first.span.stop ≤ second.span.start ∨ second.span.stop ≤ first.span.start

instance (first second : Edit) : Decidable (Separate first second) :=
  inferInstanceAs (Decidable (first.span.stop ≤ second.span.start ∨ second.span.stop ≤ first.span.start))

theorem ranges_apart (inRange : ∀ edit ∈ edits, edit.span.InRange text) (separate : edits.Pairwise Separate) :
    (edits.map (Edit.range text)).Pairwise Apart := by
  rw [List.pairwise_map]
  refine separate.imp_of_mem fun {first second} isFirst isSecond apart => ?_
  have one := inRange first isFirst
  have other := inRange second isSecond
  rcases apart with before | behind
  · exact .inl ((offset_le_iff one.stop other.start).mpr before)
  · exact .inr ((offset_le_iff other.stop one.start).mpr behind)

/-- Edits of one line each that stand apart are applied all at once, whatever their order. -/
theorem apply_separate (source : String) (helper : Text) (inRange : ∀ edit ∈ edits, edit.span.InRange text)
    (separate : edits.Pairwise Separate)
    (lone : ∀ edit ∈ edits, edit.span.start < edit.span.stop ∧ edit.span.isSingleLine = true) :
    ∃ ranges : List (Extent × Text), ranges.Perm (edits.map (Edit.range text)) ∧ ranges.Pairwise InOrder ∧
      ∀ other : List Edit, other.Perm edits → (ofEdits source other).apply helper text =
        .ok (text.substitute 0 text.length (ranges.map (wrapped helper))) := by
  have inside : ∀ range ∈ edits.map (Edit.range text), range.1.start < range.1.stop ∧ range.1.stop ≤ text.length := by
    intro range isRange
    obtain ⟨edit, isEdit, rfl⟩ := List.mem_map.mp isRange
    have here := inRange edit isEdit
    exact ⟨(offset_lt_iff here.start here.stop).mpr (lone edit isEdit).1, (position_offset here.stop).2⟩
  obtain ⟨ranges, perm, ordered⟩ :=
    exists_sorted (fun range isRange => (inside range isRange).1) (ranges_apart inRange separate)
  refine ⟨ranges, perm, ordered, fun other permuted => ?_⟩
  have same : (other.map (Edit.range text)).Perm (edits.map (Edit.range text)) := permuted.map _
  have run := apply_ofEdits source helper (fun range isRange => inside range (same.mem_iff.mp isRange))
    (perm.trans same.symm) ordered
  rw [map_editOf_range fun edit isEdit => inRange edit (permuted.mem_iff.mp isEdit)] at run
  rcases run with ⟨-, applied⟩ | ⟨range, isRange, newline, -⟩
  · exact applied
  · obtain ⟨edit, isEdit, rfl⟩ := List.mem_map.mp (same.mem_iff.mp isRange)
    have forward := Nat.le_of_lt (inside _ (same.mem_iff.mp isRange)).1
    have single := (lone edit isEdit).2
    rw [← span_range (inRange edit isEdit)] at single
    exact absurd newline ((isSingleLine_span forward (inside _ (same.mem_iff.mp isRange)).2).mp single)

/-! ### Edits of several lines -/

/-- An edit of one line keeps the number of lines. -/
theorem applyEdit_length (source : String) (helper : Text) {edit : Edit} (inRange : edit.span.InRange text)
    (single : edit.span.isSingleLine = true) {lines : List Text} (length : lines.length = text.lines.length) :
    ∃ lines', applyEdit source helper lines edit = .ok lines' ∧ lines'.length = text.lines.length := by
  obtain ⟨row, line, isLine, isRow, -, -⟩ := inRange.start
  obtain ⟨inside, -⟩ := List.getElem?_eq_some_iff.mp isLine
  have found : index? lines.length (edit.span.start.line - 1) = some row := by
    rw [isRow, Int.add_sub_cancel, length, index?_natCast inside]
  unfold applyEdit
  simp only [if_pos single, found]
  refine ⟨_, rfl, ?_⟩
  rw [List.length_set, length]

theorem applyEdits_length (source : String) (helper : Text) (inRange : ∀ edit ∈ edits, edit.span.InRange text)
    (single : ∀ edit ∈ edits, edit.span.isSingleLine = true) {lines : List Text}
    (length : lines.length = text.lines.length) :
    ∃ lines', edits.foldlM (applyEdit source helper) lines = .ok lines' ∧ lines'.length = text.lines.length := by
  induction edits generalizing lines with
  | nil => exact ⟨lines, rfl, length⟩
  | cons edit rest ih =>
    obtain ⟨here, later⟩ := List.forall_mem_cons.mp inRange
    obtain ⟨singleHere, singleLater⟩ := List.forall_mem_cons.mp single
    obtain ⟨lines', applied, length'⟩ := applyEdit_length source helper here singleHere length
    rw [List.foldlM_cons, applied]
    exact ih later singleLater length'

/-- Of the edits of several lines the last one in the text is complained about. -/
theorem apply_multiline (source : String) (helper : Text) (inRange : ∀ edit ∈ edits, edit.span.InRange text)
    (distinct : (edits.map fun edit => edit.span.start).Nodup) {edit : Edit} (isEdit : edit ∈ edits)
    (several : edit.span.isSingleLine = false)
    (last : ∀ other ∈ edits, other.span.isSingleLine = false → ¬edit.span.start < other.span.start) :
    (ofEdits source edits).apply helper text =
      .error (.violation ⟨.multilineEdit, .ofPosition (some source) edit.span.start⟩) := by
  obtain ⟨perm, descending⟩ := ofEdits_descending source edits
  obtain ⟨front, behind, parts⟩ := List.append_of_mem (perm.mem_iff.mpr isEdit)
  have member {other : Edit} (isFront : other ∈ front) : other ∈ edits :=
    perm.mem_iff.mp (by rw [parts]; exact List.mem_append_left _ isFront)
  -- What comes first starts later, so it lies on one line each.
  have single : ∀ other ∈ front, other.span.isSingleLine = true := by
    intro other isFront
    by_contra notSingle
    rw [parts] at descending perm
    have notBefore := (List.pairwise_append.mp descending).2.2 other isFront edit List.mem_cons_self
    have same := Position.eq_of_not_lt notBefore (last other (member isFront) (by simpa using notSingle))
    have starts := (perm.map fun edit => edit.span.start).nodup_iff.mpr distinct
    rw [List.map_append, List.map_cons] at starts
    exact (List.nodup_append.mp starts).2.2 _ (List.mem_map_of_mem isFront) _ List.mem_cons_self same
  obtain ⟨lines, applied, -⟩ := applyEdits_length source helper
    (fun other isFront => inRange other (member isFront)) single rfl
  have set : (ofEdits source edits).source = source := rfl
  rw [apply, set, parts, List.foldlM_append, applied]
  have refused : applyEdit source helper lines edit =
      .error (.violation ⟨.multilineEdit, .ofPosition (some source) edit.span.start⟩) := by
    unfold applyEdit
    simp only [several, Bool.false_eq_true, if_false]
  simp only [bind, Except.bind, List.foldlM_cons, refused]

theorem exists_last {edit : Edit} (isEdit : edit ∈ edits) (several : edit.span.isSingleLine = false) :
    ∃ last ∈ edits, last.span.isSingleLine = false ∧
      ∀ other ∈ edits, other.span.isSingleLine = false → ¬last.span.start < other.span.start := by
  obtain ⟨perm, descending⟩ := ofEdits_descending "" edits
  cases found : (ofEdits "" edits).edits.find? fun edit => !edit.span.isSingleLine with
  | none =>
    have single := List.find?_eq_none.mp found edit (perm.mem_iff.mpr isEdit)
    simp [several] at single
  | some last =>
    obtain ⟨isSeveral, front, behind, parts, single⟩ := List.find?_eq_some_iff_append.mp found
    refine ⟨last, perm.mem_iff.mp (List.mem_of_find?_eq_some found), by simpa using isSeveral, ?_⟩
    intro other isOther otherSeveral
    rw [← perm.mem_iff, parts] at isOther
    rw [parts] at descending
    rcases List.mem_append.mp isOther with isFront | isBehind
    · have := single other isFront
      simp [otherSeveral] at this
    rcases List.mem_cons.mp isBehind with rfl | isBehind
    · exact Position.lt_irrefl _
    · exact (List.pairwise_cons.mp (List.pairwise_append.mp descending).2.1).1 other isBehind

/-- The order in which edits are given says nothing. If their spans stand apart and lie on one line each,
they are all replaced at once. If an edit lies on several lines, the last such edit of the text is
complained about. -/
theorem ofEdits_anyOrder (source : String) (helper : Text) (inRange : ∀ edit ∈ edits, edit.span.InRange text) :
    (edits.Pairwise Separate →
      (∀ edit ∈ edits, edit.span.start < edit.span.stop ∧ edit.span.isSingleLine = true) →
      ∃ ranges : List (Extent × Text), ranges.Perm (edits.map (Edit.range text)) ∧ ranges.Pairwise InOrder ∧
        ∀ other : List Edit, other.Perm edits → (ofEdits source other).apply helper text =
          .ok (text.substitute 0 text.length (ranges.map (wrapped helper)))) ∧
    ((edits.map fun edit => edit.span.start).Nodup → (∃ edit ∈ edits, edit.span.isSingleLine = false) →
      ∃ last ∈ edits, last.span.isSingleLine = false ∧
        (∀ edit ∈ edits, edit.span.isSingleLine = false → edit.span.start ≤ last.span.start) ∧
        ∀ other : List Edit, other.Perm edits → (ofEdits source other).apply helper text =
          .error (.violation ⟨.multilineEdit, .ofPosition (some source) last.span.start⟩)) := by
  refine ⟨apply_separate source helper inRange, ?_⟩
  rintro distinct ⟨edit, isEdit, several⟩
  obtain ⟨last, isLast, lastSeveral, behind⟩ := exists_last isEdit several
  refine ⟨last, isLast, lastSeveral, ?_, ?_⟩
  · intro other isOther otherSeveral
    exact Position.le_of_not_lt (behind other isOther otherSeveral)
  · intro other perm
    exact apply_multiline source helper (fun edit isEdit => inRange edit (perm.mem_iff.mp isEdit))
      ((perm.map _).nodup_iff.mpr distinct) (perm.mem_iff.mpr isLast) lastSeveral
      fun edit isEdit => behind edit (perm.mem_iff.mp isEdit)

/-- Two edits that touch and one on the next line, and two edits of several lines that overlap. -/
theorem ofEdits_anyOrder_touching :
    ∃ (text : Text) (you hi again across all : Edit), text = "Hi you\nHi".toList ∧
      [you, hi, again].map Edit.span = [⟨⟨1, 3⟩, ⟨1, 6⟩⟩, ⟨⟨1, 0⟩, ⟨1, 3⟩⟩, ⟨⟨2, 0⟩, ⟨2, 2⟩⟩] ∧
      [across, all].map Edit.span = [⟨⟨1, 1⟩, ⟨2, 1⟩⟩, ⟨⟨1, 0⟩, ⟨2, 2⟩⟩] ∧
      (∀ edit ∈ [you, hi, again, across, all], edit.span.InRange text) ∧
      (∃ ranges : List (Extent × Text), ranges.Perm ([you, hi, again].map (Edit.range text)) ∧
        ranges.Pairwise InOrder ∧ ∀ other : List Edit, other.Perm [you, hi, again] →
          (ofEdits "a" other).apply ['t'] text =
            .ok (text.substitute 0 text.length (ranges.map (wrapped ['t'])))) ∧
      ∀ other : List Edit, other.Perm [again, across, all] → (ofEdits "a" other).apply ['t'] text =
        .error (.violation ⟨.multilineEdit, .ofPosition (some "a") ⟨1, 1⟩⟩) := by
  obtain ⟨text, isText⟩ : ∃ text : Text, "Hi you\nHi".toList = text := ⟨_, rfl⟩
  have spans : text.length = 9 ∧ [(3, 6), (0, 3), (7, 9), (1, 8), (0, 9)].map
      (fun ends : Nat × Nat => text.span ⟨ends.1, ends.2⟩) = [⟨⟨1, 3⟩, ⟨1, 6⟩⟩, ⟨⟨1, 0⟩, ⟨1, 3⟩⟩,
        ⟨⟨2, 0⟩, ⟨2, 2⟩⟩, ⟨⟨1, 1⟩, ⟨2, 1⟩⟩, ⟨⟨1, 0⟩, ⟨2, 2⟩⟩] := by
    rw [← isText]
    decide +kernel
  obtain ⟨length, spans⟩ := spans
  have isSpan (start stop : Nat) (forward : start ≤ stop) (bounded : stop ≤ 9) :
      (text.span ⟨start, stop⟩).InRange text := Span.inRange_span forward (by rw [length]; exact bounded)
  simp only [List.map_cons, List.map_nil, List.cons.injEq, and_true] at spans
  obtain ⟨you, hi, again, across, all⟩ := spans
  have inRange : ∀ edit ∈ [(⟨"you".toList, ⟨⟨1, 3⟩, ⟨1, 6⟩⟩⟩ : Edit), ⟨"Hi ".toList, ⟨⟨1, 0⟩, ⟨1, 3⟩⟩⟩,
      ⟨"Hi".toList, ⟨⟨2, 0⟩, ⟨2, 2⟩⟩⟩, ⟨"over".toList, ⟨⟨1, 1⟩, ⟨2, 1⟩⟩⟩, ⟨"all".toList, ⟨⟨1, 0⟩, ⟨2, 2⟩⟩⟩],
      edit.span.InRange text := by
    simp only [List.forall_mem_cons]
    exact ⟨you ▸ isSpan 3 6 (by omega) (by omega), hi ▸ isSpan 0 3 (by omega) (by omega),
      again ▸ isSpan 7 9 (by omega) (by omega), across ▸ isSpan 1 8 (by omega) (by omega),
      all ▸ isSpan 0 9 (by omega) (by omega), List.forall_mem_nil _⟩
  have inFirst : ∀ edit ∈ [(⟨"you".toList, ⟨⟨1, 3⟩, ⟨1, 6⟩⟩⟩ : Edit), ⟨"Hi ".toList, ⟨⟨1, 0⟩, ⟨1, 3⟩⟩⟩,
      ⟨"Hi".toList, ⟨⟨2, 0⟩, ⟨2, 2⟩⟩⟩], edit.span.InRange text :=
    fun edit isEdit => inRange edit (List.mem_append_left [_, _] isEdit)
  have inLast : ∀ edit ∈ [(⟨"Hi".toList, ⟨⟨2, 0⟩, ⟨2, 2⟩⟩⟩ : Edit), ⟨"over".toList, ⟨⟨1, 1⟩, ⟨2, 1⟩⟩⟩,
      ⟨"all".toList, ⟨⟨1, 0⟩, ⟨2, 2⟩⟩⟩], edit.span.InRange text :=
    fun edit isEdit => inRange edit (List.mem_append_right [_, _] isEdit)
  have apart := (ofEdits_anyOrder "a" ['t'] inFirst).1 (by decide) (by decide)
  obtain ⟨last, isLast, several, behind, complaint⟩ := (ofEdits_anyOrder "a" ['t'] inLast).2 (by decide)
    ⟨_, List.mem_cons_of_mem _ List.mem_cons_self, by decide⟩
  refine ⟨text, _, _, _, _, _, isText.symm, rfl, rfl, inRange, apart, ?_⟩
  have first := behind _ (List.mem_cons_of_mem _ List.mem_cons_self) (by decide)
  simp only [List.mem_cons, List.not_mem_nil, or_false] at isLast
  rcases isLast with rfl | rfl | rfl
  · exact absurd several (by decide)
  · exact complaint
  · exact absurd first (by decide)

end ChangeSet

end Phrasebook
