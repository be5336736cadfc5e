import Phrasebook.Edit
import Phrasebook.Proofs.Template.Call
import Phrasebook.Proofs.Text.Lines
import Mathlib.Data.List.Pairwise

/-!
# Edits as substitution

`ChangeSet.apply` splices edits into lines one by one, the last one in the text first.
`ChangeSet.apply_ofEdits` shows that ranges which stand apart are all replaced at once, by
`Text.substitute`, and that the only fault is a range with a newline in it.
-/

namespace Phrasebook

namespace Text

/-- The text from `start` up to `stop` with ranges replaced by new texts. The ranges stand one behind
the other. -/
def substitute (text : Text) (start stop : Nat) : List (Extent × Text) → Text
  | [] => text.slice start stop
  | (extent, new) :: rest =>
    text.slice start extent.start ++ new ++ substitute text extent.stop stop rest

theorem substitute_concat (text : Text) (start stop : Nat) (edits : List (Extent × Text))
    (extent : Extent) (new : Text) :
    substitute text start stop (edits ++ [(extent, new)]) =
      substitute text start extent.start edits ++ new ++ text.slice extent.stop stop := by
  induction edits generalizing start with
  | nil => rfl
  | cons edit rest ih => simp only [List.cons_append, substitute, ih, List.append_assoc]

/-- Ranges up to a place are replaced in front of it, and ranges from it on behind it. -/
theorem substitute_append (text : Text) {start middle stop : Nat} {edits later : List (Extent × Text)}
    (first : start ≤ middle) (second : middle ≤ stop) (before : ∀ edit ∈ edits, edit.1.stop ≤ middle)
    (behind : ∀ edit ∈ later, middle ≤ edit.1.start) :
    substitute text start stop (edits ++ later) =
      substitute text start middle edits ++ substitute text middle stop later := by
  induction edits generalizing start with
  | nil =>
    cases later with
    | nil => exact (slice_append_slice text first second).symm
    | cons edit later =>
      have cut := slice_append_slice text first (behind edit List.mem_cons_self)
      simp only [List.nil_append, substitute, ← cut, List.append_assoc]
  | cons edit edits ih =>
    have rest := ih (before edit List.mem_cons_self)
      (fun other member => before other (List.mem_cons_of_mem _ member))
    simp only [List.cons_append, substitute, rest, List.append_assoc]

/-- What stands in front of all ranges stays as it is. -/
theorem substitute_skip (text : Text) {start middle stop : Nat} {edits : List (Extent × Text)} (first : start ≤ middle)
    (second : middle ≤ stop) (behind : ∀ edit ∈ edits, middle ≤ edit.1.start) :
    substitute text start stop edits = text.slice start middle ++ substitute text middle stop edits := by
  have cut := @substitute_append text start middle stop [] edits first second (by simp) behind
  rwa [List.nil_append, substitute] at cut

/-- A stretch that no range reaches stays as it is. -/
theorem substitute_stretch (text : Text) {start middle reached stop : Nat} {edits later : List (Extent × Text)}
    (first : start ≤ middle) (second : middle ≤ reached) (third : reached ≤ stop)
    (before : ∀ edit ∈ edits, edit.1.stop ≤ middle) (behind : ∀ edit ∈ later, reached ≤ edit.1.start) :
    substitute text start stop (edits ++ later) =
      substitute text start middle edits ++ (text.slice middle reached ++ substitute text reached stop later) := by
  rw [substitute_append text first (Nat.le_trans second third) before
    fun edit member => Nat.le_trans second (behind edit member), substitute_skip text second third behind]

theorem lines_eq_singleton {text : Text} (plain : '\n' ∉ text) : text.lines = [text] := by
  induction text with
  | nil => rfl
  | cons c rest ih =>
    obtain ⟨notHere, notLater⟩ := not_or.mp (fun h => plain (List.mem_cons.mpr h))
    exact lines_cons (fun h => notHere h.symm) (ih notLater)

theorem ofLines_join (lines later : List Text) (line right : Text) :
    ofLines (lines ++ (line ++ right) :: later) =
      ofLines (lines ++ [line]) ++ ofLines (right :: later) := by
  induction lines with
  | nil =>
    cases later with
    | nil => simp [ofLines_singleton]
    | cons next later =>
      simp only [List.nil_append, ofLines_cons_cons, ofLines_singleton, List.append_assoc]
  | cons first rest ih =>
    have unfold_cons : ∀ (tail : List Text), tail ≠ [] →
        ofLines (first :: tail) = first ++ '\n' :: ofLines tail := by
      intro tail notEmpty
      obtain ⟨next, others, rfl⟩ := List.exists_cons_of_ne_nil notEmpty
      exact ofLines_cons_cons first next others
    rw [List.cons_append, List.cons_append, unfold_cons _ (by simp), unfold_cons _ (by simp), ih]
    simp

theorem isSingleLine_span {text : Text} {extent : Extent} (forward : extent.start ≤ extent.stop)
    (bounded : extent.stop ≤ text.length) :
    (text.span extent).isSingleLine = true ↔ '\n' ∉ text.slice extent.start extent.stop := by
  obtain ⟨earlier, left, lines, last, -, -, -, hm, start, stop⟩ := exists_span_lines forward bounded
  have same : (text.span extent).isSingleLine = true ↔ lines = [] := by
    rw [Span.isSingleLine, span_start, span_stop, start, stop, beq_iff_eq]
    simp only
    rw [← List.length_eq_zero_iff]
    omega
  rw [same]
  constructor
  · rintro rfl
    have whole := ofLines_lines (text.slice extent.start extent.stop)
    rw [hm, List.nil_append, ofLines_singleton] at whole
    rw [← whole]
    exact not_mem_of_mem_lines (by rw [hm]; exact List.mem_singleton_self last)
  · intro plain
    rw [lines_eq_singleton plain] at hm
    exact (List.append_eq_singleton_iff.mp hm.symm).elim (·.1) (fun h => by simp at h)

/-- Lines under edit: up to the end of `before` they are as in the text, and what follows reads
`after`. A line may hold newlines once a text with a newline was put in. -/
def LinesOf (before after : Text) (lines : List Text) : Prop :=
  ∃ earlier last right later, before.lines = earlier ++ [last] ∧
    lines = earlier ++ (last ++ right) :: later ∧ ofLines (right :: later) = after

theorem LinesOf.of_lines (before after : Text) : LinesOf before after (before ++ after).lines := by
  obtain ⟨earlier, last, hb⟩ := exists_last_line before
  obtain ⟨right, later, ha⟩ := exists_first_line after
  exact ⟨earlier, last, right, later, hb, lines_append hb ha, ha ▸ ofLines_lines after⟩

theorem LinesOf.text {before after : Text} {lines : List Text} (h : LinesOf before after lines) :
    ofLines lines = before ++ after := by
  obtain ⟨earlier, last, right, later, hb, rfl, rfl⟩ := h
  rw [ofLines_join, ← hb, ofLines_lines]

theorem LinesOf.shrink {before middle after : Text} {lines : List Text}
    (h : LinesOf (before ++ middle) after lines) : LinesOf before (middle ++ after) lines := by
  obtain ⟨front, line, right, later, whole, rfl, rfl⟩ := h
  obtain ⟨earlier, last, hb⟩ := exists_last_line before
  obtain ⟨first, rest, hm⟩ := exists_first_line middle
  rw [lines_append hb hm] at whole
  have text := ofLines_lines middle
  rw [hm] at text
  rcases List.eq_nil_or_concat rest with rfl | ⟨between, final, rfl⟩
  · obtain ⟨rfl, same⟩ := List.append_inj' whole rfl
    obtain rfl := (List.cons.inj same).1
    refine ⟨earlier, last, first ++ right, later, hb, by simp, ?_⟩
    have joined := ofLines_join [] later first right
    simpa [text] using joined
  · rw [List.concat_eq_append, ← List.cons_append, ← List.append_assoc] at whole
    obtain ⟨rfl, same⟩ := List.append_inj' whole rfl
    obtain rfl := (List.cons.inj same).1
    refine ⟨earlier, last, first, between ++ (final ++ right) :: later, hb, by simp, ?_⟩
    have joined := ofLines_join (first :: between) later final right
    rw [List.concat_eq_append] at text
    simpa [text] using joined

end Text

/-! ### One edit -/

namespace ChangeSet

open Text

/-- The edit that puts a text in the place of a range. -/
def editOf (text : Text) (edit : Extent × Text) : Edit := ⟨edit.2, text.span edit.1⟩

/-- The complaint about an edit of several lines. -/
def multiline (source : String) (text : Text) (extent : Extent) : EditFault :=
  .violation ⟨.multilineEdit, .ofPosition (some source) (text.position extent.start)⟩

theorem applyEdit_multiline (source : String) (helper : Text) {text : Text} (lines : List Text)
    {edit : Extent × Text} (forward : edit.1.start ≤ edit.1.stop) (bounded : edit.1.stop ≤ text.length)
    (newline : '\n' ∈ text.slice edit.1.start edit.1.stop) :
    applyEdit source helper lines (editOf text edit) = .error (multiline source text edit.1) := by
  have several : ¬(text.span edit.1).isSingleLine = true := by
    rw [isSingleLine_span forward bounded]
    exact fun plain => plain newline
  unfold applyEdit
  rw [editOf, if_neg several]
  rfl

theorem applyEdit_single (source : String) (helper : Text) {text after : Text} {lines : List Text}
    {edit : Extent × Text} {reached : Nat} (forward : edit.1.start ≤ edit.1.stop)
    (inOrder : edit.1.stop ≤ reached) (bounded : reached ≤ text.length)
    (plain : '\n' ∉ text.slice edit.1.start edit.1.stop) (h : LinesOf (text.take reached) after lines) :
    ∃ lines', applyEdit source helper lines (editOf text edit) = .ok lines' ∧
      LinesOf (text.take edit.1.start)
        (wrap helper edit.2 ++ (text.slice edit.1.stop reached ++ after)) lines' := by
  obtain ⟨⟨start, stop⟩, new⟩ := edit
  simp only at forward inOrder plain ⊢
  have single : (text.span ⟨start, stop⟩).isSingleLine = true :=
    (isSingleLine_span forward (Nat.le_trans inOrder bounded)).mpr plain
  -- The line of the range, with the lines in front of it as in the text.
  have upTo : text.take reached =
      text.take start ++ (text.slice start stop ++ text.slice stop reached) := by
    rw [← List.append_assoc, take_append_slice text forward, take_append_slice text inOrder]
  rw [upTo] at h
  obtain ⟨earlier, last, hb⟩ := exists_last_line (text.take start)
  have middle : (text.slice start stop).lines = [] ++ [text.slice start stop] :=
    lines_eq_singleton plain
  have joined := lines_append hb middle
  rw [← List.append_assoc] at h
  obtain ⟨front, line, right, later, whole, rfl, rest⟩ := h.shrink
  rw [joined] at whole
  obtain ⟨rfl, same⟩ := List.append_inj' whole rfl
  obtain rfl := (List.cons.inj same).1
  have places : (text.span ⟨start, stop⟩).start = ⟨earlier.length + 1, last.length⟩ ∧
      (text.span ⟨start, stop⟩).stop.column = (last.length + (text.slice start stop).length : Nat) := by
    have atStart := position_parts_start hb (text.slice start stop) (text.drop stop)
    have atStop := position_parts_stop hb middle (text.drop stop)
    have before : (text.take start).length = start := by simp; omega
    have reach : start + (stop - start) = stop := by omega
    rw [take_slice_drop text forward, before] at atStart atStop
    rw [length_slice text (Nat.le_trans inOrder bounded), reach] at atStop
    rw [span_start, span_stop, atStart, atStop, length_slice text (Nat.le_trans inOrder bounded)]
    simp
  have row : index? (earlier ++ (last ++ text.slice start stop ++ right) :: later).length
      ((earlier.length : Int) + 1 - 1) = some earlier.length := by
    rw [Int.add_sub_cancel, index?_natCast (by simp)]
  refine ⟨earlier ++ (last ++ (wrap helper new ++ right)) :: later, ?_,
    earlier, last, wrap helper new ++ right, later, hb, rfl, ?_⟩
  · unfold applyEdit
    simp only [editOf, if_pos single, places.1, row, places.2, takeTo_natCast, dropTo_natCast]
    simp [List.getD, List.drop_append]
  · have joined := ofLines_join [] later (wrap helper new) right
    rw [List.nil_append, List.nil_append, ofLines_singleton, rest] at joined
    exact joined

/-! ### Edits in turn -/

/-- Ranges in the order of the text. -/
def InOrder (first second : Extent × Text) : Prop := first.1.stop ≤ second.1.start

/-- The replacement of an edit: a call of the helper with its text. -/
def wrapped (helper : Text) (edit : Extent × Text) : Extent × Text := (edit.1, wrap helper edit.2)

/-- The replacement of an edit by what stands for its text. -/
def marked (mark : Text → Text) (edit : Extent × Text) : Extent × Text := (edit.1, mark edit.2)

theorem applyEdits (source : String) (helper : Text) {text : Text} (edits : List (Extent × Text))
    (ordered : edits.Pairwise InOrder) (forward : ∀ edit ∈ edits, edit.1.start ≤ edit.1.stop)
    {after : Text} {lines : List Text} {reached : Nat} (bounded : reached ≤ text.length)
    (below : ∀ edit ∈ edits, edit.1.stop ≤ reached) (h : LinesOf (text.take reached) after lines) :
    ((∀ edit ∈ edits, '\n' ∉ text.slice edit.1.start edit.1.stop) ∧
      ∃ lines', ((edits.map (editOf text)).reverse.foldlM (applyEdit source helper) lines) =
          .ok lines' ∧
        ofLines lines' = substitute text 0 reached (edits.map (wrapped helper)) ++ after) ∨
    ∃ edit ∈ edits, '\n' ∈ text.slice edit.1.start edit.1.stop ∧
      (edits.map (editOf text)).reverse.foldlM (applyEdit source helper) lines =
        .error (multiline source text edit.1) := by
  -- The last range comes first; what stands behind it goes over into `after`.
  induction edits using List.reverseRecOn generalizing after lines reached with
  | nil =>
    refine .inl ⟨by simp, lines, rfl, ?_⟩
    rw [h.text]
    simp [substitute, slice]
  | append_singleton edits edit ih =>
    have last : edit ∈ edits ++ [edit] := by simp
    have inside := Nat.le_trans (below edit last) bounded
    rw [List.map_append, List.map_singleton, List.reverse_concat, List.foldlM_cons]
    by_cases newline : '\n' ∈ text.slice edit.1.start edit.1.stop
    · refine .inr ⟨edit, last, newline, ?_⟩
      rw [applyEdit_multiline source helper lines (forward edit last) inside newline]
      rfl
    · obtain ⟨lines', applied, h'⟩ :=
        applyEdit_single source helper (forward edit last) (below edit last) bounded newline h
      obtain ⟨orderedRest, -, behind⟩ := List.pairwise_append.mp ordered
      have rest := ih orderedRest (fun other member => forward other (by simp [member]))
        (Nat.le_trans (forward edit last) inside)
        (fun other member => behind other member edit (List.mem_singleton_self edit)) h'
      rw [applied]
      rcases rest with ⟨plain, lines'', run, text'⟩ | ⟨other, member, found, run⟩
      · refine .inl ⟨?_, lines'', run, ?_⟩
        · intro other member
          rcases List.mem_append.mp member with earlier | here
          · exact plain other earlier
          · rwa [List.mem_singleton.mp here]
        · rw [text', List.map_append, List.map_singleton, wrapped, substitute_concat]
          simp
      · exact .inr ⟨other, by simp [member], found, run⟩

/-! ### Edits in any order -/

/-- Two ranges share no character. -/
def Apart (first second : Extent × Text) : Prop := InOrder first second ∨ InOrder second first

theorem Apart.symm {first second : Extent × Text} (h : Apart first second) : Apart second first :=
  Or.symm h

theorem exists_sorted {edits : List (Extent × Text)}
    (filled : ∀ edit ∈ edits, edit.1.start < edit.1.stop) (apart : edits.Pairwise Apart) :
    ∃ sorted : List (Extent × Text), sorted.Perm edits ∧ sorted.Pairwise InOrder := by
  let le (first second : Extent × Text) : Bool := decide (first.1.start ≤ second.1.start)
  have perm := List.mergeSort_perm edits le
  refine ⟨edits.mergeSort le, perm, ?_⟩
  have ordered : (edits.mergeSort le).Pairwise fun first second => le first second = true := by
    refine List.pairwise_mergeSort (fun a b c ab bc => ?_) (fun a b => ?_) edits
    · simp only [le, decide_eq_true_eq] at ab bc ⊢
      omega
    · simp only [le, Bool.or_eq_true, decide_eq_true_eq]
      omega
  have still : (edits.mergeSort le).Pairwise Apart := perm.symm.pairwise apart Apart.symm
  refine (ordered.and still).imp_of_mem fun {first second} isFirst isSecond both => ?_
  have notBehind := of_decide_eq_true both.1
  have firstFilled := filled first (perm.mem_iff.mp isFirst)
  have secondFilled := filled second (perm.mem_iff.mp isSecond)
  rcases both.2 with inOrder | behind
  · exact inOrder
  · unfold InOrder at behind
    omega

/-- The edits of a change set, those that start later in front. -/
theorem ofEdits_descending (source : String) (edits : List Edit) :
    (ofEdits source edits).edits.Perm edits ∧
      (ofEdits source edits).edits.Pairwise fun first second => ¬first.span.start < second.span.start := by
  refine ⟨List.mergeSort_perm _ _, ?_⟩
  refine (List.pairwise_mergeSort ?_ ?_ edits).imp fun sorted => ?_
  · intro a b c ab bc
    simp only [Bool.not_eq_true', decide_eq_false_iff_not] at ab bc ⊢
    exact Position.not_lt_trans bc ab
  · intro a b
    simp only [Bool.or_eq_true, Bool.not_eq_true', decide_eq_false_iff_not, Position.lt_iff]
    omega
  · simpa using sorted

theorem ofEdits_sorted (source : String) (text : Text) {edits sorted : List (Extent × Text)}
    (filled : ∀ edit ∈ edits, edit.1.start < edit.1.stop) (perm : sorted.Perm edits)
    (ordered : sorted.Pairwise InOrder) :
    (ofEdits source (edits.map (editOf text))).edits = (sorted.map (editOf text)).reverse := by
  have filled : ∀ edit ∈ sorted, edit.1.start < edit.1.stop :=
    fun edit member => filled edit (perm.mem_iff.mp member)
  obtain ⟨permuted, descending⟩ := ofEdits_descending source (edits.map (editOf text))
  have same := permuted.trans ((perm.map (editOf text)).symm.trans (List.reverse_perm _).symm)
  refine @List.Perm.eq_of_pairwise _ (fun first second => ¬first.span.start < second.span.start) _ _ ?_
    descending ?_ same
  · intro first second isFirst isSecond notLess notGreater
    obtain ⟨one, isOne, rfl⟩ := List.mem_map.mp (List.mem_reverse.mp (same.mem_iff.mp isFirst))
    obtain ⟨other, isOther, rfl⟩ := List.mem_map.mp (List.mem_reverse.mp isSecond)
    simp only [editOf, span_start, position_lt_iff text] at notLess notGreater
    -- Ranges that start together are the same, since they are apart and not empty.
    have distinct : sorted.Pairwise fun a b => a.1.start < b.1.start :=
      ordered.imp_of_mem fun {a b} isA _ before => Nat.lt_of_lt_of_le (filled a isA) before
    by_contra notSame
    have ne : one ≠ other := fun h => notSame (h ▸ rfl)
    have symm : Std.Symm fun a b : Extent × Text => a.1.start ≠ b.1.start := ⟨fun _ _ => Ne.symm⟩
    have different : sorted.Pairwise fun a b => a.1.start ≠ b.1.start :=
      distinct.imp fun less => Nat.ne_of_lt less
    have apart := different.forall isOne isOther ne
    omega
  · rw [List.pairwise_reverse, List.pairwise_map]
    refine ordered.imp_of_mem fun {first second} isFirst isSecond before => ?_
    have firstFilled := filled first isFirst
    unfold InOrder at before
    simp only [editOf, span_start, position_lt_iff text]
    omega

/-- Ranges that stand apart are replaced all at once, unless one of them holds a newline. -/
theorem apply_ofEdits (source : String) (helper : Text) {text : Text}
    {edits sorted : List (Extent × Text)}
    (inside : ∀ edit ∈ edits, edit.1.start < edit.1.stop ∧ edit.1.stop ≤ text.length)
    (perm : sorted.Perm edits) (ordered : sorted.Pairwise InOrder) :
    ((∀ edit ∈ edits, '\n' ∉ text.slice edit.1.start edit.1.stop) ∧
      (ofEdits source (edits.map (editOf text))).apply helper text =
        .ok (substitute text 0 text.length (sorted.map (wrapped helper)))) ∨
    ∃ edit ∈ edits, '\n' ∈ text.slice edit.1.start edit.1.stop ∧
      (ofEdits source (edits.map (editOf text))).apply helper text =
        .error (multiline source text edit.1) := by
  have start : LinesOf (text.take text.length) [] text.lines := by
    simpa using LinesOf.of_lines text []
  have member (edit : Extent × Text) : edit ∈ sorted ↔ edit ∈ edits := perm.mem_iff
  have run := applyEdits source helper sorted ordered
    (fun edit isEdit => Nat.le_of_lt (inside edit ((member edit).mp isEdit)).1) (Nat.le_refl _)
    (fun edit isEdit => (inside edit ((member edit).mp isEdit)).2) start
  have set : (ofEdits source (edits.map (editOf text))).source = source := rfl
  rw [apply, ofEdits_sorted source text (fun edit isEdit => (inside edit isEdit).1) perm ordered, set]
  rcases run with ⟨plain, lines, run, read⟩ | ⟨edit, isEdit, newline, run⟩
  · refine .inl ⟨fun edit isEdit => plain edit ((member edit).mpr isEdit), ?_⟩
    rw [run]
    exact congrArg Except.ok (by simpa using read)
  · refine .inr ⟨edit, (member edit).mp isEdit, newline, ?_⟩
    rw [run]
    rfl

end ChangeSet

end Phrasebook
