import Phrasebook.Proofs.Edit.Substitution
import Phrasebook.Proofs.Extract.Merged

/-!
# Rendering the edits of a theme

The recorded texts of all templates are grouped by text, regrouped by source and spliced in.
`renderChanges_substitutes` shows that nothing else happens to a template: its recorded ranges are
replaced all at once, whatever the other templates hold.
-/

namespace Phrasebook

open Template Extract ChangeSet

/-! ### Edits by source -/

namespace Members

variable {κ β : Type} [BEq κ] [LawfulBEq κ]

/-- Values put under their names one after the other stand there in that order. -/
theorem get?_group (pairs : List (κ × β)) (groups : List (κ × List β)) (name : κ) :
    get? (pairs.foldl (fun groups (name, value) =>
        alter groups name fun known => known.getD [] ++ [value]) groups) name =
      match pairs.filter fun pair => pair.1 == name with
      | [] => get? groups name
      | found => some ((get? groups name).getD [] ++ found.map Prod.snd) := by
  induction pairs generalizing groups with
  | nil => rfl
  | cons pair rest ih =>
    obtain ⟨first, value⟩ := pair
    rw [List.foldl_cons, ih, List.filter_cons]
    by_cases same : first = name
    · subst same
      rw [get?_alter_self]
      simp only [beq_self_eq_true, if_true, Option.getD_some]
      cases rest.filter fun pair => pair.1 == first <;> simp
    · rw [get?_alter_of_ne _ same]
      simp only [beq_iff_eq, same, if_false]

end Members

section Theme

variable {helper : Text} {all : Bool} {analysed : List (Template × Findings)}
  {template : Template} {findings : Findings} {extents : List Extent}

/-- The texts of several templates, merged. -/
def textsOf (analysed : List (Template × Findings)) : Texts :=
  (mergeAll (analysed.map Prod.snd)).texts

/-- A text is to be put into a call at one of its places. -/
def IsEdit (texts : Texts) (all : Bool) (key : Text) (place : Location) : Prop :=
  ∃ places, (key, places) ∈ texts ∧ place ∈ places ∧ (all || key.hasLetter) = true

/-- The edits of a template as ranges with their texts, in the order of the texts. -/
def rangeEdits (texts : Texts) (all : Bool) (text : Text) (extents : List Extent) :
    List (Extent × Text) :=
  (texts.filter fun (key, _) => all || key.hasLetter).flatMap fun (key, _) =>
    (rangesOf text extents key).map fun extent => (extent, key)

theorem Extract.RangesFound.places_of_entry (each : ∀ pair ∈ analysed, Analysed helper pair.1 pair.2)
    (distinct : (analysed.map fun pair => pair.1.source).Nodup)
    (member : (template, findings) ∈ analysed) (ranges : RangesFound template findings extents)
    {key : Text} {places : List Location} (entry : (key, places) ∈ textsOf analysed) :
    places.filter (fun place => place.source == template.source) =
      (rangesOf template.text extents key).map fun extent =>
        ⟨template.source, template.text.span extent⟩ := by
  have own := places_of_source each distinct member key
  have found := Members.get?_of_mem (mergeAll_distinct (analysed.map Prod.snd)) entry
  rw [found, ranges.places key] at own
  exact own

theorem get?_changes (all : Bool) (each : ∀ pair ∈ analysed, Analysed helper pair.1 pair.2)
    (distinct : (analysed.map fun pair => pair.1.source).Nodup)
    (member : (template, findings) ∈ analysed) (ranges : RangesFound template findings extents) :
    Members.get? ((textsOf analysed).changes all) template.source =
      match rangeEdits (textsOf analysed) all template.text extents with
      | [] => none
      | edits => some (.ofEdits template.source (edits.map (editOf template.text))) := by
  have edits : (((textsOf analysed).filter fun (key, _) => all || key.hasLetter).flatMap
        fun (key, places) => places.map fun place => (place.source, (⟨key, place.span⟩ : Edit))).filter
          (fun pair => pair.1 == template.source) =
      (rangeEdits (textsOf analysed) all template.text extents).map fun edit =>
        (template.source, editOf template.text edit) := by
    rw [List.filter_flatMap, rangeEdits, List.map_flatMap]
    refine List.flatMap_congr fun entry isEntry => ?_
    have own := ranges.places_of_entry each distinct member (List.mem_filter.mp isEntry).1
    rw [List.filter_map, List.map_map]
    simp only [Function.comp_def]
    rw [own, List.map_map]
    rfl
  unfold Texts.changes Texts.editsBySource
  rw [Members.get?_map _ fun source edits => ChangeSet.ofEdits source edits, Members.get?_group, edits]
  cases rangeEdits (textsOf analysed) all template.text extents with
  | nil => rfl
  | cons edit rest =>
    simp [Members.get?, Function.comp_def]

theorem isEdit_iff (each : ∀ pair ∈ analysed, Analysed helper pair.1 pair.2)
    (distinct : (analysed.map fun pair => pair.1.source).Nodup)
    (member : (template, findings) ∈ analysed) (ranges : RangesFound template findings extents)
    {key : Text} {span : Span} :
    IsEdit (textsOf analysed) all key ⟨template.source, span⟩ ↔
      ∃ extent, (extent, key) ∈ rangeEdits (textsOf analysed) all template.text extents ∧
        span = template.text.span extent := by
  unfold rangeEdits IsEdit
  simp only [List.mem_flatMap, List.mem_filter, List.mem_map]
  constructor
  · rintro ⟨places, entry, here, chosen⟩
    have own : (⟨template.source, span⟩ : Location) ∈
        places.filter fun place => place.source == template.source :=
      List.mem_filter.mpr ⟨here, beq_self_eq_true _⟩
    rw [ranges.places_of_entry each distinct member entry] at own
    obtain ⟨extent, isRange, same⟩ := List.mem_map.mp own
    exact ⟨extent, ⟨(key, places), ⟨entry, chosen⟩, extent, isRange, rfl⟩,
      (congrArg Location.span same).symm⟩
  · rintro ⟨extent, ⟨⟨key', places⟩, ⟨entry, chosen⟩, extent', isRange, same⟩, rfl⟩
    obtain ⟨rfl, rfl⟩ := Prod.mk.inj same
    refine ⟨places, entry, ?_, chosen⟩
    have here : (⟨template.source, template.text.span extent'⟩ : Location) ∈
        places.filter fun place => place.source == template.source := by
      rw [ranges.places_of_entry each distinct member entry]
      exact List.mem_map.mpr ⟨extent', isRange, rfl⟩
    exact (List.mem_filter.mp here).1

theorem rangeEdits_apart (all : Bool) (ranges : RangesFound template findings extents) (texts : Texts)
    (nodup : (Members.names texts).Nodup) :
    (rangeEdits texts all template.text extents).Pairwise Apart := by
  have symm : Std.Symm fun first second : Extent =>
      first.stop ≤ second.start ∨ second.stop ≤ first.start := ⟨fun _ _ => Or.symm⟩
  have either : extents.Pairwise fun first second =>
      first.stop ≤ second.start ∨ second.stop ≤ first.start := ranges.ordered.imp .inl
  unfold rangeEdits
  rw [List.pairwise_flatMap]
  refine ⟨fun entry _ => ?_, ?_⟩
  · rw [List.pairwise_map]
    exact List.Pairwise.filter _ either
  · rw [Members.names, List.nodup_iff_pairwise_ne, List.pairwise_map] at nodup
    refine (nodup.filter _).imp fun {one other} different edit isEdit edit' isEdit' => ?_
    obtain ⟨extent, inRanges, rfl⟩ := List.mem_map.mp isEdit
    obtain ⟨extent', inRanges', rfl⟩ := List.mem_map.mp isEdit'
    obtain ⟨isExtent, isKey⟩ := mem_rangesOf.mp inRanges
    obtain ⟨isExtent', isKey'⟩ := mem_rangesOf.mp inRanges'
    have apart : extent ≠ extent' := by
      rintro rfl
      exact different (Except.ok.inj (isKey.symm.trans isKey'))
    exact either.forall isExtent isExtent' apart

/-! ### One template -/

/-- The edits of a template, in the order of its text. -/
structure EditsOf (texts : Texts) (all : Bool) (template : Template) (edits : List (Extent × Text)) :
    Prop where
  ordered : edits.Pairwise InOrder
  inside : ∀ edit ∈ edits, edit.1.start < edit.1.stop ∧ edit.1.stop ≤ template.text.length
  recorded (key : Text) (span : Span) : IsEdit texts all key ⟨template.source, span⟩ ↔
    ∃ extent, (extent, key) ∈ edits ∧ span = template.text.span extent

/-- What becomes of a template with the given edits: it has no change set, all edits are replaced at
once, or one of them holds a newline. -/
inductive Applies (changes : List (String × ChangeSet)) (helper : Text) (template : Template)
    (edits : List (Extent × Text)) : Prop where
  | unchanged (none : Members.get? changes template.source = none) (empty : edits = [])
  | replaced (set : ChangeSet) (found : Members.get? changes template.source = some set)
      (filled : edits ≠ [])
      (plain : ∀ edit ∈ edits, '\n' ∉ template.text.slice edit.1.start edit.1.stop)
      (applied : set.apply helper template.text =
        .ok (template.text.substitute 0 template.text.length (edits.map (wrapped helper))))
  | refused (set : ChangeSet) (found : Members.get? changes template.source = some set)
      (edit : Extent × Text) (member : edit ∈ edits)
      (newline : '\n' ∈ template.text.slice edit.1.start edit.1.stop)
      (failed : set.apply helper template.text =
        .error (multiline template.source template.text edit.1))

theorem Applies.filled_iff {changes : List (String × ChangeSet)} {edits : List (Extent × Text)}
    (h : Applies changes helper template edits) :
    edits ≠ [] ↔ ∃ set, Members.get? changes template.source = some set := by
  cases h with
  | unchanged none empty => simp [none, empty]
  | replaced set found filled _ _ => simp [found, filled]
  | refused set found edit member _ _ => simp [found, List.ne_nil_of_mem member]

theorem Applies.contents {changes : List (String × ChangeSet)} {edits : List (Extent × Text)}
    (h : Applies changes helper template edits) {set : ChangeSet} {contents : Text}
    (found : Members.get? changes template.source = some set)
    (applied : set.apply helper template.text = .ok contents) :
    (∀ edit ∈ edits, '\n' ∉ template.text.slice edit.1.start edit.1.stop) ∧
      contents = template.text.substitute 0 template.text.length (edits.map (wrapped helper)) := by
  cases h with
  | unchanged none empty => simp [none] at found
  | replaced set' found' filled plain applied' =>
    obtain rfl := Option.some.inj (found.symm.trans found')
    exact ⟨plain, Except.ok.inj (applied.symm.trans applied')⟩
  | refused set' found' edit member newline failed =>
    obtain rfl := Option.some.inj (found.symm.trans found')
    simp [failed] at applied

theorem Applies.fault {changes : List (String × ChangeSet)} {edits : List (Extent × Text)}
    (h : Applies changes helper template edits) {set : ChangeSet} {fault : EditFault}
    (found : Members.get? changes template.source = some set)
    (failed : set.apply helper template.text = .error fault) :
    ∃ edit ∈ edits, '\n' ∈ template.text.slice edit.1.start edit.1.stop ∧
      fault = multiline template.source template.text edit.1 := by
  cases h with
  | unchanged none empty => simp [none] at found
  | replaced set' found' filled plain applied =>
    obtain rfl := Option.some.inj (found.symm.trans found')
    simp [failed] at applied
  | refused set' found' edit member newline failed' =>
    obtain rfl := Option.some.inj (found.symm.trans found')
    exact ⟨edit, member, newline, Except.error.inj (failed.symm.trans failed')⟩

theorem template_edits (all : Bool) (each : ∀ pair ∈ analysed, Analysed helper pair.1 pair.2)
    (distinct : (analysed.map fun pair => pair.1.source).Nodup)
    (member : template ∈ analysed.map Prod.fst) :
    ∃ edits, EditsOf (textsOf analysed) all template edits ∧
      Applies ((textsOf analysed).changes all) helper template edits := by
  obtain ⟨⟨template, findings⟩, isPair, rfl⟩ := List.mem_map.mp member
  obtain ⟨extents, ranges⟩ := (each _ isPair).ranges
  have inside : ∀ edit ∈ rangeEdits (textsOf analysed) all template.text extents,
      edit.1.start < edit.1.stop ∧ edit.1.stop ≤ template.text.length := by
    intro edit isEdit
    unfold rangeEdits at isEdit
    obtain ⟨entry, -, isRange⟩ := List.mem_flatMap.mp isEdit
    obtain ⟨extent, inRanges, rfl⟩ := List.mem_map.mp isRange
    exact ranges.inside extent (mem_rangesOf.mp inRanges).1
  have apart := rangeEdits_apart all ranges (textsOf analysed) (mergeAll_distinct _)
  obtain ⟨sorted, perm, ordered⟩ := exists_sorted (fun edit isEdit => (inside edit isEdit).1) apart
  have same (edit : Extent × Text) :
      edit ∈ sorted ↔ edit ∈ rangeEdits (textsOf analysed) all template.text extents := perm.mem_iff
  refine ⟨sorted, ⟨ordered, fun edit isEdit => inside edit ((same edit).mp isEdit),
    fun key span => ?_⟩, ?_⟩
  · simp only [same, isEdit_iff each distinct isPair ranges]
  have found := get?_changes all each distinct isPair ranges
  split at found
  · next empty => exact .unchanged found (List.perm_nil.mp (empty ▸ perm))
  · next filled =>
    rcases apply_ofEdits template.source helper inside perm ordered with
      ⟨plain, done⟩ | ⟨edit, isEdit, newline, failed⟩
    · exact .replaced _ found (fun empty => filled (List.nil_perm.mp (empty ▸ perm)))
        (fun edit isEdit => plain edit ((same edit).mp isEdit)) done
    · exact .refused _ found edit ((same edit).mpr isEdit) newline failed

end Theme

/-! ### All templates -/

/-- The new texts of templates, in order, for the templates that have changes. -/
inductive Rendered (changes : List (String × ChangeSet)) (helper : Text) :
    List Template → List (String × Text) → Prop where
  | nil : Rendered changes helper [] []
  | kept {template : Template} {rest : List Template} {rendered : List (String × Text)}
      (unchanged : Members.get? changes template.source = none)
      (later : Rendered changes helper rest rendered) :
      Rendered changes helper (template :: rest) rendered
  | changed {template : Template} {rest : List Template} {rendered : List (String × Text)}
      {set : ChangeSet} {contents : Text} (found : Members.get? changes template.source = some set)
      (applied : set.apply helper template.text = .ok contents)
      (later : Rendered changes helper rest rendered) :
      Rendered changes helper (template :: rest) ((template.source, contents) :: rendered)

/-- Adds the new text of a template that has changes. -/
def renderInto (changes : List (String × ChangeSet)) (helper : Text) (rendered : List (String × Text))
    (template : Template) : Except EditFault (List (String × Text)) :=
  match Members.get? changes template.source with
  | none => .ok rendered
  | some set => do .ok (Members.put rendered template.source (← set.apply helper template.text))

theorem renderInto_changed {changes : List (String × ChangeSet)} {helper : Text} {template : Template}
    {set : ChangeSet} {contents : Text} (rendered : List (String × Text))
    (found : Members.get? changes template.source = some set)
    (applied : set.apply helper template.text = .ok contents) :
    renderInto changes helper rendered template =
      .ok (Members.put rendered template.source contents) := by
  unfold renderInto
  rw [found]
  simp only [applied]
  rfl

theorem renderInto_failed {changes : List (String × ChangeSet)} {helper : Text} {template : Template}
    {set : ChangeSet} {fault : EditFault} (rendered : List (String × Text))
    (found : Members.get? changes template.source = some set)
    (failed : set.apply helper template.text = .error fault) :
    renderInto changes helper rendered template = .error fault := by
  unfold renderInto
  rw [found]
  simp only [failed]
  rfl

theorem renderInto_runs {changes : List (String × ChangeSet)} {helper : Text}
    {templates : List Template} (before : List (String × Text))
    (distinct : (templates.map Template.source).Nodup)
    (fresh : ∀ template ∈ templates, template.source ∉ Members.names before) :
    (∃ rendered, templates.foldlM (renderInto changes helper) before = .ok (before ++ rendered) ∧
      Rendered changes helper templates rendered) ∨
    ∃ template ∈ templates, ∃ set fault, Members.get? changes template.source = some set ∧
      set.apply helper template.text = .error fault ∧
      templates.foldlM (renderInto changes helper) before = .error fault := by
  induction templates generalizing before with
  | nil => exact .inl ⟨[], by rw [List.append_nil]; rfl, .nil⟩
  | cons template rest ih =>
    obtain ⟨notLater, tail⟩ := List.nodup_cons.mp distinct
    have restFresh : ∀ other ∈ rest, other.source ∉ Members.names before :=
      fun other isOther => fresh other (List.mem_cons_of_mem _ isOther)
    rw [List.foldlM_cons]
    cases found : Members.get? changes template.source with
    | none =>
      have step : renderInto changes helper before template = .ok before := by
        unfold renderInto
        rw [found]
      rw [step]
      rcases ih before tail restFresh with ⟨rendered, run, ok⟩ | ⟨other, isOther, failed⟩
      · exact .inl ⟨rendered, run, .kept found ok⟩
      · exact .inr ⟨other, List.mem_cons_of_mem _ isOther, failed⟩
    | some set =>
      cases applied : set.apply helper template.text with
      | error fault =>
        rw [renderInto_failed before found applied]
        exact .inr ⟨template, List.mem_cons_self, set, fault, found, applied, rfl⟩
      | ok contents =>
        rw [renderInto_changed before found applied,
          Members.put_of_not_mem (fresh template List.mem_cons_self)]
        have next : ∀ other ∈ rest,
            other.source ∉ Members.names (before ++ [(template.source, contents)]) := by
          intro other isOther
          unfold Members.names
          rw [List.map_append, List.mem_append, not_or]
          refine ⟨restFresh other isOther, fun same => notLater ?_⟩
          exact List.mem_map.mpr ⟨other, isOther, List.mem_singleton.mp same⟩
        rcases ih _ tail next with ⟨rendered, run, ok⟩ | ⟨other, isOther, failed⟩
        · refine .inl ⟨(template.source, contents) :: rendered, ?_, .changed found applied ok⟩
          rw [List.append_assoc] at run
          exact run
        · exact .inr ⟨other, List.mem_cons_of_mem _ isOther, failed⟩

theorem renderChanges_runs (changes : List (String × ChangeSet)) (helper : Text)
    {templates : List Template} (distinct : (templates.map Template.source).Nodup) :
    (∃ rendered, renderChanges templates changes helper = .ok rendered ∧
      Rendered changes helper templates rendered) ∨
    ∃ template ∈ templates, ∃ set fault, Members.get? changes template.source = some set ∧
      set.apply helper template.text = .error fault ∧
      renderChanges templates changes helper = .error fault :=
  renderInto_runs [] distinct (by simp [Members.names])

theorem Rendered.mem_iff {changes : List (String × ChangeSet)} {helper : Text}
    {templates : List Template} {rendered : List (String × Text)}
    (h : Rendered changes helper templates rendered) (source : String) (contents : Text) :
    (source, contents) ∈ rendered ↔ ∃ template ∈ templates, ∃ set, template.source = source ∧
      Members.get? changes template.source = some set ∧
      set.apply helper template.text = .ok contents := by
  induction h with
  | nil => simp
  | kept unchanged later ih =>
    rw [ih]
    simp only [List.mem_cons, exists_eq_or_imp, unchanged, reduceCtorEq, false_and, and_false,
      exists_false, false_or]
  | @changed template rest rendered set contents' found applied later ih =>
    rw [List.mem_cons, ih]
    simp only [List.mem_cons, exists_eq_or_imp]
    refine or_congr_left ?_
    rw [Prod.mk.injEq]
    constructor
    · rintro ⟨rfl, rfl⟩
      exact ⟨set, rfl, found, applied⟩
    · rintro ⟨set', rfl, found', applied'⟩
      obtain rfl := Option.some.inj (found.symm.trans found')
      exact ⟨rfl, Except.ok.inj (applied'.symm.trans applied)⟩

theorem Rendered.applied {changes : List (String × ChangeSet)} {helper : Text}
    {templates : List Template} {rendered : List (String × Text)}
    (h : Rendered changes helper templates rendered) {template : Template}
    (member : template ∈ templates) {set : ChangeSet}
    (found : Members.get? changes template.source = some set) :
    ∃ contents, set.apply helper template.text = .ok contents := by
  induction h with
  | nil => simp at member
  | kept unchanged later ih =>
    rcases List.mem_cons.mp member with rfl | member
    · simp [unchanged] at found
    · exact ih member
  | @changed _ _ _ _ contents found' applied later ih =>
    rcases List.mem_cons.mp member with rfl | member
    · obtain rfl := Option.some.inj (found.symm.trans found')
      exact ⟨contents, applied⟩
    · exact ih member

theorem Rendered.sublist {changes : List (String × ChangeSet)} {helper : Text}
    {templates : List Template} {rendered : List (String × Text)}
    (h : Rendered changes helper templates rendered) :
    (Members.names rendered).Sublist (templates.map Template.source) := by
  induction h with
  | nil => exact .slnil
  | kept unchanged later ih => exact ih.cons _
  | changed found applied later ih => exact ih.cons_cons _

theorem renderInto_sources {changes : List (String × ChangeSet)} {helper : Text} {templates : List Template}
    {before rendered : List (String × Text)}
    (done : templates.foldlM (renderInto changes helper) before = .ok rendered) :
    ∀ pair ∈ rendered, pair ∈ before ∨ ∃ template ∈ templates, template.source = pair.1 := by
  induction templates generalizing before with
  | nil => exact fun pair isIn => .inl (Except.ok.inj done ▸ isIn)
  | cons template rest ih =>
    obtain ⟨next, step, later⟩ := bind_ok done
    intro pair isIn
    rcases ih later pair isIn with wasIn | ⟨other, isOther, same⟩
    · unfold renderInto at step
      split at step
      · exact .inl (Except.ok.inj step ▸ wasIn)
      · obtain ⟨contents, -, step⟩ := bind_ok step
        obtain rfl := Except.ok.inj step
        rcases Members.mem_put wasIn with wasBefore | rfl
        · exact .inl wasBefore
        · exact .inr ⟨template, List.mem_cons_self, rfl⟩
    · exact .inr ⟨other, List.mem_cons_of_mem _ isOther, same⟩

/-- Only templates get new texts. -/
theorem renderChanges_sources {changes : List (String × ChangeSet)} {helper : Text} {templates : List Template}
    {rendered : List (String × Text)} (done : renderChanges templates changes helper = .ok rendered) :
    ∀ pair ∈ rendered, ∃ template ∈ templates, template.source = pair.1 :=
  fun pair isIn => (renderInto_sources done pair isIn).resolve_left List.not_mem_nil

/-! ### Whole themes -/

theorem mem_slice_iff {text : Text} {start stop : Nat} {c : Char} :
    c ∈ text.slice start stop ↔ ∃ index, start ≤ index ∧ index < stop ∧ text[index]? = some c := by
  constructor
  · intro member
    obtain ⟨index, here⟩ := List.mem_iff_getElem?.mp member
    have inside : index < stop - start := by
      have := (List.getElem?_eq_some_iff.mp here).1
      simp only [Text.slice, List.length_take] at this
      omega
    rw [Text.getElem?_slice inside] at here
    exact ⟨start + index, by omega, by omega, here⟩
  · rintro ⟨index, lower, upper, here⟩
    refine List.mem_iff_getElem?.mpr ⟨index - start, ?_⟩
    rw [Text.getElem?_slice (by omega), show start + (index - start) = index by omega]
    exact here

/-- A span of a text covers a newline. -/
def CoversNewline (text : Text) (span : Span) : Prop :=
  ∃ index, Covers text span index ∧ text[index]? = some '\n'

theorem coversNewline_iff {text : Text} {extent : Extent} :
    CoversNewline text (text.span extent) ↔ '\n' ∈ text.slice extent.start extent.stop := by
  rw [mem_slice_iff]
  refine exists_congr fun index => ?_
  unfold Covers
  rw [Text.span_start, Text.span_stop, Text.position_le_iff, Text.position_lt_iff text, and_assoc]

theorem exists_source {helper key : Text} {all : Bool} {analysed : List (Template × Findings)}
    (each : ∀ pair ∈ analysed, Analysed helper pair.1 pair.2) {place : Location}
    (edit : IsEdit (textsOf analysed) all key place) :
    ∃ template ∈ analysed.map Prod.fst, template.source = place.source := by
  obtain ⟨places, entry, member, -⟩ := edit
  have nodup : ∀ findings ∈ analysed.map Prod.snd, (Members.names findings.texts).Nodup := by
    intro findings isFound
    obtain ⟨pair, isPair, rfl⟩ := List.mem_map.mp isFound
    obtain ⟨extents, ranges⟩ := (each pair isPair).ranges
    exact ranges.recorded.distinct
  have merged := mergeAll_places nodup key
  rw [Members.get?_of_mem (mergeAll_distinct _) entry, Option.getD_some] at merged
  rw [merged] at member
  obtain ⟨findings, isFound, here⟩ := List.mem_flatMap.mp member
  obtain ⟨pair, isPair, rfl⟩ := List.mem_map.mp isFound
  obtain ⟨extents, ranges⟩ := (each pair isPair).ranges
  rw [ranges.places key] at here
  obtain ⟨extent, -, rfl⟩ := List.mem_map.mp here
  exact ⟨pair.1, List.mem_map.mpr ⟨pair, isPair, rfl⟩, rfl⟩

/-- Where the templates of a theme have different paths, an edit only fails because it covers a newline. -/
theorem renderChanges_fault {helper : Text} {all : Bool} {analysed : List (Template × Findings)} {fault : EditFault}
    (each : ∀ pair ∈ analysed, Analysed helper pair.1 pair.2)
    (distinct : (analysed.map fun pair => pair.1.source).Nodup)
    (failed : renderChanges (analysed.map Prod.fst) ((textsOf analysed).changes all) helper = .error fault) :
    ∃ violation, fault = .violation violation := by
  have sources : ((analysed.map Prod.fst).map Template.source).Nodup := by
    rw [List.map_map]
    exact distinct
  rcases renderChanges_runs ((textsOf analysed).changes all) helper sources with
    ⟨rendered, done, -⟩ | ⟨template, isTemplate, set, other, found, notApplied, run⟩
  · rw [done] at failed
    cases failed
  · obtain rfl := Except.error.inj (run.symm.trans failed)
    obtain ⟨edits, -, applies⟩ := template_edits all each distinct isTemplate
    obtain ⟨edit, -, -, rfl⟩ := applies.fault found notApplied
    exact ⟨_, rfl⟩

/-- The recorded places of the texts chosen are replaced by calls, all at once, and nothing else
changes; the one way to fail is a place that covers a newline. -/
theorem renderChanges_substitutes (helper : Text) (all : Bool)
    {analysed : List (Template × Findings)}
    (each : ∀ pair ∈ analysed, Analysed helper pair.1 pair.2)
    (distinct : (analysed.map fun pair => pair.1.source).Nodup) :
    let templates := analysed.map Prod.fst
    let texts := textsOf analysed
    let result := renderChanges templates (texts.changes all) helper
    (∀ key place, IsEdit texts all key place → ∃ template ∈ templates, template.source = place.source) ∧
    ((∃ fault, result = .error fault) ↔ ∃ key place, IsEdit texts all key place ∧
      ∃ template ∈ templates, template.source = place.source ∧
        CoversNewline template.text place.span) ∧
    (∀ fault, result = .error fault → ∃ key place, IsEdit texts all key place ∧
      fault = .violation ⟨.multilineEdit, .ofPosition (some place.source) place.span.start⟩) ∧
    ∀ rendered, result = .ok rendered →
      (Members.names rendered).Sublist (templates.map Template.source) ∧
      (∀ source, source ∈ Members.names rendered ↔
        ∃ key span, IsEdit texts all key ⟨source, span⟩) ∧
      ∀ template ∈ templates, ∀ contents, (template.source, contents) ∈ rendered →
        ∃ edits, EditsOf texts all template edits ∧
          contents =
            template.text.substitute 0 template.text.length (edits.map (wrapped helper)) := by
  intro templates texts result
  have sources : (templates.map Template.source).Nodup := by
    rw [List.map_map]
    exact distinct
  have belongs : ∀ key place, IsEdit texts all key place →
      ∃ template ∈ templates, template.source = place.source := fun _ _ => exists_source each
  have edited : ∀ template ∈ templates, ∃ edits, EditsOf texts all template edits ∧
      Applies (texts.changes all) helper template edits :=
    fun template isTemplate => template_edits all each distinct isTemplate
  refine ⟨belongs, ?_⟩
  rcases renderChanges_runs (texts.changes all) helper sources with
    ⟨rendered, done, ok⟩ | ⟨template, isTemplate, set, fault, found, failed, run⟩
  · have isResult : result = .ok rendered := done
    -- Where a template has edits, they were applied, so they are the ones that `Applies` speaks of.
    have changed {key : Text} {span : Span} {template : Template} (isTemplate : template ∈ templates)
        (edit : IsEdit texts all key ⟨template.source, span⟩) : ∃ edits contents,
        (template.source, contents) ∈ rendered ∧ EditsOf texts all template edits ∧
          ∀ edit ∈ edits, '\n' ∉ template.text.slice edit.1.start edit.1.stop := by
      obtain ⟨edits, isEdits, applies⟩ := edited template isTemplate
      obtain ⟨extent, member, -⟩ := (isEdits.recorded key span).mp edit
      obtain ⟨set, found⟩ := applies.filled_iff.mp (List.ne_nil_of_mem member)
      obtain ⟨contents, applied⟩ := ok.applied isTemplate found
      exact ⟨edits, contents, (ok.mem_iff _ _).mpr ⟨template, isTemplate, set, rfl, found, applied⟩,
        isEdits, (applies.contents found applied).1⟩
    refine ⟨⟨fun ⟨fault, failed⟩ => by simp [isResult] at failed, ?_⟩,
      fun fault failed => by simp [isResult] at failed, ?_⟩
    · rintro ⟨key, ⟨source, span⟩, edit, template, isTemplate, rfl, newline⟩
      obtain ⟨edits, contents, -, isEdits, plain⟩ := changed isTemplate edit
      obtain ⟨extent, member, rfl⟩ := (isEdits.recorded key span).mp edit
      exact (plain _ member (coversNewline_iff.mp newline)).elim
    · intro rendered' same
      obtain rfl := Except.ok.inj (isResult.symm.trans same)
      refine ⟨ok.sublist, fun source => ⟨fun member => ?_, ?_⟩, fun template isTemplate contents member => ?_⟩
      · obtain ⟨⟨source, contents⟩, isRendered, rfl⟩ := List.mem_map.mp member
        obtain ⟨template, isTemplate, set, rfl, found, -⟩ := (ok.mem_iff _ contents).mp isRendered
        obtain ⟨edits, isEdits, applies⟩ := edited template isTemplate
        have filled := applies.filled_iff.mpr ⟨set, found⟩
        obtain ⟨⟨extent, key⟩, rest, rfl⟩ := List.exists_cons_of_ne_nil filled
        exact ⟨key, _, (isEdits.recorded key _).mpr ⟨extent, List.mem_cons_self, rfl⟩⟩
      · rintro ⟨key, span, edit⟩
        obtain ⟨template, isTemplate, rfl⟩ := belongs key _ edit
        obtain ⟨edits, contents, isRendered, -⟩ := changed isTemplate edit
        exact List.mem_map.mpr ⟨_, isRendered, rfl⟩
      · obtain ⟨other, isOther, set, same, found, applied⟩ := (ok.mem_iff _ contents).mp member
        obtain rfl := List.inj_on_of_nodup_map sources isOther isTemplate same
        obtain ⟨edits, isEdits, applies⟩ := edited other isTemplate
        exact ⟨edits, isEdits, (applies.contents found applied).2⟩
  · have isResult : result = .error fault := run
    obtain ⟨edits, isEdits, applies⟩ := edited template isTemplate
    obtain ⟨⟨extent, key⟩, member, newline, isFault⟩ := applies.fault found failed
    have edit := (isEdits.recorded key _).mpr ⟨extent, member, rfl⟩
    refine ⟨⟨fun _ => ⟨key, _, edit, template, isTemplate, rfl, coversNewline_iff.mpr newline⟩,
      fun _ => ⟨fault, isResult⟩⟩, ?_, fun rendered done => by simp [isResult] at done⟩
    intro fault' failed'
    obtain rfl := Except.error.inj (isResult.symm.trans failed')
    exact ⟨key, _, edit, isFault⟩

/-- Two templates that share a text, one with two places of it on a line. -/
theorem renderChanges_substitutes_shared :
    ∃ (first second : Template) (found found' : Findings) (rendered : List (String × Text)),
      first.text = "<p>Hi ".toList ++ tagged "n" ++ "Hi\r\n</p>".toList ∧
      second.text = "1\n".toList ++ tagged "#a" ++ "Hi".toList ++ tagged "/a" ∧
      Analysed ['t'] first found ∧ Analysed ['t'] second found' ∧
      ([(first, found), (second, found')].map fun pair => pair.1.source).Nodup ∧
      renderChanges [first, second]
        ((textsOf [(first, found), (second, found')]).changes false) ['t'] = .ok rendered ∧
      "a" ∈ Members.names rendered ∧ "b" ∈ Members.names rendered ∧
      ∀ contents, (first.source, contents) ∈ rendered →
        ∃ edits, EditsOf (textsOf [(first, found), (second, found')]) false first edits ∧
          contents = first.text.substitute 0 first.text.length (edits.map (wrapped ['t'])) := by
  obtain ⟨text, isText⟩ : ∃ text : Text,
      "<p>Hi ".toList ++ tagged "n" ++ "Hi\r\n</p>".toList = text := ⟨_, rfl⟩
  obtain ⟨text', isText'⟩ : ∃ text : Text,
      "1\n".toList ++ tagged "#a" ++ "Hi".toList ++ tagged "/a" = text := ⟨_, rfl⟩
  have runs : ((Template.load "a" text).toOption.bind fun first =>
      (Template.load "b" text').toOption.bind fun second =>
      (analyseTemplate first ['t'] defaultAims).result.toOption.bind fun found =>
      (analyseTemplate second ['t'] defaultAims).result.toOption.bind fun found' =>
        some (textsOf [(first, found.1), (second, found'.1)])) =
      some [(['H', 'i'], [⟨"a", text.span ⟨3, 5⟩⟩, ⟨"a", text.span ⟨11, 13⟩⟩,
        ⟨"b", text'.span ⟨8, 10⟩⟩]), (['1'], [⟨"b", text'.span ⟨0, 1⟩⟩])] := by
    rw [← isText, ← isText']
    decide +kernel
  obtain ⟨first, isFirst, runs⟩ := Option.bind_eq_some_iff.mp runs
  obtain ⟨second, isSecond, runs⟩ := Option.bind_eq_some_iff.mp runs
  obtain ⟨⟨found, visits⟩, isFound, runs⟩ := Option.bind_eq_some_iff.mp runs
  obtain ⟨⟨found', visits'⟩, isFound', runs⟩ := Option.bind_eq_some_iff.mp runs
  have texts := Option.some.inj runs
  have loaded := ok_of_toOption isFirst
  have loaded' := ok_of_toOption isSecond
  obtain ⟨source, content⟩ := load_eq loaded
  obtain ⟨source', content'⟩ := load_eq loaded'
  have analysed : Analysed ['t'] first found := .of_load loaded (ok_of_toOption isFound)
  have analysed' : Analysed ['t'] second found' := .of_load loaded' (ok_of_toOption isFound')
  have each : ∀ pair ∈ [(first, found), (second, found')], Analysed ['t'] pair.1 pair.2 := by
    simpa using ⟨analysed, analysed'⟩
  have distinct : ([(first, found), (second, found')].map fun pair => pair.1.source).Nodup := by
    simp [source, source']
  obtain ⟨-, fails, -, done⟩ := renderChanges_substitutes ['t'] false each distinct
  have edits {key : Text} {place : Location}
      (edit : IsEdit (textsOf [(first, found), (second, found')]) false key place) :
      place = ⟨"a", text.span ⟨3, 5⟩⟩ ∨ place = ⟨"a", text.span ⟨11, 13⟩⟩ ∨
        place = ⟨"b", text'.span ⟨8, 10⟩⟩ := by
    obtain ⟨places, entry, member, chosen⟩ := edit
    rw [texts] at entry
    rcases List.mem_cons.mp entry with same | entry
    · obtain ⟨-, rfl⟩ := Prod.mk.inj same
      simpa using member
    · obtain ⟨rfl, -⟩ := Prod.mk.inj (List.mem_singleton.mp entry)
      exact absurd chosen (by decide +kernel)
  have plain : '\n' ∉ text.slice 3 5 ++ text.slice 11 13 ++ text'.slice 8 10 := by
    rw [← isText, ← isText']
    decide +kernel
  simp only [List.mem_append, not_or] at plain
  have chosen : (false || Text.hasLetter ['H', 'i']) = true := by decide +kernel
  obtain ⟨rendered, result⟩ : ∃ rendered, renderChanges [first, second]
      ((textsOf [(first, found), (second, found')]).changes false) ['t'] = .ok rendered := by
    cases result : renderChanges [first, second]
        ((textsOf [(first, found), (second, found')]).changes false) ['t'] with
    | ok rendered => exact ⟨rendered, rfl⟩
    | error fault =>
      obtain ⟨key, place, edit, template, isTemplate, same, newline⟩ := fails.mp ⟨fault, result⟩
      have either : template = first ∨ template = second := by simpa using isTemplate
      rcases either with rfl | rfl <;> rcases edits edit with rfl | rfl | rfl <;>
        simp_all [coversNewline_iff]
  obtain ⟨-, sources, contents⟩ := done rendered result
  have one : IsEdit (textsOf [(first, found), (second, found')]) false ['H', 'i']
      ⟨"a", text.span ⟨3, 5⟩⟩ := by
    rw [texts]
    exact ⟨_, List.mem_cons_self, List.mem_cons_self, chosen⟩
  have other : IsEdit (textsOf [(first, found), (second, found')]) false ['H', 'i']
      ⟨"b", text'.span ⟨8, 10⟩⟩ := by
    rw [texts]
    exact ⟨_, List.mem_cons_self, by simp, chosen⟩
  exact ⟨first, second, found, found', rendered, content.trans isText.symm,
    content'.trans isText'.symm, analysed, analysed', distinct, result,
    (sources "a").mpr ⟨_, _, one⟩, (sources "b").mpr ⟨_, _, other⟩,
    contents first List.mem_cons_self⟩

end Phrasebook
