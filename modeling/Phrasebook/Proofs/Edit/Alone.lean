import Phrasebook.Proofs.Edit.Rendering
import Phrasebook.Proofs.Extract.Union

/-!
# Rendering one template alone

The edits of a theme are grouped by text, and which texts come first depends on all templates. Sorting the
edits of a template undoes that, since its ranges stand apart: `changes_alone` says that a template has the
same edits in a theme as by itself, and `renderChanges_alone` that it comes to the same text.
-/

namespace Phrasebook

open Template Extract ChangeSet

variable {helper : Text} {all : Bool} {analysed : List (Template × Findings)} {template : Template}
  {findings : Findings} {extents : List Extent}

theorem mem_rangeEdits (each : ∀ pair ∈ analysed, Analysed helper pair.1 pair.2)
    (distinct : (analysed.map fun pair => pair.1.source).Nodup) (member : (template, findings) ∈ analysed)
    (ranges : RangesFound template findings extents) {extent : Extent} {key : Text} :
    (extent, key) ∈ rangeEdits (textsOf analysed) all template.text extents ↔
      extent ∈ rangesOf template.text extents key ∧ (all || key.hasLetter) = true := by
  simp only [rangeEdits, List.mem_flatMap, List.mem_filter, List.mem_map]
  constructor
  · rintro ⟨⟨key, places⟩, ⟨-, chosen⟩, extent, isRange, same⟩
    obtain ⟨rfl, rfl⟩ := Prod.mk.inj same
    exact ⟨isRange, chosen⟩
  · rintro ⟨isRange, chosen⟩
    have own := places_of_source each distinct member key
    rw [ranges.places key] at own
    cases known : Members.get? (textsOf analysed) key with
    | none =>
      -- A text with a range has a place.
      rw [textsOf] at known
      rw [known] at own
      exact absurd (List.map_eq_nil_iff.mp own.symm) (List.ne_nil_of_mem isRange)
    | some places => exact ⟨(key, places), ⟨Members.mem_of_get? known, chosen⟩, extent, isRange, rfl⟩

theorem nodup_rangeEdits (all : Bool) (ranges : RangesFound template findings extents) (texts : Texts)
    (nodup : (Members.names texts).Nodup) : (rangeEdits texts all template.text extents).Nodup := by
  refine (rangeEdits_apart all ranges texts nodup).imp_of_mem fun {edit _} isEdit _ apart => ?_
  rintro rfl
  unfold rangeEdits at isEdit
  obtain ⟨entry, -, isRange⟩ := List.mem_flatMap.mp isEdit
  obtain ⟨extent, inRanges, rfl⟩ := List.mem_map.mp isRange
  have filled := (ranges.inside extent (mem_rangesOf.mp inRanges).1).1
  rcases apart with before | before <;> exact absurd filled (Nat.not_lt.mpr before)

/-- A template has the edits that it has by itself, in the same order. -/
theorem changes_alone (all : Bool) (each : ∀ pair ∈ analysed, Analysed helper pair.1 pair.2)
    (distinct : (analysed.map fun pair => pair.1.source).Nodup) (member : (template, findings) ∈ analysed) :
    Members.get? ((textsOf analysed).changes all) template.source =
      Members.get? (findings.texts.changes all) template.source := by
  have own : Analysed helper template findings := each _ member
  obtain ⟨extents, ranges⟩ := own.ranges
  have single : ∀ pair ∈ [(template, findings)], Analysed helper pair.1 pair.2 := List.forall_mem_singleton.mpr own
  have isSingle : (template, findings) ∈ [(template, findings)] := List.mem_singleton_self _
  have texts : textsOf [(template, findings)] = findings.texts := mergeAll_single own.nodup_texts
  have perm : (rangeEdits (textsOf analysed) all template.text extents).Perm
      (rangeEdits (textsOf [(template, findings)]) all template.text extents) := by
    refine (List.perm_ext_iff_of_nodup (nodup_rangeEdits all ranges _ (mergeAll_distinct _))
      (nodup_rangeEdits all ranges _ (mergeAll_distinct _))).mpr fun (extent, key) => ?_
    exact (mem_rangeEdits each distinct member ranges).trans
      (mem_rangeEdits single (List.nodup_singleton _) isSingle ranges).symm
  have filled : ∀ edit ∈ rangeEdits (textsOf analysed) all template.text extents, edit.1.start < edit.1.stop := by
    rintro ⟨extent, key⟩ isEdit
    obtain ⟨isRange, -⟩ := (mem_rangeEdits each distinct member ranges).mp isEdit
    exact (ranges.inside extent (mem_rangesOf.mp isRange).1).1
  obtain ⟨sorted, sorts, ordered⟩ := exists_sorted filled (rangeEdits_apart all ranges _ (mergeAll_distinct _))
  have same := (ofEdits_sorted template.source template.text filled sorts ordered).trans
    (ofEdits_sorted template.source template.text (fun edit isEdit => filled edit (perm.mem_iff.mpr isEdit))
      (sorts.trans perm) ordered).symm
  rw [← texts, get?_changes all each distinct member ranges,
    get?_changes all single (List.nodup_singleton _) isSingle ranges]
  cases edits : rangeEdits (textsOf analysed) all template.text extents with
  | nil =>
    rw [edits] at perm
    rw [List.nil_perm.mp perm]
  | cons edit rest =>
    rw [edits] at perm same
    cases edits' : rangeEdits (textsOf [(template, findings)]) all template.text extents with
    | nil => rw [edits'] at perm; exact absurd (List.perm_nil.mp perm) (List.cons_ne_nil _ _)
    | cons edit' rest' =>
      rw [edits'] at same
      exact congrArg (fun edits => some (ChangeSet.mk template.source edits)) same

/-- A template whose changes are the same in two collections of them comes to the same text with either. -/
theorem renderChanges_single {changes changes' : List (String × ChangeSet)} {templates : List Template}
    {rendered : List (String × Text)} (distinct : (templates.map Template.source).Nodup)
    (isTemplate : template ∈ templates)
    (same : Members.get? changes template.source = Members.get? changes' template.source)
    (done : renderChanges templates changes helper = .ok rendered) :
    ∃ alone, renderChanges [template] changes' helper = .ok alone ∧
      Members.get? rendered template.source = Members.get? alone template.source := by
  rcases renderChanges_runs changes helper distinct with ⟨rendered', done', ok⟩ | ⟨_, _, _, _, _, _, failed⟩
  · obtain rfl := Except.ok.inj (done'.symm.trans done)
    cases found : Members.get? changes template.source with
    | none =>
      refine ⟨[], ?_, Members.get?_eq_none fun isIn => ?_⟩
      · rw [same] at found
        simp only [renderChanges, List.foldlM_cons, found]
        rfl
      · obtain ⟨⟨source, contents⟩, isRendered, rfl⟩ := List.mem_map.mp isIn
        obtain ⟨other, -, set, isSource, found', -⟩ := (ok.mem_iff _ _).mp isRendered
        rw [isSource, found] at found'
        cases found'
    | some set =>
      obtain ⟨contents, applied⟩ := ok.applied isTemplate found
      have isRendered := (ok.mem_iff template.source contents).mpr ⟨template, isTemplate, set, rfl, found, applied⟩
      refine ⟨[(template.source, contents)], ?_, ?_⟩
      · rw [same] at found
        exact (congrArg (· >>= fun rendered => .ok rendered) (renderInto_changed [] found applied)).trans rfl
      · rw [Members.get?_of_mem (ok.sublist.nodup distinct) isRendered, Members.get?_cons_self]
  · cases failed.symm.trans done

/-- Where a whole theme is rendered, every template comes to the text that it comes to by itself. -/
theorem renderChanges_alone (helper' : Text) (each : ∀ pair ∈ analysed, Analysed helper pair.1 pair.2)
    (distinct : (analysed.map fun pair => pair.1.source).Nodup) (member : (template, findings) ∈ analysed)
    {rendered : List (String × Text)}
    (done : renderChanges (analysed.map Prod.fst) ((textsOf analysed).changes all) helper' = .ok rendered) :
    ∃ alone, renderChanges [template] (findings.texts.changes all) helper' = .ok alone ∧
      Members.get? rendered template.source = Members.get? alone template.source := by
  refine renderChanges_single ?_ (List.mem_map.mpr ⟨_, member, rfl⟩) (changes_alone all each distinct member) done
  rw [List.map_map]
  exact distinct

end Phrasebook
