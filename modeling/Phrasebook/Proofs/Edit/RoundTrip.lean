import Phrasebook.Proofs.Edit.Reread

/-!
# Templates after an update

Templates whose texts were put into calls of the helper are analysed again: `renderChanges_reread` says that none of
these texts is left, and that they have become keys.
-/

namespace Phrasebook

open Template Extract ChangeSet Mask Markup Text

namespace Extract

/-! ### Findings of several templates -/

theorem Texts.mem_names_merge {texts more : Texts} {key : Text} :
    key ∈ Members.names (texts.merge more) ↔ key ∈ Members.names texts ∨ key ∈ Members.names more := by
  unfold Texts.merge
  induction more generalizing texts with
  | nil => simp [Members.names]
  | cons entry rest ih =>
    obtain ⟨first, places⟩ := entry
    rw [List.foldl_cons, @ih (texts.add first places), Texts.add, Members.mem_names_alter_iff, or_assoc]
    exact or_congr_right List.mem_cons.symm

theorem Keys.mem_names_merge {keys more : Keys} {key : Text} :
    key ∈ Members.names (keys.merge more) ↔ key ∈ Members.names keys ∨ key ∈ Members.names more := by
  unfold Keys.merge
  induction more generalizing keys with
  | nil => simp [Members.names]
  | cons entry rest ih =>
    obtain ⟨first, use⟩ := entry
    rw [List.foldl_cons, @ih (keys.add first use.parameters use.sites), Keys.add, Members.mem_names_alter_iff, or_assoc]
    exact or_congr_right List.mem_cons.symm

theorem mem_mergeAll {found : List Findings} {key : Text} :
    (key ∈ Members.names (mergeAll found).texts ↔ ∃ findings ∈ found, key ∈ Members.names findings.texts) ∧
      (key ∈ Members.names (mergeAll found).keys ↔ ∃ findings ∈ found, key ∈ Members.names findings.keys) := by
  have general (start : Findings) :
      (key ∈ Members.names (found.foldl Findings.merge start).texts ↔
        key ∈ Members.names start.texts ∨ ∃ findings ∈ found, key ∈ Members.names findings.texts) ∧
      (key ∈ Members.names (found.foldl Findings.merge start).keys ↔
        key ∈ Members.names start.keys ∨ ∃ findings ∈ found, key ∈ Members.names findings.keys) := by
    induction found generalizing start with
    | nil => simp
    | cons findings rest ih =>
      obtain ⟨texts, keys⟩ := ih (start.merge findings)
      rw [List.foldl_cons, texts, keys, Findings.merge, Texts.mem_names_merge, Keys.mem_names_merge]
      simp only [List.exists_mem_cons_iff, or_assoc, and_self]
  simpa [mergeAll, Findings.empty, Members.names] using general .empty

theorem mem_translatable_mergeAll {found : List Findings} {all : Bool} {key : Text} :
    key ∈ (mergeAll found).texts.translatable all ↔ ∃ findings ∈ found, key ∈ findings.texts.translatable all := by
  simp only [Texts.mem_translatable, mem_mergeAll.1, ← and_assoc, exists_and_right]

/-- What holds of the findings of each template holds of all of them together. -/
theorem Findings.BecomeKeys.mergeAll {all : Bool} {before after : List Findings}
    (each : List.Forall₂ (Findings.BecomeKeys all) before after) :
    (mergeAll before).BecomeKeys all (mergeAll after) := by
  constructor
  · refine List.eq_nil_iff_forall_not_mem.mpr fun key member => ?_
    obtain ⟨findings, isAfter, here⟩ := mem_translatable_mergeAll.mp member
    induction each with
    | nil => cases isAfter
    | cons first _ ih =>
      rcases List.mem_cons.mp isAfter with rfl | later
      · rw [first.left] at here
        cases here
      · exact ih (mem_translatable_mergeAll.mpr ⟨findings, later, here⟩) later
  · intro key
    rw [mem_mergeAll.2, mem_mergeAll.2, mem_translatable_mergeAll]
    induction each with
    | nil => simp
    | cons first _ ih =>
      simp only [List.exists_mem_cons_iff, first.keys key, ih]
      exact or_or_or_comm

end Extract

/-! ### Templates -/

/-- A template whose new text is known is analysed again, and its texts have become keys. -/
structure Reanalysed (helper : Text) (all : Bool) (rendered : List (String × Text))
    (before after : Template × Findings) : Prop where
  source : after.1.source = before.1.source
  text : after.1.text = (Members.get? rendered before.1.source).getD before.1.text
  analysed : Analysed helper after.1 after.2
  becomeKeys : before.2.BecomeKeys all after.2

section

variable {helper : Text} {all : Bool} {analysed : List (Template × Findings)} {rendered : List (String × Text)}
  {template : Template} {findings : Findings}

/-- The new texts are those of the templates with edits, each with all of its edits replaced. -/
theorem Rendered.text {edits : List (Extent × Text)}
    (h : Rendered ((textsOf analysed).changes all) helper (analysed.map Prod.fst) rendered)
    (distinct : (analysed.map fun pair => pair.1.source).Nodup) (member : template ∈ analysed.map Prod.fst)
    (applies : Applies ((textsOf analysed).changes all) helper template edits) :
    (Members.get? rendered template.source).getD template.text =
      template.text.substitute 0 template.text.length (edits.map (wrapped helper)) := by
  have sources : ((analysed.map Prod.fst).map Template.source).Nodup := by
    rw [List.map_map]
    exact distinct
  cases found : Members.get? ((textsOf analysed).changes all) template.source with
  | none =>
    have absent : template.source ∉ Members.names rendered := by
      intro isName
      obtain ⟨⟨source, contents⟩, isRendered, rfl⟩ := List.mem_map.mp isName
      obtain ⟨other, -, set, same, found', -⟩ := (h.mem_iff _ _).mp isRendered
      rw [same, found] at found'
      cases found'
    have empty : edits = [] := by
      by_contra filled
      obtain ⟨set, found'⟩ := applies.filled_iff.mp filled
      rw [found] at found'
      cases found'
    rw [Members.get?_eq_none absent, empty]
    exact (slice_zero_length template.text).symm
  | some set =>
    obtain ⟨contents, applied⟩ := h.applied member found
    have isRendered := (h.mem_iff template.source contents).mpr ⟨template, member, set, rfl, found, applied⟩
    rw [Members.get?_of_mem (h.sublist.nodup sources) isRendered]
    exact (applies.contents found applied).2

theorem exists_reanalysed (isName : IsName helper) (helperOrdinary : ∀ c ∈ helper, isReserved c = false)
    (each : ∀ pair ∈ analysed, Analysed helper pair.1 pair.2)
    (distinct : (analysed.map fun pair => pair.1.source).Nodup) (member : (template, findings) ∈ analysed)
    (rereadable : findings.texts.translatable all ≠ [] → Rereadable all template findings)
    (h : Rendered ((textsOf analysed).changes all) helper (analysed.map Prod.fst) rendered) :
    ∃ after, Reanalysed helper all rendered (template, findings) after := by
  have isTemplate : template ∈ analysed.map Prod.fst := List.mem_map_of_mem member
  obtain ⟨tree, runs, from_⟩ := (each _ member).reading
  obtain ⟨edits, editsOf, applies⟩ := template_edits all each distinct isTemplate
  have text := h.text distinct isTemplate applies
  rw [editsOf.unique (editsOf_parts each distinct member from_)] at text
  by_cases noneChosen : findings.texts.translatable all = []
  · -- A template without such texts is as before.
    have empty : partEdits all (partsOf runs) = [] := by
      refine List.eq_nil_iff_forall_not_mem.mpr fun edit isEdit => ?_
      have isText := from_.edits_texts.mp ⟨edit, isEdit, rfl⟩
      rw [noneChosen] at isText
      cases isText
    refine ⟨(template, findings), rfl, ?_, each _ member, noneChosen, fun key => ?_⟩
    · rw [text, empty]
      exact (slice_zero_length template.text).symm
    · simp [noneChosen]
  · obtain ⟨after, found, source, isText, reanalysed, becomeKeys⟩ :=
      from_.reread isName helperOrdinary (rereadable noneChosen)
    exact ⟨(after, found), source, isText.trans text.symm, reanalysed, becomeKeys⟩

/-- Templates whose texts were put into calls of the helper are analysed again. None of these texts is left, and they
have become keys. -/
theorem renderChanges_reread (isName : IsName helper) (helperOrdinary : ∀ c ∈ helper, isReserved c = false)
    (each : ∀ pair ∈ analysed, Analysed helper pair.1 pair.2)
    (distinct : (analysed.map fun pair => pair.1.source).Nodup)
    (rereadable : ∀ pair ∈ analysed, pair.2.texts.translatable all ≠ [] → Rereadable all pair.1 pair.2)
    (done : renderChanges (analysed.map Prod.fst) ((textsOf analysed).changes all) helper = .ok rendered) :
    ∃ reanalysed, List.Forall₂ (Reanalysed helper all rendered) analysed reanalysed ∧
      (mergeAll (analysed.map Prod.snd)).BecomeKeys all (mergeAll (reanalysed.map Prod.snd)) := by
  have sources : ((analysed.map Prod.fst).map Template.source).Nodup := by
    rw [List.map_map]
    exact distinct
  obtain ⟨rendered', done', h⟩ | ⟨_, _, _, _, _, _, failed⟩ :=
    renderChanges_runs ((textsOf analysed).changes all) helper sources
  · obtain rfl := Except.ok.inj (done'.symm.trans done)
    have exists_ : ∀ pair ∈ analysed, ∃ after, Reanalysed helper all rendered' pair after := fun pair isPair =>
      exists_reanalysed isName helperOrdinary each distinct isPair (rereadable pair isPair) h
    obtain ⟨reanalysed, forall_⟩ := exists_forall₂ exists_
    refine ⟨reanalysed, forall_, .mergeAll ?_⟩
    rw [List.forall₂_map_left_iff, List.forall₂_map_right_iff]
    exact forall_.imp fun _ _ => Reanalysed.becomeKeys
  · rw [failed] at done
    cases done

end

end Phrasebook
