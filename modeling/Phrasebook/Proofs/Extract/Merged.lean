import Phrasebook.Proofs.Extract.Recorded

/-!
# Findings of several templates

Merging keeps the places of every text in the order of the templates, so the places of one source are
those that its own analysis recorded.
-/

namespace Phrasebook

namespace Extract

open Template

theorem Texts.nodup_merge {texts : Texts} (distinct : (Members.names texts).Nodup) (more : Texts) :
    (Members.names (texts.merge more)).Nodup := by
  unfold Texts.merge
  induction more generalizing texts with
  | nil => exact distinct
  | cons entry rest ih => exact ih (Members.nodup_names_alter distinct _ _)

theorem Texts.get?_merge (texts : Texts) {more : Texts} (distinct : (Members.names more).Nodup)
    (key : Text) :
    (Members.get? (texts.merge more) key).getD [] =
      (Members.get? texts key).getD [] ++ (Members.get? more key).getD [] := by
  unfold Texts.merge
  induction more generalizing texts with
  | nil => simp [Members.get?]
  | cons entry rest ih =>
    obtain ⟨first, places⟩ := entry
    obtain ⟨fresh, tail⟩ := List.nodup_cons.mp distinct
    rw [List.foldl_cons, ih (texts.add first places) tail, Texts.add]
    by_cases same : first = key
    · subst same
      rw [Members.get?_alter_self, Members.get?_cons_self, Members.get?_eq_none fresh]
      simp
    · rw [Members.get?_alter_of_ne _ same, Members.get?_cons_of_ne _ same]

/-- The findings of several templates, merged in order. -/
def mergeAll (found : List Findings) : Findings := found.foldl Findings.merge .empty

theorem mergeAll_texts (found : List Findings) :
    (mergeAll found).texts = (found.map Findings.texts).foldl Texts.merge [] := by
  have general (start : Findings) : (found.foldl Findings.merge start).texts =
      (found.map Findings.texts).foldl Texts.merge start.texts := by
    induction found generalizing start with
    | nil => rfl
    | cons findings rest ih =>
      rw [List.foldl_cons, ih]
      rfl
  exact general .empty

theorem mergeAll_distinct (found : List Findings) :
    (Members.names (mergeAll found).texts).Nodup := by
  rw [mergeAll_texts]
  have general (start : Texts) (distinct : (Members.names start).Nodup) :
      (Members.names ((found.map Findings.texts).foldl Texts.merge start)).Nodup := by
    induction found generalizing start with
    | nil => exact distinct
    | cons findings rest ih => exact ih _ (Texts.nodup_merge distinct findings.texts)
  exact general [] List.nodup_nil

theorem mergeAll_places {found : List Findings}
    (distinct : ∀ findings ∈ found, (Members.names findings.texts).Nodup) (key : Text) :
    (Members.get? (mergeAll found).texts key).getD [] =
      found.flatMap fun findings => (Members.get? findings.texts key).getD [] := by
  rw [mergeAll_texts]
  have general (start : Texts) :
      (Members.get? ((found.map Findings.texts).foldl Texts.merge start) key).getD [] =
        (Members.get? start key).getD [] ++
          found.flatMap fun findings => (Members.get? findings.texts key).getD [] := by
    induction found generalizing start with
    | nil => simp
    | cons findings rest ih =>
      obtain ⟨here, later⟩ := List.forall_mem_cons.mp distinct
      rw [List.map_cons, List.foldl_cons, ih later, Texts.get?_merge start here key]
      simp
  simpa [Members.get?] using general []

/-! ### Templates that were analysed -/

/-- A template that was read, with the findings of its analysis. -/
def Analysed (helper : Text) (template : Template) (findings : Findings) : Prop :=
  Template.load template.source template.text = .ok template ∧
    ∃ visits, (analyseTemplate template helper defaultAims).result = .ok (findings, visits)

theorem load_eq {source : String} {text : Text} {template : Template}
    (loaded : Template.load source text = .ok template) :
    template.source = source ∧ template.text = text := by
  obtain ⟨tree, -, rfl⟩ := load_parsed loaded
  exact ⟨rfl, rfl⟩

theorem Analysed.of_load {helper : Text} {source : String} {text : Text} {template : Template}
    {found : Findings × Visits} (loaded : Template.load source text = .ok template)
    (done : (analyseTemplate template helper defaultAims).result = .ok found) :
    Analysed helper template found.1 := by
  obtain ⟨isSource, isText⟩ := load_eq loaded
  refine ⟨?_, found.2, done⟩
  rw [isSource, isText]
  exact loaded

/-- The ranges of a template whose texts an analysis records. -/
structure RangesFound (template : Template) (findings : Findings) (extents : List Extent) :
    Prop where
  recorded : Recorded template.source template.text extents findings.texts
  ordered : extents.Pairwise fun first second => first.stop ≤ second.start
  inside : ∀ extent ∈ extents, extent.start < extent.stop ∧ extent.stop ≤ template.text.length

theorem Analysed.ranges {helper : Text} {template : Template} {findings : Findings}
    (h : Analysed helper template findings) : ∃ extents, RangesFound template findings extents := by
  obtain ⟨loaded, visits, done⟩ := h
  obtain ⟨tree, parsed, eq⟩ := load_parsed loaded
  rw [eq] at done
  obtain ⟨-, ordinary, runs, read, recorded⟩ := analyse_recorded parsed (by decide) done
  have tiles := parse_tilesFrom parsed
  refine ⟨_, recorded, textExtents_inOrder ordinary tiles read, fun extent member => ?_⟩
  obtain ⟨filled, ⟨content, isTile, -, upper⟩, -⟩ := textExtents_content ordinary tiles read member
  obtain ⟨_, _, placed⟩ := tiles.tiles_at _ isTile
  exact ⟨filled, Nat.le_trans upper placed.bounded⟩

theorem RangesFound.places {template : Template} {findings : Findings} {extents : List Extent}
    (h : RangesFound template findings extents) (key : Text) :
    (Members.get? findings.texts key).getD [] =
      (rangesOf template.text extents key).map fun extent =>
        ⟨template.source, template.text.span extent⟩ :=
  h.recorded.places key

/-- Among the places of a text in several templates those of one template are its own. -/
theorem places_of_source {helper : Text} {analysed : List (Template × Findings)}
    (each : ∀ pair ∈ analysed, Analysed helper pair.1 pair.2)
    (distinct : (analysed.map fun pair => pair.1.source).Nodup) {template : Template}
    {findings : Findings} (member : (template, findings) ∈ analysed) (key : Text) :
    ((Members.get? (mergeAll (analysed.map Prod.snd)).texts key).getD []).filter
        (fun place => place.source == template.source) =
      (Members.get? findings.texts key).getD [] := by
  have nodup : ∀ findings ∈ analysed.map Prod.snd, (Members.names findings.texts).Nodup := by
    intro findings isFound
    obtain ⟨pair, isPair, rfl⟩ := List.mem_map.mp isFound
    obtain ⟨extents, ranges⟩ := (each pair isPair).ranges
    exact ranges.recorded.distinct
  rw [mergeAll_places nodup, List.flatMap_map, List.filter_flatMap]
  have own : ∀ pair ∈ analysed,
      ((Members.get? pair.2.texts key).getD []).filter (fun place => place.source == template.source) =
        if pair.1.source = template.source then (Members.get? pair.2.texts key).getD [] else [] := by
    intro pair isPair
    obtain ⟨extents, ranges⟩ := (each pair isPair).ranges
    rw [ranges.places, List.filter_map]
    by_cases same : pair.1.source = template.source
    · simp [same, Function.comp_def]
    · simp [same, Function.comp_def]
  induction analysed with
  | nil => simp at member
  | cons pair rest ih =>
    obtain ⟨fresh, tail⟩ := List.nodup_cons.mp distinct
    have restEach : ∀ pair ∈ rest, Analysed helper pair.1 pair.2 :=
      fun other isOther => each other (List.mem_cons_of_mem _ isOther)
    have restNodup : ∀ findings ∈ rest.map Prod.snd, (Members.names findings.texts).Nodup :=
      fun findings isFound => nodup findings (List.mem_cons_of_mem _ isFound)
    have restOwn := fun other (isOther : other ∈ rest) => own other (List.mem_cons_of_mem _ isOther)
    rw [List.flatMap_cons, own pair List.mem_cons_self]
    rcases List.mem_cons.mp member with rfl | later
    · -- No template behind this one has its source.
      have others : rest.flatMap (fun pair => ((Members.get? pair.2.texts key).getD []).filter
          fun place => place.source == template.source) = [] := by
        rw [List.flatMap_eq_nil_iff]
        intro other isOther
        rw [restOwn other isOther, if_neg]
        exact fun same => fresh (List.mem_map.mpr ⟨other, isOther, same⟩)
      rw [others, List.append_nil, if_pos rfl]
    · have apart : pair.1.source ≠ template.source := fun same =>
        fresh (List.mem_map.mpr ⟨_, later, same.symm⟩)
      rw [if_neg apart, List.nil_append, ih restEach tail later restNodup restOwn]

end Extract

end Phrasebook
