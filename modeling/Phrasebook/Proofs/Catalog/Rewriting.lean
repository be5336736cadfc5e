import Phrasebook.Proofs.Catalog.RoundTrip
import Phrasebook.Proofs.Json.Soundness

/-!
# Catalogs written again

The file of a catalog shows a layout of which every blank may stand in JSON, however the file is laid out.
Writing the catalog in this layout keeps its entries, but it puts breaks in for the newlines of the step as
well. `serialize_settles_iff` says for which files a second writing gives the text of the first.
-/

namespace Phrasebook

/-! ### The layout of a file -/

theorem dropWhile_of_skip {text rest : CodePoints} {c : CodePoint} (shown : Json.skip text = c :: rest)
    (solid : CodePoint.isBlank c = false) : text.dropWhile CodePoint.isBlank = c :: rest := by
  have parts : text.takeWhile Json.isSpace ++ c :: rest = text := by
    rw [← shown]
    exact List.takeWhile_append_dropWhile
  have blanks : ∀ d ∈ text.takeWhile Json.isSpace, CodePoint.isBlank d = true :=
    fun d member => isBlank_of_isSpace (List.mem_takeWhile_imp member)
  rw [← parts, List.dropWhile_append_of_pos blanks, List.dropWhile_cons_of_neg (by simp [solid])]

/-- A file with a bracket in front and a name or a bracket behind it shows a layout. -/
theorem CatalogFormat.detect_legible {contents rest after : CodePoints} {c : CodePoint}
    (opened : Json.skip contents = .char '{' :: rest) (shown : Json.skip rest = c :: after)
    (solid : CodePoint.isBlank c = false) : (detect contents).Legible := by
  have noFeed : c ≠ '\n' := by
    rintro rfl
    exact absurd solid (by decide)
  have noReturn : c ≠ '\r' := by
    rintro rfl
    exact absurd solid (by decide)
  have stripped := dropWhile_of_skip opened (by decide)
  have parts : rest.takeWhile Json.isSpace ++ c :: after = rest := by
    rw [← shown]
    exact List.takeWhile_append_dropWhile
  have spaces : ∀ d ∈ rest.takeWhile Json.isSpace, Json.isSpace d = true := fun d => List.mem_takeWhile_imp
  obtain ⟨step, blanks, isBreaks, noBreak⟩ := breaks_split (rest.takeWhile Json.isSpace)
  generalize breaks (rest.takeWhile Json.isSpace) = newline at blanks isBreaks
  rw [blanks] at parts spaces
  have isStep : ∀ d ∈ step, Json.isSpace d = true := fun d member => spaces d (List.mem_append_right _ member)
  by_cases someBreak : newline = []
  · -- Without a break behind the bracket the layout is the one of files that do not show any.
    have unshown : layout? contents = none := by
      unfold layout?
      rw [stripped, ← parts, someBreak, List.nil_append]
      exact if_neg fun h => h.2 (breaks_step noBreak noFeed noReturn after)
    simp only [detect, unshown, Option.getD_none]
    exact ⟨.feed .nil, List.cons_ne_nil _ _, by simp [Json.isSpace], rfl⟩
  · rw [← parts, List.append_assoc] at stripped
    have layout := layout?_opened isBreaks someBreak (fun d member => isBlank_of_isSpace (isStep d member))
      noBreak solid stripped
    simp only [detect, layout, Option.getD_some]
    exact ⟨isBreaks, someBreak, isStep, noBreak⟩

/-! ### Reading what was written -/

namespace Catalog

variable {locale path : String} {contents : CodePoints} {catalog : Catalog}

theorem parse_ok (parsed : parse locale contents path = .ok catalog) :
    Json.read contents = .ok (.object catalog.entries) ∧
      catalog = ⟨locale, catalog.entries, some (.detect contents)⟩ := by
  unfold parse at parsed
  split at parsed
  · next entries read =>
    obtain rfl := Except.ok.inj parsed
    exact ⟨read, rfl⟩
  · cases parsed
  · cases parsed
  · cases parsed

theorem parse_legible (parsed : parse locale contents path = .ok catalog) :
    (CatalogFormat.detect contents).Legible := by
  obtain ⟨rest, c, after, opened, shown, isName⟩ := Json.read_object (parse_ok parsed).1
  refine CatalogFormat.detect_legible opened shown ?_
  rcases isName with rfl | rfl <;> rfl

end Catalog

namespace CatalogFormat

/-- The text of entries in a layout. -/
def text (format : CatalogFormat) (entries : List (CodePoints × Json)) : CodePoints :=
  Json.laidOut format.newline format.indentation 0 (.object entries) ++ format.ending

/-- The layout that a text shows which is written in a layout. -/
def reread (format : CatalogFormat) : CatalogFormat :=
  { format with indentation := Json.withBreaks format.newline format.indentation }

theorem Legible.detect_text {format : CatalogFormat} (legible : format.Legible) {entries : List (CodePoints × Json)}
    (filled : entries ≠ []) : detect (format.text entries) = format.reread := by
  obtain ⟨⟨name, value⟩, members, rfl⟩ := List.exists_cons_of_ne_nil filled
  exact legible.detect_written name value members

/-- Plain entries are read back from their text, in whatever layout a file shows. -/
theorem Legible.parse_text {format : CatalogFormat} (legible : format.Legible) {entries : List (CodePoints × Json)}
    (plain : Json.Plain (.object entries)) (locale path : String) :
    Catalog.parse locale (format.text entries) path =
      .ok ⟨locale, entries, some (detect (format.text entries))⟩ := by
  have read : Json.read (format.text entries) = .ok (.object entries) :=
    Json.read_laidOut legible.isBreak legible.isStep plain legible.isEnding
  simp only [Catalog.parse, read]

end CatalogFormat

/-! ### Writing twice -/

namespace Json

theorem withBreaks_newline (text : CodePoints) : withBreaks ['\n'] text = text := by
  induction text with
  | nil => rfl
  | cons c rest ih =>
    rw [withBreaks_cons, ih]
    by_cases same : c = '\n'
    · rw [if_pos same, same, List.singleton_append]
    · rw [if_neg same, List.singleton_append]

theorem length_le_withBreaks {newline : CodePoints} (someBreak : newline ≠ []) (text : CodePoints) :
    text.length ≤ (withBreaks newline text).length := by
  have positive : 0 < newline.length := List.length_pos_iff.mpr someBreak
  induction text with
  | nil => exact Nat.zero_le _
  | cons c rest ih =>
    rw [withBreaks_cons, List.length_append, List.length_cons]
    split <;> simp <;> omega

/-- Breaks of several characters make a text with a newline longer. -/
theorem length_lt_withBreaks {newline text : CodePoints} (long : 1 < newline.length) (member : .char '\n' ∈ text) :
    text.length < (withBreaks newline text).length := by
  obtain ⟨before, after, rfl⟩ := List.append_of_mem member
  have someBreak : newline ≠ [] := by
    rintro rfl
    simp at long
  have first := length_le_withBreaks someBreak before
  have second := length_le_withBreaks someBreak after
  rw [withBreaks_append, withBreaks_cons, if_pos rfl]
  simp only [List.length_append, List.length_cons]
  omega

end Json

theorem IsBreaks.newline_mem {newline : CodePoints} (isBreaks : IsBreaks newline) (someBreak : newline ≠ []) :
    .char '\n' ∈ newline := by
  cases isBreaks with
  | nil => exact absurd rfl someBreak
  | feed _ => exact List.mem_cons_self
  | pair _ => exact List.mem_cons_of_mem _ List.mem_cons_self

/-- Breaks other than a single newline have several characters. -/
theorem IsBreaks.long {newline : CodePoints} (isBreaks : IsBreaks newline) (someBreak : newline ≠ [])
    (other : newline ≠ [.char '\n']) : 1 < newline.length := by
  cases isBreaks with
  | nil => exact absurd rfl someBreak
  | feed rest =>
    cases rest with
    | nil => exact absurd rfl other
    | feed _ | pair _ => simp
  | pair _ => simp

/-- Breaks can be put in for the newlines of the step without changing it. -/
def CatalogFormat.Settled (format : CatalogFormat) : Prop :=
  format.newline = [.char '\n'] ∨ .char '\n' ∉ format.indentation

namespace CatalogFormat.Legible

variable {format : CatalogFormat} (legible : format.Legible)
include legible

theorem reread_eq_iff : format.reread = format ↔ format.Settled := by
  have iff : format.reread = format ↔ Json.withBreaks format.newline format.indentation = format.indentation :=
    ⟨fun same => congrArg indentation same, fun same => by rw [reread, same]⟩
  rw [iff]
  constructor
  · intro same
    by_contra unsettled
    obtain ⟨other, member⟩ := not_or.mp unsettled
    have longer := Json.length_lt_withBreaks (legible.isBreaks.long legible.someBreak other) (not_not.mp member)
    rw [same] at longer
    exact Nat.lt_irrefl _ longer
  · rintro (single | absent)
    · rw [single, Json.withBreaks_newline]
    · exact Json.withBreaks_of_not_mem absent format.newline

theorem reread_settled : format.reread.Settled ↔ format.Settled := by
  refine or_congr_right (not_congr ⟨fun member => ?_, fun member => ?_⟩)
  · by_contra absent
    rw [reread, Json.withBreaks_of_not_mem absent] at member
    exact absent member
  · refine List.mem_flatMap.mpr ⟨'\n', member, ?_⟩
    rw [if_pos rfl]
    exact legible.isBreaks.newline_mem legible.someBreak

end CatalogFormat.Legible

/-- The catalog of a file is written in the same way again exactly if the breaks of the file are single
newlines or its step has no newline. The text first written settles exactly if the file does, so where the
second text differs, every further writing changes the file again. -/
theorem Catalog.serialize_settles_iff {locale path : String} {contents : CodePoints} {catalog : Catalog}
    (parsed : parse locale contents path = .ok catalog) (filled : catalog.entries ≠ [])
    (free : Json.FloatFree (.object catalog.entries)) :
    ∃ first again second, catalog.serialize = .ok first ∧ parse locale first path = .ok again ∧
      again.entries = catalog.entries ∧ again.serialize = .ok second ∧
      (second = first ↔ (CatalogFormat.detect contents).Settled) ∧
      ((CatalogFormat.detect first).Settled ↔ (CatalogFormat.detect contents).Settled) := by
  obtain ⟨read, same⟩ := parse_ok parsed
  have legible := parse_legible parsed
  have plain := Json.read_plain read free
  generalize catalog.entries = entries at *
  subst same
  generalize CatalogFormat.detect contents = format at *
  have again := legible.parse_text plain locale path
  have legible' := parse_legible again
  rw [legible.detect_text filled] at again legible'
  refine ⟨format.text entries, _, format.reread.text entries, serialize_laidOut rfl, again, rfl,
    serialize_laidOut rfl, ?_, ?_⟩
  · constructor
    · intro equal
      -- A text shows its layout, so the layout did not change when the catalog was written again.
      have kept : format.reread.reread = format.reread := by
        rw [← legible'.detect_text filled, equal, legible.detect_text filled]
      exact legible.reread_settled.mp (legible'.reread_eq_iff.mp kept)
    · intro settled
      rw [legible.reread_eq_iff.mpr settled]
  · rw [legible.detect_text filled]
    exact legible.reread_settled

/-- A line of one blank behind the bracket, in a file whose lines end with two characters. -/
theorem Catalog.serialize_settles_iff_blank :
    let contents : CodePoints := ['{', '\r', '\n', ' ', '\r', '\n', '"', 'a', '"', ':', '"', '"', '}']
    let catalog : Catalog := ⟨"en", [(['a'], .string [])], some ⟨['\r', '\n'], [' ', '\r', '\n'], false⟩⟩
    parse "en" contents "en.json" = .ok catalog ∧ catalog.entries ≠ [] ∧ Json.FloatFree (.object catalog.entries) ∧
      ∃ first again second, catalog.serialize = .ok first ∧ parse "en" first "en.json" = .ok again ∧
        again.serialize = .ok second ∧ second ≠ first := by
  intro contents catalog
  have parsed : parse "en" contents "en.json" = .ok catalog := by cbv
  have filled : catalog.entries ≠ [] := List.cons_ne_nil _ _
  have free : Json.FloatFree (.object catalog.entries) := ⟨trivial, trivial, trivial⟩
  obtain ⟨first, again, second, written, reread, -, rewritten, settles, -⟩ := serialize_settles_iff parsed filled free
  refine ⟨parsed, filled, free, first, again, second, written, reread, rewritten, fun same => ?_⟩
  have settled := settles.mp same
  have layout : CatalogFormat.detect contents = ⟨['\r', '\n'], [' ', '\r', '\n'], false⟩ := by cbv
  rw [layout] at settled
  simp [CatalogFormat.Settled] at settled

end Phrasebook
