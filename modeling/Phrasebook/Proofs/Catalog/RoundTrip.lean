import Phrasebook.Catalog.Basic
import Phrasebook.Proofs.Json.Written

/-!
# Catalogs read back

What `Catalog.serialize` writes is read back as the same catalog: the text shows its own layout behind
the first bracket, and the layout is put in between the values only. So a text that was written once is
written the same way again.
-/

namespace Phrasebook

/-! ### The layout that a text shows -/

/-- A run of line breaks of either kind. -/
inductive IsBreaks : CodePoints → Prop where
  | nil : IsBreaks []
  | feed {rest : CodePoints} : IsBreaks rest → IsBreaks (.char '\n' :: rest)
  | pair {rest : CodePoints} : IsBreaks rest → IsBreaks (.char '\r' :: .char '\n' :: rest)

theorem IsBreaks.mem {newline : CodePoints} (isBreaks : IsBreaks newline) : ∀ c ∈ newline, c = '\n' ∨ c = '\r' := by
  induction isBreaks with
  | nil => simp
  | feed _ ih => simpa using ih
  | pair _ ih => simpa using ih

namespace CatalogFormat

theorem breaks_append {newline : CodePoints} (isBreaks : IsBreaks newline) (rest : CodePoints) :
    breaks (newline ++ rest) = newline ++ breaks rest := by
  induction isBreaks with
  | nil => rfl
  | feed _ ih => rw [List.cons_append, breaks, ih, List.cons_append]
  | pair _ ih => rw [List.cons_append, List.cons_append, breaks, ih, List.cons_append, List.cons_append]

/-- A text is its first breaks and a rest that starts with none. -/
theorem breaks_split (text : CodePoints) :
    ∃ rest, text = breaks text ++ rest ∧ IsBreaks (breaks text) ∧ breaks rest = [] := by
  fun_induction breaks text with
  | case1 text ih =>
    obtain ⟨rest, same, isBreaks, ended⟩ := ih
    exact ⟨rest, congrArg (CodePoint.char '\n' :: ·) same, .feed isBreaks, ended⟩
  | case2 text ih =>
    obtain ⟨rest, same, isBreaks, ended⟩ := ih
    exact ⟨rest, congrArg (.char '\r' :: .char '\n' :: ·) same, .pair isBreaks, ended⟩
  | case3 text noFeed noReturn => exact ⟨text, rfl, .nil, breaks.eq_3 text noFeed noReturn⟩

theorem breaks_nil_iff {text : CodePoints} :
    breaks text = [] ↔ (∀ rest, text ≠ .char '\n' :: rest) ∧ ∀ rest, text ≠ .char '\r' :: .char '\n' :: rest := by
  constructor
  · intro ended
    constructor <;> rintro rest rfl <;> simp [breaks] at ended
  · rintro ⟨noFeed, noReturn⟩
    exact breaks.eq_3 text noFeed noReturn

/-- No break starts where blanks without a break at their start are followed by what is no break. -/
theorem breaks_step {step : CodePoints} (noBreak : breaks step = []) {c : CodePoint} (noFeed : c ≠ '\n')
    (noReturn : c ≠ '\r') (rest : CodePoints) : breaks (step ++ c :: rest) = [] := by
  obtain ⟨feedless, pairless⟩ := breaks_nil_iff.mp noBreak
  refine breaks_nil_iff.mpr ⟨fun tail same => ?_, fun tail same => ?_⟩
  · cases step with
    | nil => exact noFeed (List.cons.inj same).1
    | cons d step =>
      obtain ⟨rfl, -⟩ := List.cons.inj same
      exact feedless step rfl
  · match step with
    | [] => exact noReturn (List.cons.inj same).1
    | [d] => exact noFeed (List.cons.inj (List.cons.inj same).2).1
    | d :: e :: step =>
      obtain ⟨rfl, behind⟩ := List.cons.inj same
      obtain ⟨rfl, -⟩ := List.cons.inj behind
      exact pairless step rfl

/-- Breaks put in the place of later newlines make no break at the start. -/
theorem breaks_withBreaks {step : CodePoints} (noBreak : breaks step = []) (newline : CodePoints) :
    breaks (Json.withBreaks newline step) = [] := by
  obtain ⟨feedless, pairless⟩ := breaks_nil_iff.mp noBreak
  match step with
  | [] => rfl
  | [c] =>
    rw [Json.withBreaks_of_not_mem (by simpa using fun same => feedless [] (by rw [same])) newline]
    exact noBreak
  | c :: d :: step =>
    have solid : c ≠ '\n' := fun same => feedless (d :: step) (by rw [same])
    rw [Json.withBreaks_solid solid]
    refine breaks_nil_iff.mpr ⟨fun tail same => solid (List.cons.inj same).1, fun tail same => ?_⟩
    obtain ⟨rfl, behind⟩ := List.cons.inj same
    have later : d ≠ '\n' := fun same => pairless step (by rw [same])
    rw [Json.withBreaks_solid later] at behind
    exact later (List.cons.inj behind).1

/-- The breaks and the step behind the first bracket are the layout. -/
theorem layout?_opened {contents newline step rest : CodePoints} {c : CodePoint} (isBreaks : IsBreaks newline)
    (someBreak : newline ≠ []) (isStep : ∀ c ∈ step, CodePoint.isBlank c = true) (noBreak : breaks step = [])
    (solid : CodePoint.isBlank c = false)
    (opened : contents.dropWhile CodePoint.isBlank = .char '{' :: (newline ++ (step ++ c :: rest))) :
    layout? contents = some (newline, step) := by
  have noFeed : c ≠ '\n' := by
    rintro rfl
    exact absurd solid (by decide)
  have noReturn : c ≠ '\r' := by
    rintro rfl
    exact absurd solid (by decide)
  have shown : breaks (newline ++ (step ++ c :: rest)) = newline := by
    rw [breaks_append isBreaks, breaks_step noBreak noFeed noReturn, List.append_nil]
  have taken : (step ++ c :: rest).takeWhile CodePoint.isBlank = step := by
    rw [List.takeWhile_append_of_pos isStep, List.takeWhile_cons_of_neg (by simp [solid]), List.append_nil]
  unfold layout?
  rw [opened]
  simp only [shown, List.drop_left, taken]
  exact if_pos ⟨.inl trivial, someBreak⟩

end CatalogFormat

/-! ### The text of a catalog -/

namespace Json

variable {newline step : CodePoints}

theorem laidBreak_one (newline step : CodePoints) : laidBreak newline step 1 = newline ++ withBreaks newline step := by
  have one : (indentedStyle step).break 1 = .char '\n' :: step := by simp [Style.break, indentedStyle]
  rw [laidBreak, one, withBreaks_cons, if_pos rfl]

/-- The text of an object shows its layout behind its first bracket. -/
theorem laidOut_opened (newline step name : CodePoints) (value : Json) (members : List (CodePoints × Json)) (after : CodePoints) :
    ∃ rest, laidOut newline step 0 (.object ((name, value) :: members)) ++ after =
      .char '{' :: (newline ++ (withBreaks newline step ++ .char '"' :: rest)) := by
  rw [laidOut_object, Nat.zero_add, laidBreak_one, List.append_assoc]
  exact ⟨_, rfl⟩

theorem laidOut_closed (newline step name : CodePoints) (value : Json) (members : List (CodePoints × Json)) :
    (laidOut newline step 0 (.object ((name, value) :: members))).getLast? = some (.char '}') := by
  have written := @laidOut_object newline step 0 name value members []
  rw [List.append_nil] at written
  simp [written, List.getLast?_cons, List.getLast?_append]

/-- A plain value is the only thing in its text, also with blanks behind it. -/
theorem read_laidOut (isBreak : ∀ c ∈ newline, isSpace c = true) (isStep : ∀ c ∈ step, isSpace c = true)
    {value : Json} (plain : Plain value) {blanks : CodePoints} (isBlank : ∀ c ∈ blanks, isSpace c = true) :
    Json.read (laidOut newline step 0 value ++ blanks) = .ok value := by
  obtain ⟨c, more, same, -, -, notMark⟩ := @laidOut_head newline step 0 value plain
  have noMark : (laidOut newline step 0 value ++ blanks).head? ≠ some (.char '\uFEFF') := by
    rw [same, List.cons_append, List.head?_cons]
    simpa using notMark
  have ended : EndsNumber blanks := by
    rw [← List.append_nil blanks]
    exact endsNumber_blanks isBlank (by simp [EndsNumber])
  obtain ⟨bounded, read⟩ := readValue_laidOut isBreak isStep value plain 0 ended
  have nothing : skip blanks = [] := by
    rw [← List.append_nil blanks, skip_blanks isBlank]
    rfl
  unfold Json.read
  rw [if_neg noMark, skip_laidOut plain, read]
  simp only [bind, Except.bind, nothing]

end Json

/-- What stands behind the last bracket. -/
def CatalogFormat.ending (format : CatalogFormat) : CodePoints :=
  if format.trailingNewline then format.newline else []

/-- A layout that the file of a catalog can show: some breaks, and behind them blanks that do not start
with a break. -/
structure CatalogFormat.Legible (format : CatalogFormat) : Prop where
  isBreaks : IsBreaks format.newline
  someBreak : format.newline ≠ []
  isStep : ∀ c ∈ format.indentation, Json.isSpace c = true
  noBreak : CatalogFormat.breaks format.indentation = []

theorem isBlank_of_isSpace {c : CodePoint} (space : Json.isSpace c = true) : CodePoint.isBlank c = true := by
  rcases Json.isSpace_cases space with rfl | rfl | rfl | rfl <;> rfl

namespace CatalogFormat.Legible

variable {format : CatalogFormat} (legible : format.Legible)
include legible

theorem isBreak : ∀ c ∈ format.newline, Json.isSpace c = true := by
  intro c member
  rcases legible.isBreaks.mem c member with rfl | rfl <;> rfl

theorem isEnding : ∀ c ∈ format.ending, Json.isSpace c = true := by
  intro c member
  unfold ending at member
  split at member
  · exact legible.isBreak c member
  · simp at member

/-- A text that ends with a bracket shows whether a break follows. -/
theorem isSuffixOf_ending {text : CodePoints} (closed : text.getLast? = some (.char '}')) :
    format.newline.isSuffixOf (text ++ format.ending) = format.trailingNewline := by
  unfold ending
  cases format.trailingNewline with
  | true => exact List.isSuffixOf_iff_suffix.mpr (List.suffix_append text format.newline)
  | false =>
    refine Bool.eq_false_iff.mpr fun isSuffix => ?_
    obtain ⟨front, same⟩ := List.isSuffixOf_iff_suffix.mp isSuffix
    rw [if_neg Bool.false_ne_true, List.append_nil] at same
    rw [← same, List.getLast?_append_of_ne_nil _ legible.someBreak] at closed
    rcases legible.isBreaks.mem _ (List.mem_of_getLast? closed) with same | same <;> exact absurd same (by decide)

/-- The layout that the text of a catalog shows: breaks are put in for the newlines of the step too. -/
theorem detect_written (name : CodePoints) (value : Json) (members : List (CodePoints × Json)) :
    detect (Json.laidOut format.newline format.indentation 0 (.object ((name, value) :: members)) ++
      format.ending) =
      { format with indentation := Json.withBreaks format.newline format.indentation } := by
  have isStep : ∀ c ∈ Json.withBreaks format.newline format.indentation, CodePoint.isBlank c = true :=
    fun c member => isBlank_of_isSpace (Json.isSpace_withBreaks legible.isBreak legible.isStep c member)
  have noBreak := breaks_withBreaks legible.noBreak format.newline
  have closed := legible.isSuffixOf_ending (Json.laidOut_closed format.newline format.indentation name value members)
  obtain ⟨rest, opened⟩ :=
    Json.laidOut_opened format.newline format.indentation name value members format.ending
  have stripped : (Json.laidOut format.newline format.indentation 0
      (.object ((name, value) :: members)) ++ format.ending).dropWhile CodePoint.isBlank =
      .char '{' :: (format.newline ++ (Json.withBreaks format.newline format.indentation ++ .char '"' :: rest)) := by
    rw [opened]
    exact List.dropWhile_cons_of_neg (by decide)
  have layout := layout?_opened legible.isBreaks legible.someBreak isStep noBreak (by decide) stripped
  simp only [detect, layout, Option.getD_some, closed]

end CatalogFormat.Legible

/-- A layout that a file can show: some breaks, and blanks of one line as a step. -/
structure CatalogFormat.Shown (format : CatalogFormat) : Prop where
  isBreaks : IsBreaks format.newline
  someBreak : format.newline ≠ []
  isStep : ∀ c ∈ format.indentation, c = ' ' ∨ c = '\t'

namespace CatalogFormat.Shown

variable {format : CatalogFormat} (shown : format.Shown)
include shown

theorem ne_of_step {c : CodePoint} (other : c ≠ ' ' ∧ c ≠ '\t') : c ∉ format.indentation :=
  fun member => (shown.isStep c member).elim other.1 other.2

theorem space_indentation : ∀ c ∈ format.indentation, Json.isSpace c = true := by
  intro c member
  rcases shown.isStep c member with rfl | rfl <;> rfl

theorem legible : format.Legible where
  isBreaks := shown.isBreaks
  someBreak := shown.someBreak
  isStep := shown.space_indentation
  noBreak := by
    refine breaks_nil_iff.mpr ⟨fun rest same => ?_, fun rest same => ?_⟩
    · exact shown.ne_of_step (by decide) (same ▸ List.mem_cons_self)
    · exact shown.ne_of_step (by decide) (same ▸ List.mem_cons_self)

theorem detect_laidOut (name : CodePoints) (value : Json) (members : List (CodePoints × Json)) :
    detect (Json.laidOut format.newline format.indentation 0 (.object ((name, value) :: members)) ++
      format.ending) = format := by
  rw [shown.legible.detect_written, Json.withBreaks_of_not_mem (shown.ne_of_step (by decide))]

end CatalogFormat.Shown

namespace Catalog

theorem serialize_laidOut {catalog : Catalog} {format : CatalogFormat} (known : catalog.format = some format) :
    catalog.serialize = .ok (Json.laidOut format.newline format.indentation 0 (.object catalog.entries) ++
      format.ending) := by
  simp only [serialize, known, Json.laidOut, Json.write, CatalogFormat.ending]
  split <;> simp

/-- Reading undoes writing: a catalog with an entry, plain values and a layout that a file can show is
read back from its text with the same entries and the same layout, and is written the same way again. -/
theorem parse_serialize {catalog : Catalog} {format : CatalogFormat} (known : catalog.format = some format)
    (shown : format.Shown) (filled : catalog.entries ≠ []) (plain : Json.Plain (.object catalog.entries))
    (locale path : String) :
    ∃ contents, catalog.serialize = .ok contents ∧
      parse locale contents path = .ok { catalog with locale } ∧
      ({ catalog with locale } : Catalog).serialize = .ok contents := by
  refine ⟨_, serialize_laidOut known, ?_, serialize_laidOut known⟩
  obtain ⟨⟨name, value⟩, members, entries⟩ := List.exists_cons_of_ne_nil filled
  have read := Json.read_laidOut shown.legible.isBreak shown.space_indentation plain shown.legible.isEnding
  have detected := shown.detect_laidOut name value members
  rw [← entries] at detected
  rw [parse, read]
  simp only [detected, known]

theorem parse_serialize_nested :
    let format : CatalogFormat := ⟨['\r', '\n', '\n'], [' ', '\t'], true⟩
    let inner : Json := .object [([], .array []), (['\\', '\x00'], .object []), (['é'], .array [.null, .int (-10)])]
    let catalog : Catalog := ⟨"fr", [(['"', '\n'], .string ['\r', '\n', '𝄞']), (['a'], inner), (['b'], .bool false)],
      some format⟩
    format.Shown ∧ catalog.entries ≠ [] ∧ Json.Plain (.object catalog.entries) ∧
      ∃ contents, catalog.serialize = .ok contents ∧
        parse "de" contents "de.json" = .ok { catalog with locale := "de" } ∧
        ({ catalog with locale := "de" } : Catalog).serialize = .ok contents := by
  intro format inner catalog
  have shown : format.Shown := ⟨.pair (.feed .nil), List.cons_ne_nil _ _, by simp [format]⟩
  have filled : catalog.entries ≠ [] := List.cons_ne_nil _ _
  have plain : Json.Plain (.object catalog.entries) := by
    have short : (Nat.toDigits 10 10).length ≤ Text.maxDigits := by decide
    simpa [catalog, inner, Json.Plain, Json.PlainItems, Json.PlainMembers, Members.names] using short
  exact ⟨shown, filled, plain, parse_serialize rfl shown filled plain "de" "de.json"⟩

end Catalog

end Phrasebook
