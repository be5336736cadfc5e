import Phrasebook.Proofs.Edit.Callee
import Phrasebook.Proofs.Extract.Halting
import Phrasebook.Proofs.Files.Linkless
import Phrasebook.Proofs.Settings.Faults
import Phrasebook.Theme.Basic

/-!
# Settings and who uses them

The directory of the catalogs and the name of the helper are checked when settings are merged, and again by
those who use them: the reader of catalogs refuses paths that are not inside of the theme, and the parser
reads only some words as names. `merge_consumers` says which of the values that pass the first check pass the
second.
-/

namespace Phrasebook

open Files

/-! ### Reading catalogs -/

namespace Theme

/-- Trouble that does not come from a path that leaves a theme. -/
def Unblocked (trouble : Trouble) : Prop := ∀ why, trouble ≠ .files (.blocked why)

theorem unblocked_files {fault : Files.Fault} (refused : fault.IsRefused) : Unblocked (.files fault) :=
  fun why same => Settings.refused_unblocked refused why (Trouble.files.inj same)

theorem readCatalog_fails (tree : FileTree) (place : Path) (catalogs : Catalogs) (name : String) :
    Fails Unblocked (readCatalog tree place catalogs name) := by
  unfold readCatalog
  split
  · next failed => exact .error (unblocked_files (FileTree.read_fault failed))
  · split
    · exact .error fun why same => by cases same
    · dsimp only
      split
      · exact .error fun why same => by cases same
      · exact .ok _

theorem readIfFile_fails (tree : FileTree) (place : Path) (catalogs : Catalogs) (name : String) :
    Fails Unblocked (readIfFile tree place catalogs name) := by
  unfold readIfFile
  split
  · next failed =>
    rcases Extract.bind_error failed with here | ⟨found, -, later⟩
    · exact .error (unblocked_files (FileTree.reached_fault here))
    · split at later <;> cases later
  · exact .ok _
  · exact readCatalog_fails tree place catalogs name

/-- Catalogs are not read because of a path that leaves the theme, if the path of their directory does. -/
theorem readCatalogs_blocked_iff (tree : FileTree) (root : Path) (directory : String) :
    (∃ why, readCatalogs tree root directory = .error (.files (.blocked why))) ↔
      ∃ why, tree.inside root directory = .error (.blocked why) := by
  unfold readCatalogs
  cases found : tree.inside root directory with
  | error fault => simp
  | ok place =>
    refine iff_of_false ?_ (by simp)
    rintro ⟨why, failed⟩
    dsimp only at failed
    split at failed
    · next failed' =>
      obtain rfl := Trouble.files.inj (Except.error.inj failed)
      exact Settings.refused_unblocked (FileTree.reached_fault failed') why rfl
    · exact Fails.foldlM (readIfFile_fails tree place) _ _ failed why rfl
    · cases failed

end Theme

/-! ### Checked values -/

namespace Settings

theorem trim_head (edge : Char) (text : Text) : (Text.trim edge text).head? ≠ some edge := by
  intro same
  obtain ⟨rest, whole⟩ : ∃ rest, Text.trim edge text = edge :: rest := by
    cases shown : Text.trim edge text with
    | nil => rw [shown] at same; cases same
    | cons c rest =>
      rw [shown] at same
      exact ⟨rest, by rw [Option.some.inj same]⟩
  have isPrefix : Text.trim edge text <+: text.dropWhile (· == edge) := by
    unfold Text.trim
    rw [← List.reverse_suffix, List.reverse_reverse]
    exact List.dropWhile_suffix _
  obtain ⟨more, front⟩ := isPrefix
  have stop := List.head_dropWhile_not (p := (· == edge)) (l := text) (by rw [← front, whole]; simp)
  simp only [← front, whole] at stop
  simp at stop

/-- A directory that passes the check is relative and has no step up. -/
theorem directoryOf_relative {name directory : String} {value : Value}
    (checked : directoryOf name value = .ok directory) :
    ¬Path.isAbsolute directory = true ∧ up ∉ Path.pieces directory := by
  unfold directoryOf at checked
  split at checked
  · split at checked
    · cases checked
    · dsimp only at checked
      split at checked
      · cases checked
      · next path accepted =>
        obtain rfl := Except.ok.inj checked
        refine ⟨?_, fun member => ?_⟩
        · rw [Path.isAbsolute, String.toList_ofList, Text.startsWith, List.isPrefixOf_iff_prefix]
          rintro ⟨rest, whole⟩
          exact trim_head '/' _ (congrArg List.head? whole).symm
        · simp only [Path.pieces, String.toList_ofList, List.mem_map] at member
          obtain ⟨piece, isPiece, same⟩ := member
          refine accepted (.inr ?_)
          rw [← same, String.toList_ofList]
          exact isPiece
  · cases checked

theorem helperOr_chars {known helper : Text} {name : String} {value : Value}
    (checked : helperOr known name value = .ok helper) :
    helper = known ∨ consistsOf isHelperChar helper = true := by
  unfold helperOr at checked
  split at checked
  · exact .inl (Except.ok.inj checked).symm
  · split at checked
    · next accepted =>
      obtain rfl := Except.ok.inj checked
      exact .inr accepted
    · cases checked
  · cases checked

/-- What a text of allowed characters is made of. -/
theorem consistsOf_split {isAllowed : Char → Bool} {text : Text} (h : consistsOf isAllowed text = true) :
    ∃ word gap, text = word ++ gap ∧ word ≠ [] ∧ (∀ c ∈ word, isAllowed c = true) ∧ (gap = [] ∨ gap = ['\n']) := by
  simp only [consistsOf, Bool.and_eq_true, decide_eq_true_eq, List.all_eq_true] at h
  by_cases last : text.getLast? = some '\n'
  · rw [chomp, if_pos last] at h
    refine ⟨text.dropLast, ['\n'], ?_, h.1, h.2, .inr rfl⟩
    exact (List.dropLast_append_getLast? _ last).symm
  · rw [chomp, if_neg last] at h
    exact ⟨text, [], by simp, h.1, h.2, .inl rfl⟩

/-! ### Merged settings -/

variable {tree : FileTree} {here : Path} {payload : Table} {overrides : Overrides} {base settings : Settings}

theorem takeFile_checked (taken : takeFile tree base payload = .ok settings) :
    (settings.directory = base.directory ∨
      ∃ value, directoryOf "locales.directory" value = .ok settings.directory) ∧
    (settings.helper = base.helper ∨ consistsOf isHelperChar settings.helper = true) := by
  unfold takeFile at taken
  obtain ⟨scan, -, taken⟩ := bind_ok taken
  obtain ⟨locales, -, taken⟩ := bind_ok taken
  obtain ⟨helper, -, taken⟩ := bind_ok taken
  obtain ⟨run, -, taken⟩ := bind_ok taken
  obtain ⟨logging, -, taken⟩ := bind_ok taken
  obtain ⟨extensions, -, taken⟩ := bind_ok taken
  obtain ⟨excluded, -, taken⟩ := bind_ok taken
  obtain ⟨directory, directoryTaken, taken⟩ := bind_ok taken
  obtain ⟨baseLocale, -, taken⟩ := bind_ok taken
  obtain ⟨name, nameTaken, taken⟩ := bind_ok taken
  obtain ⟨workers, -, taken⟩ := bind_ok taken
  obtain ⟨auditLog, -, taken⟩ := bind_ok taken
  obtain ⟨debugDirectory, -, taken⟩ := bind_ok taken
  obtain rfl := Except.ok.inj taken
  refine ⟨?_, helperOr_chars nameTaken⟩
  dsimp only at directoryTaken
  split at directoryTaken
  · exact .inl (Except.ok.inj directoryTaken).symm
  · exact .inr ⟨_, directoryTaken⟩

theorem takeOverrides_checked (taken : takeOverrides tree here base overrides = .ok settings) :
    settings.directory = base.directory ∧
    (settings.helper = base.helper ∨ consistsOf isHelperChar settings.helper = true) := by
  unfold takeOverrides at taken
  obtain ⟨baseLocale, -, taken⟩ := bind_ok taken
  obtain ⟨name, nameTaken, taken⟩ := bind_ok taken
  obtain ⟨workers, -, taken⟩ := bind_ok taken
  obtain ⟨auditLog, -, taken⟩ := bind_ok taken
  obtain ⟨debugDirectory, -, taken⟩ := bind_ok taken
  obtain rfl := Except.ok.inj taken
  exact ⟨rfl, helperOr_chars nameTaken⟩

theorem merge_checked (merged : merge tree here base payload overrides = .ok settings) :
    (settings.directory = base.directory ∨
      ∃ value, directoryOf "locales.directory" value = .ok settings.directory) ∧
    (settings.helper = base.helper ∨ consistsOf isHelperChar settings.helper = true) := by
  obtain ⟨middle, file, byHand⟩ := bind_ok merged
  obtain ⟨directory, helper⟩ := takeFile_checked file
  obtain ⟨same, helper'⟩ := takeOverrides_checked byHand
  refine ⟨same ▸ directory, ?_⟩
  rcases helper' with known | checked
  · exact known ▸ helper
  · exact .inr checked

/-- Merged settings name a directory that a theme without links can be asked for, unless it consists of single
dots and slashes. They name a helper whose calls can be read back, unless a newline ends the name, or the name
is a whole number or a word that the parser does not take for a name. -/
theorem merge_consumers {root : Path} {processors : Nat}
    (merged : merge tree here (default root processors) payload overrides = .ok settings) :
    (∀ theme place, FileTree.Linkless theme place →
      ((∃ why, Theme.readCatalogs theme place settings.directory = .error (.files (.blocked why))) ↔
        ∀ piece ∈ Path.pieces settings.directory, Path.isIdle piece = true)) ∧
    ∀ source text, '\\' ∉ text →
      ((∃ template, Template.load source (wrap settings.helper text) = .ok template ∧
        template.CallsOnly settings.helper) ↔
        settings.helper.getLast? ≠ some '\n' ∧ Template.isNumeral settings.helper = false ∧
          settings.helper ∉ Template.keywords) := by
  obtain ⟨directory, helper⟩ := merge_checked merged
  constructor
  · intro theme place linkless
    have relative : ¬Path.isAbsolute settings.directory = true ∧ up ∉ Path.pieces settings.directory := by
      rcases directory with default | ⟨value, checked⟩
      · rw [default, show (Settings.default root processors).directory = "locales" from rfl]
        decide +kernel
      · exact directoryOf_relative checked
    have noUp : up ∉ Path.parts settings.directory := fun member => relative.2 (List.mem_of_mem_filter member)
    rw [Theme.readCatalogs_blocked_iff, linkless.inside_blocked_iff, or_iff_left (not_or.mpr ⟨relative.1, noUp⟩)]
    simp [Path.parts, List.filter_eq_nil_iff]
  · intro source text plain
    have allowed : consistsOf isHelperChar settings.helper = true := by
      rcases helper with default | checked
      · rw [default, show (Settings.default root processors).helper = ['t'] from rfl]
        decide
      · exact checked
    obtain ⟨word, gap, whole, filled, chars, ends⟩ := consistsOf_split allowed
    have blank : ∀ c ∈ gap, Text.isBlank c = true := by
      rcases ends with rfl | rfl <;> simp [Text.isBlank]
    have noBreak : '\n' ∉ word := fun member => absurd (chars _ member) (by decide)
    rw [whole, wrap_calls_iff filled chars blank (.of_plain plain) source]
    rcases ends with rfl | rfl
    · have last : word.getLast? ≠ some '\n' := fun same => noBreak (List.mem_of_getLast? same)
      simp only [List.append_nil, true_and]
      exact ⟨fun h => ⟨last, h.notNumeral, h.notKeyword⟩, fun ⟨_, notNumeral, notKeyword⟩ =>
        ⟨filled, chars, notNumeral, notKeyword⟩⟩
    · simp

/-- A directory that is the theme itself, and a helper with the name of a tag: both pass the first check and
fail the second. -/
theorem merge_consumers_refused :
    ∃ settings, merge .empty [] (default ["theme"] 4)
        [("locales".toList, .table [("directory".toList, .string ['.'])]),
          ("helper".toList, .table [("name".toList, .string "else".toList)])] {} = .ok settings ∧
      (∃ why, Theme.readCatalogs .empty ["theme"] settings.directory = .error (.files (.blocked why))) ∧
      ¬∃ template, Template.load "page" (wrap settings.helper ['a']) = .ok template ∧
        template.CallsOnly settings.helper := by
  have runs : (merge .empty [] (default ["theme"] 4)
      [("locales".toList, .table [("directory".toList, .string ['.'])]),
        ("helper".toList, .table [("name".toList, .string "else".toList)])] {}).toOption.map
      (fun settings => (settings.directory, settings.helper)) = some (".", "else".toList) := by
    decide +kernel
  obtain ⟨settings, merged, found⟩ := Option.map_eq_some_iff.mp runs
  have merged := ok_of_toOption merged
  obtain ⟨directory, helper⟩ := Prod.mk.inj found
  obtain ⟨catalogs, reads⟩ := merge_consumers merged
  have linkless : FileTree.Linkless .empty ["theme"] := by
    refine ⟨by decide, fun path target _ => ?_⟩
    cases path <;> simp [FileTree.find, FileTree.empty, Members.get?]
  refine ⟨settings, merged, (catalogs _ _ linkless).mpr ?_, fun read => ?_⟩
  · rw [directory]
    decide +kernel
  · have isName := ((reads "page" ['a'] (by decide)).mp read).2.2
    rw [helper] at isName
    exact absurd isName (by decide)

end Settings

end Phrasebook
