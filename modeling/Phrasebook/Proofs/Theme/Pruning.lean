import Mathlib.Data.List.Infix
import Phrasebook.Proofs.Files.Writes
import Phrasebook.Proofs.Theme.Discovery

/-!
# Directories that are passed by

A directory that a glob names is not entered. No file below it would be a template: the glob
`**/name/**` fits every path that goes through the name, for a star also stands for slashes. So
`discover_filters` can say what is found without a word about the directories that are passed by.
-/

namespace Phrasebook

open Files

/-! ### Globs with a name between stars -/

namespace Glob

open Element (literal)

/-- Whether a character stands for itself wherever it occurs in a glob. -/
def isPlain (c : Char) : Bool := c ≠ '*' && c ≠ '?' && c ≠ '['

/-- The glob that takes out a name wherever it occurs. -/
def around (name : Text) : Text := "**/".toList ++ name ++ "/**".toList

variable {name : Text}

theorem elements_plain (plain : ∀ c ∈ name, isPlain c = true) (rest : Text) :
    elements 0 (name ++ rest) = name.map literal ++ elements 0 rest := by
  induction name with
  | nil => rfl
  | cons c name ih =>
    obtain ⟨here, later⟩ := List.forall_mem_cons.mp plain
    simp only [isPlain, Bool.and_eq_true, decide_eq_true_eq] at here
    obtain ⟨⟨notStar, notAny⟩, notSet⟩ := here
    rw [List.cons_append, elements, ih later]
    · rfl
    · exact notStar
    · exact notAny
    · exact notSet

/-- The two stars in a row count as one. -/
theorem parse_around (plain : ∀ c ∈ name, isPlain c = true) :
    parse (around name) = .star :: literal '/' :: (name.map literal ++ [literal '/', .star]) := by
  have literals (name : Text) (rest : List Element) :
      (name.map literal).foldr (fun element (rest : List Element) =>
        if element = .star ∧ rest.head? = some .star then rest else element :: rest) rest =
      name.map literal ++ rest := by
    induction name with
    | nil => rfl
    | cons c name ih => simp [ih]
  have read : elements 0 (around name) =
      .star :: .star :: literal '/' :: (name.map literal ++ [literal '/', .star, .star]) := by
    rw [around, List.append_assoc]
    exact congrArg (.star :: .star :: literal '/' :: ·) (elements_plain plain _)
  rw [parse, read, List.foldr_cons, List.foldr_cons, List.foldr_cons, List.foldr_append, literals]
  simp

theorem mem_ends_append (front back : Text) : back ∈ ends (front ++ back) := by
  induction front with
  | nil => cases back <;> exact List.mem_cons_self
  | cons c front ih => exact List.mem_cons_of_mem _ ih

theorem fit_star_append {rest : List Element} {back : Text} (fitting : fit rest back = true) (front : Text) :
    fit (.star :: rest) (front ++ back) = true := by
  rw [fit]
  exact List.any_eq_true.mpr ⟨back, mem_ends_append front back, fitting⟩

theorem fit_literals_append (name : Text) (rest : List Element) (back : Text) :
    fit (name.map literal ++ rest) (name ++ back) = fit rest back := by
  induction name with
  | nil => rfl
  | cons c name ih => simp [fit, Element.fits, ih]

/-- The glob around a name fits whatever has the name between two slashes. -/
theorem fits_around (plain : ∀ c ∈ name, isPlain c = true) (front back : Text) :
    fits (around name) (front ++ '/' :: name ++ '/' :: back) = true := by
  have last : fit [.star] back = true := by
    have fitsNothing : fit [] [] = true := rfl
    simpa using fit_star_append fitsNothing back
  rw [fits_eq_fit, parse_around plain, List.append_assoc]
  refine fit_star_append ?_ front
  have inner := fit_literals_append ('/' :: name ++ ['/']) [.star] back
  simpa [last] using inner

/-- Whether the name of every glob around a name neither starts nor ends with a slash. -/
def Tidy (globs : List Text) : Prop :=
  ∀ name, around name ∈ globs → name.head? ≠ some '/' ∧ name.getLast? ≠ some '/'

theorem trim_eq_self {edge : Char} {text : Text} (first : text.head? ≠ some edge) (last : text.getLast? ≠ some edge) :
    Text.trim edge text = text := by
  have keep {text : Text} (first : text.head? ≠ some edge) : text.dropWhile (· == edge) = text := by
    cases text with
    | nil => rfl
    | cons c rest => exact List.dropWhile_cons_of_neg (by simpa using first)
  rw [Text.trim, keep first, keep (by simpa using last), List.reverse_reverse]

/-- A glob with a star and a slash at both ends is the glob around what stands between them. -/
theorem eq_around {glob : Text} (lead : "**/".toList <+: glob) (trail : "/**".toList <:+ glob)
    (long : 6 ≤ glob.length) : glob = around ((glob.drop 3).take (glob.length - 6)) := by
  obtain ⟨behind, rfl⟩ := lead
  have short : "/**".toList.length ≤ behind.length := by
    simp at long ⊢
    omega
  obtain ⟨name, rfl⟩ := List.suffix_of_suffix_length_le trail (List.suffix_append _ _) short
  simp [around]

/-- The name that is read off a glob is the one between its stars, and stands for itself. -/
theorem directoryName?_around {globs : List Text} (tidy : Tidy globs) {glob : Text} (isGlob : glob ∈ globs)
    (named : directoryName? glob = some name) : glob = around name ∧ ∀ c ∈ name, isPlain c = true := by
  simp only [directoryName?] at named
  split at named
  · next ends =>
    split at named
    · cases named
    · next proper =>
      obtain ⟨filled, plain⟩ := not_or.mp proper
      obtain rfl := Option.some.inj named
      have long : 6 ≤ glob.length := by
        by_contra short
        have noneOver : glob.length - 6 = 0 := by omega
        simp [noneOver, Text.trim] at filled
      have whole := eq_around (List.isPrefixOf_iff_prefix.mp ends.1) (List.isSuffixOf_iff_suffix.mp ends.2) long
      obtain ⟨first, last⟩ := tidy _ (whole ▸ isGlob)
      rw [trim_eq_self first last] at plain ⊢
      refine ⟨whole, fun c isChar => ?_⟩
      have other := fun special => plain (List.any_eq_true.mpr ⟨c, isChar, special⟩)
      simp at other
      simp [isPlain, other]
  · cases named

theorem excludes_of_mem {globs : List Text} {glob path : Text} (isGlob : glob ∈ globs)
    (fitting : fits glob ('/' :: path) = true) : excludes globs path = true :=
  List.any_eq_true.mpr ⟨glob, isGlob, by simp [fitting]⟩

end Glob

/-! ### The files of a tree -/

namespace FileTree

mutual

theorem mem_filesAt {tree : FileTree} (named : tree.isNamed = true) (path found : Path) (bytes : ByteArray) :
    (found, bytes) ∈ tree.filesAt path ↔ ∃ rest, found = path ++ rest ∧ tree.find rest = .ok (.file bytes) := by
  cases tree with
  | file bytes' =>
    rw [filesAt, List.mem_singleton]
    constructor
    · rintro ⟨⟩
      exact ⟨[], (List.append_nil _).symm, rfl⟩
    · rintro ⟨rest, rfl, stands⟩
      cases rest with
      | nil =>
        cases stands
        rw [List.append_nil]
      | cons name rest => cases stands
  | link target =>
    rw [filesAt]
    constructor
    · exact fun isFile => absurd isFile List.not_mem_nil
    · rintro ⟨rest, -, stands⟩
      cases rest <;> cases stands
  | directory entries =>
    obtain ⟨distinct, each⟩ := isNamed_directory named
    rw [filesAt, mem_filesAmong each]
    constructor
    · rintro ⟨name, child, rest, isEntry, same, stands⟩
      exact ⟨name :: rest, same, (find_entry (Members.get?_of_mem distinct isEntry) rest).trans stands⟩
    · rintro ⟨rest, same, stands⟩
      cases rest with
      | nil => cases stands
      | cons name rest =>
        obtain ⟨_, child, ⟨⟩, isChild, stands⟩ := find_cons_ok stands
        exact ⟨name, child, rest, Members.mem_of_get? isChild, same, stands⟩

theorem mem_filesAmong {entries : List (String × FileTree)} (named : areNamed entries = true)
    (path found : Path) (bytes : ByteArray) :
    (found, bytes) ∈ filesAmong path entries ↔ ∃ name child rest, (name, child) ∈ entries ∧
      found = path ++ name :: rest ∧ child.find rest = .ok (.file bytes) := by
  cases entries with
  | nil => simp [filesAmong]
  | cons entry others =>
    obtain ⟨first, tree⟩ := entry
    obtain ⟨-, here, later⟩ := areNamed_cons named
    rw [filesAmong, List.mem_append, mem_filesAt here, mem_filesAmong later]
    constructor
    · rintro (⟨rest, same, stands⟩ | ⟨name, child, rest, isEntry, same, stands⟩)
      · exact ⟨first, tree, rest, List.mem_cons_self, by rw [same, List.append_assoc]; rfl, stands⟩
      · exact ⟨name, child, rest, List.mem_cons_of_mem _ isEntry, same, stands⟩
    · rintro ⟨name, child, rest, isEntry, same, stands⟩
      rcases List.mem_cons.mp isEntry with isFirst | isLater
      · cases isFirst
        exact .inl ⟨rest, by rw [same, List.append_assoc]; rfl, stands⟩
      · exact .inr ⟨name, child, rest, isLater, same, stands⟩

end

end FileTree

/-! ### Written paths -/

/-- A written path with a slash in front has one in front of every name. -/
theorem Files.Path.slash_joined {names : List String} (filled : names ≠ []) :
    '/' :: (Path.joined names).toList = names.flatMap fun name => '/' :: name.toList := by
  induction names with
  | nil => exact absurd rfl filled
  | cons first rest ih =>
    cases rest with
    | nil => simp [Path.joined]
    | cons second rest =>
      rw [List.flatMap_cons, ← ih (List.cons_ne_nil _ _)]
      simp [Path.joined, String.toList_intercalate, List.intercalate]

namespace Theme

open FileTree (areNamed areNamed_cons isNamed_directory isNamed_find)
open Glob (Tidy excludes)

/-! ### Below a directory that is passed by -/

variable {scan : Scan}

/-- A glob that names a directory leaves out what is below it. -/
theorem excludes_below (tidy : Tidy scan.excluded) (home : Path) {directory : String}
    (named : directory.toList ∈ scan.excluded.filterMap Glob.directoryName?) (name : String) (rest : Path) :
    excludes scan.excluded (Path.joined (home ++ directory :: name :: rest)).toList = true := by
  obtain ⟨glob, isGlob, named⟩ := List.mem_filterMap.mp named
  obtain ⟨rfl, plain⟩ := Glob.directoryName?_around tidy isGlob named
  -- At the top of the theme no slash stands in front of the directory, so the path with one is looked at.
  refine Glob.excludes_of_mem isGlob ?_
  rw [Path.slash_joined (by simp), List.flatMap_append]
  simpa using Glob.fits_around plain (home.flatMap fun name => '/' :: name.toList)
    (name.toList ++ rest.flatMap fun name => '/' :: name.toList)

theorem accepts_below (tidy : Tidy scan.excluded) {path : Path} (pruned : scan.prunes path = true)
    (name : String) (rest : Path) : scan.accepts (path ++ name :: rest) = false := by
  rcases List.eq_nil_or_concat path with rfl | ⟨home, directory, rfl⟩
  · cases pruned
  · simp only [Scan.prunes, List.concat_eq_append, List.getLast?_concat, Bool.and_eq_true] at pruned
    have below := excludes_below tidy home (List.contains_iff_mem.mp pruned.1) name rest
    simp [Scan.accepts, below]

/-! ### Templates as files that pass a test -/

mutual

theorem templatesAt_eq_filter (tidy : Tidy scan.excluded) {tree : FileTree} (named : tree.isNamed = true)
    (path : Path) : scan.templatesAt path tree = ((tree.filesAt path).map Prod.fst).filter scan.accepts := by
  cases tree with
  | file bytes =>
    rw [Scan.templatesAt, FileTree.filesAt]
    simp [List.filter_cons]
  | link target => rfl
  | directory entries =>
    obtain ⟨-, each⟩ := isNamed_directory named
    rw [Scan.templatesAt, FileTree.filesAt]
    split
    · next pruned =>
      -- The files below are listed all the same, but none of them passes the test.
      symm
      refine List.filter_eq_nil_iff.mpr fun found isFound => ?_
      obtain ⟨⟨_, bytes⟩, isFile, rfl⟩ := List.mem_map.mp isFound
      obtain ⟨name, child, rest, -, rfl, -⟩ := (FileTree.mem_filesAmong each path _ bytes).mp isFile
      simp [accepts_below tidy pruned]
    · exact templatesAmong_eq_filter tidy each path

theorem templatesAmong_eq_filter (tidy : Tidy scan.excluded) {entries : List (String × FileTree)}
    (named : areNamed entries = true) (path : Path) :
    scan.templatesAmong path entries = ((FileTree.filesAmong path entries).map Prod.fst).filter scan.accepts := by
  cases entries with
  | nil => rfl
  | cons entry rest =>
    obtain ⟨first, tree⟩ := entry
    obtain ⟨-, here, later⟩ := areNamed_cons named
    rw [Scan.templatesAmong, FileTree.filesAmong, templatesAt_eq_filter tidy here,
      templatesAmong_eq_filter tidy later, List.map_append, List.filter_append]

end

/-- The templates of a directory are the files below it that pass the test of a single file. -/
theorem mem_templatesAmong (tidy : Tidy scan.excluded) {entries : List (String × FileTree)}
    (named : (FileTree.directory entries).isNamed = true) (found : Path) :
    found ∈ scan.templatesAmong [] entries ↔
      scan.accepts found = true ∧ ∃ bytes, (FileTree.directory entries).find found = .ok (.file bytes) := by
  rw [templatesAmong_eq_filter tidy (isNamed_directory named).2, List.mem_filter, List.mem_map, and_comm]
  refine and_congr_right fun _ => ⟨?_, ?_⟩
  · rintro ⟨⟨_, bytes⟩, isFile, rfl⟩
    obtain ⟨rest, rfl, stands⟩ := (FileTree.mem_filesAt named [] _ bytes).mp isFile
    exact ⟨bytes, stands⟩
  · rintro ⟨bytes, stands⟩
    exact ⟨(found, bytes), (FileTree.mem_filesAt named [] found bytes).mpr ⟨found, rfl, stands⟩, rfl⟩

/-- The paths that are found ascend. They are the paths of all files that stand below the root, links not
followed, that no glob leaves out and that have one of the endings. -/
theorem discover_filters {tree : FileTree} {root place : Path} {scan : Scan} (named : tree.isNamed = true)
    (resolved : tree.resolve root = .ok place) (tidy : Tidy scan.excluded) :
    ∃ paths, discover tree root scan = .ok paths ∧ paths.Pairwise (· < ·) ∧
      ∀ path, path ∈ paths ↔ ∃ home name bytes,
        tree.find (place ++ home ++ [name]) = .ok (.file bytes) ∧ path = Path.joined (home ++ [name]) ∧
        excludes scan.excluded path.toList = false ∧
        Text.lower (Path.ending name.toList) ∈ scan.extensions.map Text.lower := by
  obtain ⟨paths, found⟩ : ∃ paths, discover tree root scan = .ok paths := by
    unfold discover
    rw [resolved]
    dsimp only [bind, Except.bind]
    split <;> exact ⟨_, rfl⟩
  refine ⟨paths, found, discover_ascending named found, fun path => ?_⟩
  unfold discover at found
  rw [resolved] at found
  dsimp only [bind, Except.bind] at found
  split at found
  · next entries stands =>
    obtain rfl := Except.ok.inj found
    rw [List.mem_mergeSort, List.mem_map]
    constructor
    · rintro ⟨names, isTemplate, rfl⟩
      obtain ⟨accepted, bytes, isFile⟩ := (mem_templatesAmong tidy (isNamed_find named stands) names).mp isTemplate
      rcases List.eq_nil_or_concat names with rfl | ⟨home, name, rfl⟩
      · cases isFile
      · rw [List.concat_eq_append] at isFile accepted ⊢
        refine ⟨home, name, bytes, ?_, rfl, ?_⟩
        · rw [List.append_assoc, FileTree.find_append stands, isFile]
        · simpa [Scan.accepts] using accepted
    · rintro ⟨home, name, bytes, isFile, rfl, kept, ending⟩
      rw [List.append_assoc, FileTree.find_append stands] at isFile
      refine ⟨home ++ [name], (mem_templatesAmong tidy (isNamed_find named stands) _).mpr ⟨?_, bytes, isFile⟩, rfl⟩
      simpa [Scan.accepts, kept] using ending
  · next noDirectory =>
    obtain rfl := Except.ok.inj found
    refine ⟨fun isPath => absurd isPath List.not_mem_nil, ?_⟩
    rintro ⟨home, name, bytes, isFile, -⟩
    rw [List.append_assoc] at isFile
    obtain ⟨entries, stands⟩ : ∃ entries, tree.find place = .ok (.directory entries) := by
      cases home <;> exact FileTree.find_append_ok isFile
    exact (noDirectory entries stands).elim

/-- A file in a directory, whose ending is written in upper case, and one in a directory that is passed by. -/
theorem discover_filters_modules :
    ∃ paths, discover
        (.directory [("theme", .directory [
          ("node_modules", .directory [("page.hbs", .file .empty)]),
          ("partials", .directory [("Card.HBS", .file .empty)]),
          ("shared", .link "partials")])])
        ["theme"] ⟨[".hbs".toList], ["**/node_modules/**".toList]⟩ = .ok paths ∧
      "partials/Card.HBS" ∈ paths ∧ "node_modules/page.hbs" ∉ paths := by
  have tidy : Tidy ["**/node_modules/**".toList] := by
    intro name isGlob
    have same : Glob.around name = Glob.around "node_modules".toList := List.mem_singleton.mp isGlob
    obtain rfl : name = "node_modules".toList := List.append_cancel_left (List.append_cancel_right same)
    decide
  refine (@discover_filters _ _ ["theme"] _ ?named rfl tidy).imp fun paths ⟨found, _, isTemplate⟩ => ⟨found, ?_, ?_⟩
  case named => decide +kernel
  · exact (isTemplate _).mpr ⟨["partials"], "Card.HBS", .empty, rfl, by decide +kernel⟩
  · intro isPath
    obtain ⟨-, -, -, -, -, kept, -⟩ := (isTemplate _).mp isPath
    exact absurd kept (by decide +kernel)

end Theme

end Phrasebook
