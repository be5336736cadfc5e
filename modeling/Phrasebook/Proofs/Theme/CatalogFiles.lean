import Phrasebook.Proofs.Catalog.Updates
import Phrasebook.Proofs.Extract.Keys
import Phrasebook.Proofs.Files.Encoding
import Phrasebook.Proofs.Theme.Places
import Phrasebook.Proofs.Theme.Reading

/-!
# The files of catalogs

Every catalog of a theme stands in a file of its own, which is named for its locale. Where these files are written
over with updated catalogs, the same locales are read again, each with its catalog updated.
-/

namespace Phrasebook

open Files

namespace Theme

/-! ### Names and locales -/

/-- The locale that the name of a file stands for. -/
def localeOf (name : String) : String := String.ofList (Path.stem name.toList)

theorem ending_catalog {front : Text} (filled : front ≠ []) :
    Path.ending (front ++ catalogEnding) = catalogEnding := by
  have tail : ((front ++ catalogEnding).reverse.takeWhile (· ≠ '.')).reverse = ['j', 's', 'o', 'n'] := by
    simp [catalogEnding, List.takeWhile]
  have long : 0 < front.length := List.length_pos_iff.mpr filled
  rw [Path.ending, tail, if_neg]
  · rfl
  · simp [catalogEnding]
    omega

/-- The name of a file is the one of its locale, unless there is nothing in front of the ending. -/
theorem fileName_localeOf {name : String} (isCatalog : catalogEnding.isSuffixOf name.toList = true) :
    Catalog.fileName (localeOf name) = name ∨ localeOf name = ".json" := by
  obtain ⟨front, same⟩ := List.isSuffixOf_iff_suffix.mp isCatalog
  rw [localeOf, ← same]
  by_cases empty : front = []
  · subst empty
    exact .inr rfl
  · left
    rw [Path.stem, ending_catalog empty, List.length_append, Nat.add_sub_cancel, List.take_left]
    refine String.toList_inj.mp ?_
    rw [← same]
    simp [Catalog.fileName, toString, catalogEnding]

theorem isProper_catalog {name : String} (isCatalog : catalogEnding.isSuffixOf name.toList = true)
    (isEntry : FileTree.isEntryName name = true) : FileTree.IsProper name := by
  refine ⟨isEntry, ?_, fun isIdle => ?_⟩
  · rintro rfl
    exact absurd isCatalog (by decide)
  · simp only [Path.isIdle, Bool.or_eq_true, decide_eq_true_eq] at isIdle
    rcases isIdle with rfl | rfl <;> exact absurd isCatalog (by decide)

/-! ### Catalogs read one by one -/

/-- The catalogs that stand at some names of a directory, each in the file of its locale. What is no file is passed
by. -/
inductive CatalogsAt (tree : FileTree) (place : Path) : List String → Catalogs → Prop where
  | nil : CatalogsAt tree place [] []
  | skip {name : String} {names : List String} {catalogs : Catalogs} (other : tree.isFile (place ++ [name]) = .ok false)
      (later : CatalogsAt tree place names catalogs) : CatalogsAt tree place (name :: names) catalogs
  | file {name locale : String} {names : List String} {bytes : ByteArray} {contents : Text} {catalog : Catalog}
      {catalogs : Catalogs} (isLocale : localeOf name = locale) (named : Catalog.fileName locale = name)
      (isFile : tree.isFile (place ++ [name]) = .ok true) (read : tree.read (place ++ [name]) = .ok bytes)
      (decoded : Encoding.decode? bytes = some contents) (parsed : Catalog.parse locale contents.points name = .ok catalog)
      (later : CatalogsAt tree place names catalogs) :
      CatalogsAt tree place (name :: names) ((locale, catalog) :: catalogs)

variable {tree before after : FileTree} {root place : Path} {names : List String} {catalogs start result : Catalogs}

theorem readIfFile_other {name : String} (other : tree.isFile (place ++ [name]) = .ok false) :
    readIfFile tree place start name = .ok start := by
  rw [readIfFile, other]

theorem readIfFile_file {name : String} (isFile : tree.isFile (place ++ [name]) = .ok true)
    (read : readIfFile tree place start name = .ok result) :
    ∃ bytes contents catalog, tree.read (place ++ [name]) = .ok bytes ∧ Encoding.decode? bytes = some contents ∧
      Catalog.parse (localeOf name) (Text.points contents) name = .ok catalog ∧
      result = Members.put start (localeOf name) catalog := by
  unfold readIfFile at read
  rw [isFile] at read
  dsimp only at read
  unfold readCatalog at read
  split at read
  · cases read
  · next bytes isBytes =>
    split at read
    · cases read
    · next contents decoded =>
      dsimp only at read
      split at read
      · cases read
      · next catalog parsed => exact ⟨bytes, contents, catalog, isBytes, decoded, parsed, (Except.ok.inj read).symm⟩

/-- A locale that was read stays. -/
theorem mem_names_readAll (read : names.foldlM (readIfFile tree place) start = .ok result) {locale : String}
    (known : locale ∈ Members.names start) : locale ∈ Members.names result := by
  induction names generalizing start with
  | nil => exact Except.ok.inj read ▸ known
  | cons name rest ih =>
    rw [List.foldlM_cons] at read
    obtain ⟨next, first, later⟩ := bind_ok read
    refine ih later ?_
    rcases is : tree.isFile (place ++ [name]) with fault | _ | _
    · simp [readIfFile, is] at first
    · rw [readIfFile_other is] at first
      exact Except.ok.inj first ▸ known
    · obtain ⟨_, _, catalog, -, -, -, rfl⟩ := readIfFile_file is first
      exact Members.mem_names_alter_iff.mpr (.inl known)

/-- Catalogs that are read one by one are those that stand at the names. -/
theorem readAll_catalogsAt (areCatalogs : ∀ name ∈ names, catalogEnding.isSuffixOf name.toList = true)
    (distinct : names.Nodup) (fresh : ∀ locale ∈ Members.names start, Catalog.fileName locale ∉ names)
    (filled : ".json" ∉ Members.names result) (read : names.foldlM (readIfFile tree place) start = .ok result) :
    ∃ catalogs, result = start ++ catalogs ∧ CatalogsAt tree place names catalogs := by
  induction names generalizing start with
  | nil => exact ⟨[], by rw [List.append_nil]; exact (Except.ok.inj read).symm, .nil⟩
  | cons name rest ih =>
    obtain ⟨isCatalog, areCatalogs⟩ := List.forall_mem_cons.mp areCatalogs
    obtain ⟨once, distinct⟩ := List.nodup_cons.mp distinct
    rw [List.foldlM_cons] at read
    obtain ⟨next, first, later⟩ := bind_ok read
    rcases is : tree.isFile (place ++ [name]) with fault | _ | _
    · simp [readIfFile, is] at first
    · rw [readIfFile_other is] at first
      obtain rfl := Except.ok.inj first
      obtain ⟨catalogs, same, stands⟩ := ih areCatalogs distinct
        (fun locale known isIn => fresh locale known (List.mem_cons_of_mem _ isIn)) later
      exact ⟨catalogs, same, .skip is stands⟩
    · obtain ⟨bytes, contents, catalog, isBytes, decoded, parsed, rfl⟩ := readIfFile_file is first
      have isLocale : localeOf name ≠ ".json" := fun same =>
        filled (mem_names_readAll later (Members.mem_names_alter_iff.mpr (.inr same.symm)))
      have named := (fileName_localeOf isCatalog).resolve_right isLocale
      have new : localeOf name ∉ Members.names start := fun known =>
        fresh _ known (by rw [named]; exact List.mem_cons_self)
      rw [Members.put_of_not_mem new] at later
      have fresh : ∀ locale ∈ Members.names (start ++ [(localeOf name, catalog)]), Catalog.fileName locale ∉ rest := by
        intro locale known isIn
        rw [Members.names, List.map_append, List.mem_append] at known
        rcases known with old | this
        · exact fresh locale old (List.mem_cons_of_mem _ isIn)
        · obtain rfl : locale = localeOf name := List.mem_singleton.mp this
          rw [named] at isIn
          exact once isIn
      obtain ⟨catalogs, same, stands⟩ := ih areCatalogs distinct fresh later
      exact ⟨(localeOf name, catalog) :: catalogs, by rw [same, List.append_assoc, List.singleton_append],
        .file rfl named is isBytes decoded parsed stands⟩

namespace CatalogsAt

/-- Catalogs that stand at some names are read there. -/
theorem readAll (stands : CatalogsAt tree place names catalogs) (distinct : (Members.names (start ++ catalogs)).Nodup) :
    names.foldlM (readIfFile tree place) start = .ok (start ++ catalogs) := by
  induction stands generalizing start with
  | nil =>
    rw [List.append_nil]
    rfl
  | skip other later ih =>
    rw [List.foldlM_cons, readIfFile_other other]
    exact ih distinct
  | @file name locale names bytes contents catalog catalogs isLocale named isFile read decoded parsed later ih =>
    have new : locale ∉ Members.names start := by
      intro known
      rw [Members.names, List.map_append] at distinct
      exact (List.nodup_append.mp distinct).2.2 _ known _ List.mem_cons_self rfl
    have taken : readIfFile tree place start name = .ok (start ++ [(locale, catalog)]) := by
      rw [readIfFile, isFile]
      dsimp only
      rw [readCatalog, read]
      dsimp only
      rw [decoded]
      dsimp only
      rw [show String.ofList (Path.stem name.toList) = locale from isLocale, parsed]
      exact congrArg Except.ok (Members.put_of_not_mem new catalog)
    have following := @ih (start ++ [(locale, catalog)])
    rw [List.append_assoc, List.singleton_append] at following
    rw [List.foldlM_cons, taken]
    exact following distinct

theorem fileNames_sublist (stands : CatalogsAt tree place names catalogs) :
    ((Members.names catalogs).map Catalog.fileName).Sublist names := by
  induction stands with
  | nil => exact .slnil
  | skip other later ih => exact ih.cons _
  | file isLocale named isFile read decoded parsed later ih =>
    subst named
    exact ih.cons_cons _

/-- Every catalog has a file. -/
theorem read (stands : CatalogsAt tree place names catalogs) {entry : String × Catalog} (isEntry : entry ∈ catalogs) :
    ∃ bytes, tree.read (place ++ [Catalog.fileName entry.1]) = .ok bytes := by
  induction stands with
  | nil => cases isEntry
  | skip other later ih => exact ih isEntry
  | file isLocale named isFile read decoded parsed later ih =>
    rcases List.mem_cons.mp isEntry with rfl | isLater
    · subst named
      exact ⟨_, read⟩
    · exact ih isLater

end CatalogsAt

/-- The catalog of the same locale with an update of the entries. -/
def Renewed (diff : KeyDiff) (old new : String × Catalog) : Prop :=
  new.1 = old.1 ∧ new.2.entries = (old.2.update diff).catalog.entries

theorem Renewed.of_mem {diff : KeyDiff} {old new : Catalogs} (each : List.Forall₂ (Renewed diff) old new)
    {entry : String × Catalog} (isEntry : entry ∈ new) : ∃ before, Renewed diff before entry := by
  induction each with
  | nil => cases isEntry
  | cons renewed _ ih =>
    rcases List.mem_cons.mp isEntry with rfl | isLater
    · exact ⟨_, renewed⟩
    · exact ih isLater

/-- Where the files of catalogs hold updated catalogs, these stand there. -/
theorem CatalogsAt.renewed {diff : KeyDiff} (stands : CatalogsAt before place names catalogs)
    (alike : after.skeleton = before.skeleton) (free : ∀ entry ∈ catalogs, Json.FloatFree (.object entry.2.entries))
    (written : ∀ entry ∈ catalogs, ∀ contents, (entry.2.update diff).catalog.serialize = .ok contents →
      ∃ bytes, Encoding.encodePoints contents = .ok bytes ∧
        after.read (place ++ [Catalog.fileName entry.1]) = .ok bytes) :
    ∃ renewed, CatalogsAt after place names renewed ∧ List.Forall₂ (Renewed diff) catalogs renewed := by
  induction stands with
  | nil => exact ⟨[], .nil, .nil⟩
  | skip other later ih =>
    obtain ⟨renewed, stands, each⟩ := ih free written
    exact ⟨renewed, .skip ((FileTree.isFile_alike alike _).trans other) stands, each⟩
  | file isLocale named isFile read decoded parsed later ih =>
    obtain ⟨freeHere, free⟩ := List.forall_mem_cons.mp free
    obtain ⟨writtenHere, written⟩ := List.forall_mem_cons.mp written
    obtain ⟨renewed, stands, each⟩ := ih free written
    obtain ⟨contents, serialized, again⟩ := Catalog.exists_written parsed freeHere diff
    obtain ⟨bytes, encoded, now⟩ := writtenHere contents serialized
    obtain ⟨text, rfl, rfl⟩ := Encoding.exists_text encoded
    rw [named] at now
    exact ⟨_, .file isLocale named ((FileTree.isFile_alike alike _).trans isFile) now (Encoding.decode?_encode text)
      again stands, .cons ⟨rfl, rfl⟩ each⟩

/-! ### Directories of catalogs -/

/-- The names of the catalogs in a directory, in ascending order. -/
def catalogNames : Option FileTree → List String
  | some (.directory entries) => ((Members.names entries).filter fun name =>
      catalogEnding.isSuffixOf name.toList).mergeSort fun a b => decide (a ≤ b)
  | _ => []

theorem readCatalogs_ok_iff {directory : String} :
    readCatalogs tree root directory = .ok catalogs ↔ ∃ place found, tree.inside root directory = .ok place ∧
      tree.get? place = .ok found ∧ (catalogNames found).foldlM (readIfFile tree place) [] = .ok catalogs := by
  cases within : tree.inside root directory with
  | error fault => simp [readCatalogs, within]
  | ok place =>
    cases got : tree.get? place with
    | error fault => simp [readCatalogs, within, got]
    | ok found =>
      rcases found with _ | bytes | entries | target <;>
        simp [readCatalogs, within, got, catalogNames, pure, Except.pure]

theorem catalogNames_skeleton (found : Option FileTree) :
    catalogNames (found.map FileTree.skeleton) = catalogNames found := by
  rcases found with _ | bytes | entries | target
  · rfl
  · rfl
  · rw [Option.map_some, FileTree.skeleton, catalogNames, catalogNames, FileTree.names_skeletonAmong]
  · rfl

theorem catalogNames_proper (named : tree.isNamed = true) {found : Option FileTree} (got : tree.get? place = .ok found) :
    (catalogNames found).Nodup ∧ ∀ name ∈ catalogNames found,
      catalogEnding.isSuffixOf name.toList = true ∧ FileTree.IsProper name := by
  rcases found with _ | bytes | entries | target
  · exact ⟨List.nodup_nil, List.forall_mem_nil _⟩
  · exact ⟨List.nodup_nil, List.forall_mem_nil _⟩
  · have stands : ∃ there, tree.find there = .ok (.directory entries) := by
      unfold FileTree.get? FileTree.reached at got
      split at got
      · cases got
      · split at got
        · next there located => exact ⟨there, ok_of_toOption (Except.ok.inj got)⟩
        · cases got
        · cases got
    obtain ⟨there, stands⟩ := stands
    obtain ⟨distinct, each⟩ := FileTree.isNamed_directory (FileTree.isNamed_find named stands)
    refine ⟨(List.mergeSort_perm _ _).nodup_iff.mpr (distinct.filter _), fun name isName => ?_⟩
    obtain ⟨isEntry, isCatalog⟩ := List.mem_filter.mp (List.mem_mergeSort.mp isName)
    exact ⟨isCatalog, isProper_catalog isCatalog (FileTree.areNamed_name each isEntry)⟩
  · exact ⟨List.nodup_nil, List.forall_mem_nil _⟩

/-- The catalogs of a theme, which stand in the files of a directory. -/
structure CatalogFiles (tree : FileTree) (root : Path) (directory : String) (place : Path) (names : List String)
    (catalogs : Catalogs) : Prop where
  within : tree.inside root directory = .ok place
  listed : ∃ found, tree.get? place = .ok found ∧ catalogNames found = names
  distinct : names.Nodup
  proper : ∀ name ∈ names, FileTree.IsProper name
  stands : CatalogsAt tree place names catalogs

theorem exists_catalogFiles {directory : String} (named : tree.isNamed = true)
    (read : readCatalogs tree root directory = .ok catalogs) (filled : ".json" ∉ Members.names catalogs) :
    ∃ place names, CatalogFiles tree root directory place names catalogs := by
  obtain ⟨place, found, within, got, all⟩ := readCatalogs_ok_iff.mp read
  obtain ⟨distinct, each⟩ := catalogNames_proper named got
  obtain ⟨others, rfl, stands⟩ := readAll_catalogsAt (fun name isName => (each name isName).1) distinct
    (List.forall_mem_nil _) filled all
  exact ⟨place, _, within, ⟨found, got, rfl⟩, distinct, fun name isName => (each name isName).2, stands⟩

namespace CatalogFiles

variable {directory : String} (files : CatalogFiles tree root directory place names catalogs)
include files

theorem locales : (Members.names catalogs).Nodup := (files.stands.fileNames_sublist.nodup files.distinct).of_map _

theorem isProper {locale : String} (isLocale : locale ∈ Members.names catalogs) :
    FileTree.IsProper (Catalog.fileName locale) :=
  files.proper _ (files.stands.fileNames_sublist.subset (List.mem_map_of_mem isLocale))

theorem read : readCatalogs tree root directory = .ok catalogs := by
  obtain ⟨found, got, rfl⟩ := files.listed
  exact readCatalogs_ok_iff.mpr ⟨place, found, files.within, got, files.stands.readAll files.locales⟩

end CatalogFiles

/-- Where the files of catalogs hold updated catalogs, these are read. -/
theorem CatalogFiles.renewed {directory : String} {diff : KeyDiff}
    (files : CatalogFiles before root directory place names catalogs) (alike : after.skeleton = before.skeleton)
    (free : ∀ entry ∈ catalogs, Json.FloatFree (.object entry.2.entries))
    (written : ∀ entry ∈ catalogs, ∀ contents, (entry.2.update diff).catalog.serialize = .ok contents →
      ∃ bytes, Encoding.encodePoints contents = .ok bytes ∧
        after.read (place ++ [Catalog.fileName entry.1]) = .ok bytes) :
    ∃ renewed, CatalogFiles after root directory place names renewed ∧ List.Forall₂ (Renewed diff) catalogs renewed := by
  obtain ⟨renewed, stands, each⟩ := files.stands.renewed alike free written
  obtain ⟨found, got, listed⟩ := files.listed
  have both : (after.get? place).map (Option.map FileTree.skeleton) = .ok (found.map FileTree.skeleton) := by
    rw [← FileTree.get?_skeleton, alike, FileTree.get?_skeleton, got]
    rfl
  cases got' : after.get? place with
  | error fault =>
    rw [got'] at both
    cases both
  | ok found' =>
    rw [got'] at both
    have same : catalogNames found' = names := by
      rw [← catalogNames_skeleton, Except.ok.inj both, catalogNames_skeleton, listed]
    exact ⟨renewed, ⟨(FileTree.inside_alike alike root directory).trans files.within, ⟨found', got', same⟩,
      files.distinct, files.proper, stands⟩, each⟩

end Theme

end Phrasebook
