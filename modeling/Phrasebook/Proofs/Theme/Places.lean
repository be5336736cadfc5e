import Phrasebook.Proofs.Files.Linkless
import Phrasebook.Proofs.Files.Skeleton
import Phrasebook.Proofs.Theme.Discovery

/-!
# Where the files of a theme stand

In a tree as it stands on a disk the path of a template names the place of its file, so that no two templates share a
file. Writing over files brings no template and takes none away.
-/

namespace Phrasebook

open Files

/-! ### Written paths -/

theorem Text.split_ne_nil (separator : Char) (text : Text) : Text.split separator text ≠ [] := by
  cases text with
  | nil => exact List.cons_ne_nil _ _
  | cons c rest =>
    rw [Text.split]
    split
    · exact List.cons_ne_nil _ _
    · split <;> exact List.cons_ne_nil _ _

theorem Text.split_append (separator : Char) (front rest : Text) :
    Text.split separator (front ++ separator :: rest) = Text.split separator front ++ Text.split separator rest := by
  induction front with
  | nil => simp [Text.split]
  | cons c front ih =>
    rw [List.cons_append, Text.split, Text.split, ih]
    by_cases same : c = separator
    · rw [if_pos same, if_pos same, List.cons_append]
    · rw [if_neg same, if_neg same]
      obtain ⟨part, others, parts⟩ := List.exists_cons_of_ne_nil (Text.split_ne_nil separator front)
      rw [parts]
      rfl

theorem Text.split_of_not_mem {separator : Char} {text : Text} (absent : separator ∉ text) :
    Text.split separator text = [text] := by
  induction text with
  | nil => rfl
  | cons c rest ih =>
    obtain ⟨apart, later⟩ := not_or.mp (fun member => absent (List.mem_cons.mpr member))
    rw [Text.split, if_neg (Ne.symm apart), ih later]

namespace FileTree

/-- A name that an entry of a directory may have on a disk. -/
def IsProper (name : String) : Prop := isEntryName name = true ∧ name ≠ up ∧ ¬Path.isIdle name = true

theorem IsProper.split {name : String} (proper : IsProper name) : Text.split '/' name.toList = [name.toList] :=
  Text.split_of_not_mem (by simpa [isEntryName] using proper.1)

end FileTree

namespace Files.Path

open FileTree (IsProper)

theorem pieces_slash (front name : String) (proper : IsProper name) :
    pieces s!"{front}/{name}" = pieces front ++ [name] := by
  have whole : (s!"{front}/{name}").toList = front.toList ++ '/' :: name.toList := by simp [toString]
  rw [pieces, whole, Text.split_append, proper.split, List.map_append, pieces, List.map_singleton, String.ofList_toList]

/-- A path that goes on with a name. -/
theorem parts_slash (front name : String) (proper : IsProper name) : parts s!"{front}/{name}" = parts front ++ [name] := by
  rw [parts, pieces_slash front name proper, List.filter_append, parts, List.filter_cons_of_pos (by simpa using proper.2.2)]
  rfl

/-- The names that a path is written with are read off it. -/
theorem parts_joined {names : List String} (filled : names ≠ []) (proper : ∀ name ∈ names, IsProper name) :
    parts (joined names) = names := by
  have read : pieces (joined names) = names := by
    have slash : "/".toList = ['/'] := rfl
    rw [pieces, joined, String.toList_intercalate, slash]
    induction names with
    | nil => exact absurd rfl filled
    | cons name rest ih =>
      obtain ⟨here, later⟩ := List.forall_mem_cons.mp proper
      cases rest with
      | nil => simp [List.intercalate, here.split]
      | cons next rest =>
        have ih := ih (List.cons_ne_nil _ _) later
        rw [List.map_cons] at ih ⊢
        rw [List.map_cons, List.intercalate_cons_cons, List.append_assoc, List.singleton_append,
          Text.split_append, here.split, List.map_append, ih, List.map_singleton, String.ofList_toList]
        rfl
  rw [parts, read]
  exact List.filter_eq_self.mpr fun name member => by simpa using (proper name member).2.2

end Files.Path

/-! ### Trees on a disk -/

namespace FileTree

/-- A tree as it stands on a disk, and a theme in it that no link leads to or stands in. -/
structure Regular (tree : FileTree) (root : Path) : Prop where
  named : tree.isNamed = true
  proper : ∀ path found, tree.find path = .ok found → ∀ name ∈ path, name ≠ up ∧ ¬Path.isIdle name = true
  linkless : tree.Linkless root

mutual

/-- Whether a tree holds no links, and only names that lead to something. -/
def isPlain : FileTree → Bool
  | .file _ => true
  | .link _ => false
  | .directory entries => arePlain entries

/-- Whether the entries of a directory are named for something, and hold no links. -/
def arePlain : List (String × FileTree) → Bool
  | [] => true
  | (name, tree) :: rest => name ≠ up && !Path.isIdle name && isPlain tree && arePlain rest

end

theorem arePlain_mem {entries : List (String × FileTree)} (plain : arePlain entries = true) {name : String}
    {tree : FileTree} (isEntry : (name, tree) ∈ entries) :
    (name ≠ up ∧ ¬Path.isIdle name = true) ∧ tree.isPlain = true := by
  induction entries with
  | nil => cases isEntry
  | cons entry rest ih =>
    obtain ⟨first, child⟩ := entry
    simp only [arePlain, Bool.and_eq_true, decide_eq_true_eq, Bool.not_eq_true'] at plain
    obtain ⟨⟨⟨notUp, notIdle⟩, here⟩, later⟩ := plain
    rcases List.mem_cons.mp isEntry with same | isLater
    · obtain ⟨rfl, rfl⟩ := Prod.mk.inj same
      exact ⟨⟨notUp, by simp [notIdle]⟩, here⟩
    · exact ih later isLater

theorem isPlain_find {tree found : FileTree} {path : Path} (plain : tree.isPlain = true)
    (stands : tree.find path = .ok found) :
    (∀ name ∈ path, name ≠ up ∧ ¬Path.isIdle name = true) ∧ found.isPlain = true := by
  induction path generalizing tree with
  | nil => exact ⟨List.forall_mem_nil _, Except.ok.inj stands ▸ plain⟩
  | cons name rest ih =>
    obtain ⟨entries, child, rfl, known, below⟩ := find_cons_ok stands
    obtain ⟨proper, here⟩ := arePlain_mem plain (Members.mem_of_get? known)
    obtain ⟨later, last⟩ := ih here below
    exact ⟨List.forall_mem_cons.mpr ⟨proper, later⟩, last⟩

/-- A tree without links is regular at each of its directories. -/
theorem Regular.of_isPlain {tree found : FileTree} {root : Path} (named : tree.isNamed = true)
    (plain : tree.isPlain = true) (stands : tree.find root = .ok found) : tree.Regular root where
  named := named
  proper _ _ there := (isPlain_find plain there).1
  linkless := ⟨(isPlain_find plain stands).1, fun _ _ _ there => absurd (isPlain_find plain there).2 (by simp [isPlain])⟩

theorem areNamed_name {entries : List (String × FileTree)} (named : areNamed entries = true) {name : String}
    (isName : name ∈ Members.names entries) : isEntryName name = true := by
  induction entries with
  | nil => exact absurd isName List.not_mem_nil
  | cons entry rest ih =>
    obtain ⟨first, tree⟩ := entry
    obtain ⟨here, -, later⟩ := areNamed_cons named
    rcases List.mem_cons.mp isName with rfl | isLater
    · exact here
    · exact ih later isLater

theorem isEntryName_of_find {tree : FileTree} (named : tree.isNamed = true) {path : Path} {found : FileTree}
    (stands : tree.find path = .ok found) : ∀ name ∈ path, isEntryName name = true := by
  induction path generalizing tree with
  | nil => exact List.forall_mem_nil _
  | cons name rest ih =>
    obtain ⟨entries, child, rfl, known, below⟩ := find_cons_ok stands
    have isEntry := Members.mem_of_get? known
    obtain ⟨-, each⟩ := isNamed_directory named
    exact List.forall_mem_cons.mpr
      ⟨areNamed_name each (List.mem_map_of_mem isEntry), ih (areNamed_mem each isEntry) below⟩

/-- What stands in the tree has proper names on its path. -/
theorem Regular.isProper {tree : FileTree} {root path : Path} {found : FileTree} (regular : tree.Regular root)
    (stands : tree.find path = .ok found) : ∀ name ∈ path, IsProper name := fun name member =>
  ⟨isEntryName_of_find regular.named stands name member, regular.proper path found stands name member⟩

end FileTree

/-! ### Templates -/

namespace Theme

open FileTree (isNamed areNamed isNamed_directory areNamed_cons skeletonAmong)

variable (scan : Scan)

mutual

theorem templatesAt_skeleton (path : List String) : ∀ tree : FileTree,
    scan.templatesAt path tree.skeleton = scan.templatesAt path tree
  | .file _ => rfl
  | .link _ => rfl
  | .directory entries => by
    rw [FileTree.skeleton, Scan.templatesAt, Scan.templatesAt, templatesAmong_skeleton path entries]

theorem templatesAmong_skeleton (path : List String) : ∀ entries : List (String × FileTree),
    scan.templatesAmong path (skeletonAmong entries) = scan.templatesAmong path entries
  | [] => rfl
  | (name, tree) :: rest => by
    rw [skeletonAmong, Scan.templatesAmong, Scan.templatesAmong, templatesAt_skeleton (path ++ [name]) tree,
      templatesAmong_skeleton path rest]

end

/-- In trees with one skeleton the same templates are found. -/
theorem discover_alike {before after : FileTree} (alike : after.skeleton = before.skeleton) (root : Path) (scan : Scan) :
    discover after root scan = discover before root scan := by
  have here (tree : FileTree) : discover tree.skeleton root scan = discover tree root scan := by
    unfold discover
    rw [FileTree.resolve_skeleton]
    cases tree.resolve root with
    | error fault => rfl
    | ok place =>
      dsimp only [bind, Except.bind]
      rw [FileTree.find_skeleton]
      rcases tree.find place with refusal | bytes | entries | target
      · rfl
      · rfl
      · dsimp only [Except.map, FileTree.skeleton]
        rw [templatesAmong_skeleton]
      · rfl
  rw [← here, alike, here]

mutual

theorem templatesAt_file {tree : FileTree} (named : tree.isNamed = true) (path : List String) :
    ∀ found ∈ scan.templatesAt path tree, scan.accepts found = true ∧
      ∃ rest bytes, found = path ++ rest ∧ tree.find rest = .ok (.file bytes) := by
  cases tree with
  | file bytes =>
    intro found isFound
    rw [Scan.templatesAt] at isFound
    split at isFound
    · next accepted =>
      obtain rfl := List.mem_singleton.mp isFound
      exact ⟨accepted, [], bytes, (List.append_nil _).symm, rfl⟩
    · cases isFound
  | link target => exact List.forall_mem_nil _
  | directory entries =>
    intro found isFound
    obtain ⟨distinct, each⟩ := isNamed_directory named
    rw [Scan.templatesAt] at isFound
    split at isFound
    · cases isFound
    · obtain ⟨accepted, name, child, rest, bytes, isEntry, same, stands⟩ := templatesAmong_file each path found isFound
      exact ⟨accepted, name :: rest, bytes, same,
        (FileTree.find_entry (Members.get?_of_mem distinct isEntry) rest).trans stands⟩

theorem templatesAmong_file {entries : List (String × FileTree)} (named : areNamed entries = true)
    (path : List String) : ∀ found ∈ scan.templatesAmong path entries, scan.accepts found = true ∧
      ∃ name child rest bytes, (name, child) ∈ entries ∧ found = path ++ name :: rest ∧
        child.find rest = .ok (.file bytes) := by
  cases entries with
  | nil => exact List.forall_mem_nil _
  | cons entry others =>
    obtain ⟨first, tree⟩ := entry
    obtain ⟨-, here, later⟩ := areNamed_cons named
    intro found isFound
    rw [Scan.templatesAmong, List.mem_append] at isFound
    rcases isFound with isHere | isLater
    · obtain ⟨accepted, rest, bytes, same, stands⟩ := templatesAt_file here (path ++ [first]) found isHere
      exact ⟨accepted, first, tree, rest, bytes, List.mem_cons_self, by rw [same, List.append_assoc]; rfl, stands⟩
    · obtain ⟨accepted, name, child, rest, bytes, isEntry, same, stands⟩ := templatesAmong_file later path found isLater
      exact ⟨accepted, name, child, rest, bytes, List.mem_cons_of_mem _ isEntry, same, stands⟩

end

/-- A template that is found stands as a file at the place that its path names. -/
theorem discover_place {tree : FileTree} {root place : Path} {scan : Scan} {paths : List String}
    (regular : tree.Regular place) (resolved : tree.resolve root = .ok place)
    (found : discover tree root scan = .ok paths) {path : String} (isPath : path ∈ paths) :
    Path.joined (Path.parts path) = path ∧ scan.accepts (Path.parts path) = true ∧
      ∃ bytes, tree.find (place ++ Path.parts path) = .ok (.file bytes) := by
  unfold discover at found
  rw [resolved] at found
  dsimp only [bind, Except.bind] at found
  split at found
  · next entries stands =>
    obtain rfl := Except.ok.inj found
    rw [List.mem_mergeSort, List.mem_map] at isPath
    obtain ⟨names, isTemplate, rfl⟩ := isPath
    obtain ⟨distinct, each⟩ := isNamed_directory (FileTree.isNamed_find regular.named stands)
    obtain ⟨accepted, name, child, rest, bytes, isEntry, rfl, isFile⟩ := templatesAmong_file scan each [] names isTemplate
    have here : tree.find (place ++ name :: rest) = .ok (.file bytes) := by
      rw [FileTree.find_append stands, FileTree.find_entry (Members.get?_of_mem distinct isEntry), isFile]
    have read : Path.parts (Path.joined ([] ++ name :: rest)) = name :: rest :=
      Path.parts_joined (List.cons_ne_nil _ _) fun other member =>
        regular.isProper here other (List.mem_append_right _ member)
    rw [read]
    exact ⟨rfl, accepted, bytes, here⟩
  · obtain rfl := Except.ok.inj found
    exact absurd isPath List.not_mem_nil

end Theme

end Phrasebook
