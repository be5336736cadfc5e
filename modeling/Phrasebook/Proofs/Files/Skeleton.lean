import Phrasebook.Proofs.Files.Writes

/-!
# What paths depend on

Where a path leads depends on the directories and links of a tree and on which files there are, and not on what
the files hold. The skeleton of a tree is all of this. Files that are written over keep it, so every path leads
where it led before.
-/

namespace Phrasebook.FileTree

open Files

mutual

/-- A tree with nothing in its files. -/
def skeleton : FileTree → FileTree
  | .file _ => .file .empty
  | .directory entries => .directory (skeletonAmong entries)
  | .link target => .link target

/-- The entries of a directory with nothing in their files. -/
def skeletonAmong : List (String × FileTree) → List (String × FileTree)
  | [] => []
  | (name, tree) :: rest => (name, skeleton tree) :: skeletonAmong rest

end

theorem skeletonAmong_eq (entries : List (String × FileTree)) :
    skeletonAmong entries = entries.map fun entry => (entry.1, entry.2.skeleton) := by
  induction entries with
  | nil => rfl
  | cons entry rest ih => rw [skeletonAmong, ih, List.map_cons]

theorem names_skeletonAmong (entries : List (String × FileTree)) :
    Members.names (skeletonAmong entries) = Members.names entries := by
  rw [skeletonAmong_eq, Members.names, Members.names, List.map_map]
  rfl

theorem find_skeleton (tree : FileTree) (path : Path) : tree.skeleton.find path = (tree.find path).map skeleton := by
  induction path generalizing tree with
  | nil => rfl
  | cons name rest ih =>
    cases tree with
    | file bytes => rfl
    | link target => rfl
    | directory entries =>
      have below := Members.get?_map entries (fun _ child => child.skeleton) name
      rw [← skeletonAmong_eq] at below
      cases known : Members.get? entries name with
      | none =>
        rw [known] at below
        rw [skeleton, find_absent below, find_absent known]
        rfl
      | some child =>
        rw [known] at below
        rw [skeleton, find_entry below, find_entry known, ih]

/-! ### Where paths lead -/

theorem advance_skeleton (tree : FileTree) (place : Path) (steps : List String) :
    tree.skeleton.advance place steps = tree.advance place steps := by
  induction steps generalizing place with
  | nil => rfl
  | cons name rest ih =>
    unfold advance
    rw [find_skeleton, find_skeleton]
    rcases tree.find place with refusal | bytes | entries | target
    · rfl
    · rfl
    · simp only [Except.map, skeleton, ih]
      rcases tree.find (place ++ [name]) with refusal | bytes | entries | target <;> rfl
    · rfl

theorem followFrom_skeleton (tree : FileTree) (links : Nat) (place : Path) (steps : List String) :
    tree.skeleton.followFrom links place steps = tree.followFrom links place steps := by
  induction links generalizing place steps with
  | zero => rw [followFrom, followFrom, advance_skeleton]
  | succ links ih =>
    rw [followFrom, followFrom, advance_skeleton]
    cases tree.advance place steps with
    | atLink home target rest => exact ih _ _
    | _ => rfl

theorem locate_skeleton (tree : FileTree) (names : List String) : tree.skeleton.locate names = tree.locate names := by
  rw [locate, locate, follow, follow, followFrom_skeleton]

mutual

theorem linkCount_skeleton : ∀ tree : FileTree, tree.skeleton.linkCount = tree.linkCount
  | .file _ => rfl
  | .link _ => rfl
  | .directory entries => linkCountAmong_skeleton entries

theorem linkCountAmong_skeleton : ∀ entries : List (String × FileTree),
    linkCountAmong (skeletonAmong entries) = linkCountAmong entries
  | [] => rfl
  | (_, tree) :: rest => congrArg₂ _ (linkCount_skeleton tree) (linkCountAmong_skeleton rest)

end

theorem link_skeleton (tree : FileTree) (path : Path) (target : String) :
    tree.skeleton.find path = .ok (.link target) ↔ tree.find path = .ok (.link target) := by
  rw [find_skeleton]
  rcases tree.find path with refusal | bytes | entries | other <;> simp [Except.map, skeleton]

theorem resolve_skeleton (tree : FileTree) (names : List String) : tree.skeleton.resolve names = tree.resolve names := by
  rw [resolve, resolve, linkCount_skeleton, resolveWith_eq tree.link_skeleton]
  simp only [locate_skeleton]

theorem inside_skeleton (tree : FileTree) (root : Path) (relative : String) :
    tree.skeleton.inside root relative = tree.inside root relative := by
  rw [inside, inside, resolve_skeleton]
  simp only [resolve_skeleton]

theorem get?_skeleton (tree : FileTree) (path : Path) :
    tree.skeleton.get? path = (tree.get? path).map (Option.map skeleton) := by
  unfold get? reached
  rw [locate_skeleton]
  split
  · rfl
  · cases located : tree.locate path with
    | ok place =>
      dsimp only
      rw [find_skeleton]
      rcases tree.find place with refusal | found <;> rfl
    | error refusal => cases refusal <;> rfl

/-! ### Trees with one skeleton -/

section Alike

variable {before after : FileTree}

theorem locate_alike (alike : after.skeleton = before.skeleton) (names : List String) :
    after.locate names = before.locate names := by
  rw [← locate_skeleton, alike, locate_skeleton]

theorem link_alike (alike : after.skeleton = before.skeleton) (path : Path) (target : String) :
    after.find path = .ok (.link target) ↔ before.find path = .ok (.link target) := by
  rw [← link_skeleton, alike, link_skeleton]

theorem resolve_alike (alike : after.skeleton = before.skeleton) (names : List String) :
    after.resolve names = before.resolve names := by
  rw [← resolve_skeleton, alike, resolve_skeleton]

theorem inside_alike (alike : after.skeleton = before.skeleton) (root : Path) (relative : String) :
    after.inside root relative = before.inside root relative := by
  rw [← inside_skeleton, alike, inside_skeleton]

theorem isFile_alike (alike : after.skeleton = before.skeleton) (path : Path) :
    after.isFile path = before.isFile path := by
  have here (tree : FileTree) : tree.skeleton.isFile path = tree.isFile path := by
    unfold isFile
    rw [get?_skeleton]
    rcases tree.get? path with fault | _ | found
    · rfl
    · rfl
    · cases found <;> rfl
  rw [← here, alike, here]

theorem find_alike (alike : after.skeleton = before.skeleton) (place : Path) :
    (after.find place).map skeleton = (before.find place).map skeleton := by
  rw [← find_skeleton, alike, find_skeleton]

/-- What stands at a place is a directory in both trees or in none, and has the same entries. -/
theorem find_alike_directory (alike : after.skeleton = before.skeleton) {place : Path} {entries : List (String × FileTree)}
    (stands : before.find place = .ok (.directory entries)) :
    ∃ entries', after.find place = .ok (.directory entries') ∧ skeletonAmong entries' = skeletonAmong entries := by
  have both := find_alike alike place
  rw [stands] at both
  rcases now : after.find place with refusal | bytes | entries' | target <;> rw [now] at both
  · cases both
  · cases both
  · exact ⟨entries', rfl, FileTree.directory.inj (Except.ok.inj both)⟩
  · cases both

end Alike

/-! ### Files that are written over -/

theorem skeletonAmong_alter {entries : List (String × FileTree)} {name : String} {child : FileTree}
    (known : Members.get? entries name = some child) {change : Option FileTree → FileTree}
    (same : (change (some child)).skeleton = child.skeleton) :
    skeletonAmong (Members.alter entries name change) = skeletonAmong entries := by
  induction entries with
  | nil => cases known
  | cons entry rest ih =>
    obtain ⟨first, tree⟩ := entry
    by_cases here : first = name
    · subst here
      obtain rfl := Option.some.inj ((Members.get?_cons_self rest first tree).symm.trans known)
      rw [Members.alter_cons_self, skeletonAmong, skeletonAmong, same]
    · rw [Members.get?_cons_of_ne rest here] at known
      rw [Members.alter_cons_of_ne rest here, skeletonAmong, skeletonAmong, ih known]

theorem skeleton_put {tree : FileTree} {place : Path} {present : ByteArray}
    (stands : tree.find place = .ok (.file present)) (bytes : ByteArray) :
    (tree.put place (.file bytes)).skeleton = tree.skeleton := by
  induction place generalizing tree with
  | nil =>
    obtain rfl : tree = .file present := Except.ok.inj stands
    rfl
  | cons name rest ih =>
    obtain ⟨entries, child, rfl, known, below⟩ := find_cons_ok stands
    rw [put, skeleton, skeleton, skeletonAmong_alter known (ih below)]

/-- The files at some places hold new bytes, and nothing else differs. -/
structure Rewritten (files : List (Path × ByteArray)) (before after : FileTree) : Prop where
  alike : after.skeleton = before.skeleton
  written : ∀ file ∈ files, after.find file.1 = .ok (.file file.2)
  kept (place : Path) (bytes : ByteArray) : place ∉ Members.names files →
    before.find place = .ok (.file bytes) → after.find place = .ok (.file bytes)

variable {files : List (Path × ByteArray)} {before middle after : FileTree}

theorem Rewritten.refl (tree : FileTree) : Rewritten [] tree tree :=
  ⟨rfl, List.forall_mem_nil _, fun _ _ _ stands => stands⟩

/-- One more file is written over. -/
theorem Rewritten.put (rewritten : Rewritten files before middle) {place : Path} {present : ByteArray}
    (fresh : place ∉ Members.names files) (stands : middle.find place = .ok (.file present)) (bytes : ByteArray) :
    Rewritten (files ++ [(place, bytes)]) before (middle.put place (.file bytes)) := by
  obtain ⟨grown, here⟩ := put_over stands bytes
  have apart {other : Path} {held : ByteArray} (different : other ≠ place)
      (there : middle.find other = .ok (.file held)) :
      (middle.put place (.file bytes)).find other = .ok (.file held) := by
    obtain ⟨now, there', either⟩ := grown.file there
    rwa [either.resolve_left different] at there'
  refine ⟨(skeleton_put stands bytes).trans rewritten.alike, fun file isFile => ?_, fun other held absent there => ?_⟩
  · rcases List.mem_append.mp isFile with old | new
    · exact apart (fun same => fresh (same ▸ List.mem_map_of_mem old)) (rewritten.written file old)
    · rw [List.mem_singleton.mp new]
      exact here
  · simp only [Members.names, List.map_append, List.mem_append, not_or] at absent
    exact apart (fun same => absent.2 (List.mem_singleton.mpr same)) (rewritten.kept other held absent.1 there)

/-- A file at a place that is written holds the new bytes. -/
theorem Rewritten.read_written (rewritten : Rewritten files before after) {path place : Path} {bytes present : ByteArray}
    (isFile : (place, bytes) ∈ files) (located : before.locate path = .ok place) (read : before.read path = .ok present) :
    after.read path = .ok bytes := by
  obtain ⟨short, -⟩ := read_ok_iff.mp read
  exact read_ok_iff.mpr ⟨short, place, (locate_alike rewritten.alike path).trans located, rewritten.written _ isFile⟩

/-- Elsewhere the same is read, or refused. -/
theorem Rewritten.read_kept (rewritten : Rewritten files before after) {path : Path}
    (apart : ∀ place, before.locate path = .ok place → place ∉ Members.names files) :
    after.read path = before.read path := by
  unfold read
  rw [locate_alike rewritten.alike]
  split
  · rfl
  · cases located : before.locate path with
    | error refusal => rfl
    | ok place =>
      -- Of what stands there the result shows only whether it is a file, and what the file holds.
      have both := find_alike rewritten.alike place
      dsimp only [bind, Except.bind]
      rcases stands : before.find place with refusal | bytes | entries | target
      · rcases now : after.find place with refusal' | found <;> rw [stands, now] at both
        · rw [Except.error.inj both]
        · cases both
      · rw [rewritten.kept place bytes (apart place located) stands]
      · obtain ⟨entries', now, -⟩ := find_alike_directory rewritten.alike stands
        rw [now]
      · rw [(link_alike rewritten.alike place target).mpr stands]

end Phrasebook.FileTree
