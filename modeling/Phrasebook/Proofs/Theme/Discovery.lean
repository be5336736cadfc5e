import Mathlib.Data.String.Basic
import Phrasebook.Proofs.Json.Members
import Phrasebook.Proofs.Template.Call
import Phrasebook.Theme.Discovery

/-!
# The paths of templates

In a tree whose directories give every entry a name of its own every template is found once:
`discover_ascending` says that the paths found ascend, each before the next.
-/

namespace Phrasebook

open Files

namespace FileTree

/-- Whether a name can be the name of an entry. -/
def isEntryName (name : String) : Bool := !name.toList.contains '/'

mutual

/-- Whether the entries of all directories have names, and no two of one directory the same. -/
def isNamed : FileTree → Bool
  | .file _ => true
  | .link _ => true
  | .directory entries => decide (Members.names entries).Nodup && areNamed entries

/-- Whether the entries of a directory have names, and those below them. -/
def areNamed : List (String × FileTree) → Bool
  | [] => true
  | (name, tree) :: rest => isEntryName name && isNamed tree && areNamed rest

end

variable {tree : FileTree} {entries : List (String × FileTree)}

theorem isNamed_directory (named : (FileTree.directory entries).isNamed = true) :
    (Members.names entries).Nodup ∧ areNamed entries = true := by
  rw [isNamed, Bool.and_eq_true] at named
  exact ⟨of_decide_eq_true named.1, named.2⟩

theorem areNamed_cons {name : String} (named : areNamed ((name, tree) :: entries) = true) :
    isEntryName name = true ∧ tree.isNamed = true ∧ areNamed entries = true := by
  simpa [areNamed, and_assoc] using named

theorem areNamed_mem (named : areNamed entries = true) {name : String} (isEntry : (name, tree) ∈ entries) :
    tree.isNamed = true := by
  induction entries with
  | nil => exact absurd isEntry List.not_mem_nil
  | cons entry rest ih =>
    obtain ⟨-, here, later⟩ := areNamed_cons named
    rcases List.mem_cons.mp isEntry with rfl | isLater
    · exact here
    · exact ih later isLater

theorem isNamed_find (named : tree.isNamed = true) {path : Path} {found : FileTree}
    (stands : tree.find path = .ok found) : found.isNamed = true := by
  induction path generalizing tree with
  | nil => exact Except.ok.inj stands ▸ named
  | cons name rest ih =>
    cases tree with
    | directory entries =>
      rw [find] at stands
      split at stands
      · cases stands
      · next child isChild =>
        exact ih (areNamed_mem (isNamed_directory named).2 (Members.mem_of_get? isChild)) stands
    | _ => cases stands

end FileTree

open FileTree (isEntryName isNamed areNamed isNamed_directory areNamed_cons isNamed_find)

/-! ### Written paths -/

/-- Names without slashes can be told from the path that is written with them. -/
theorem Files.Path.joined_inj {first second : List String} (filled : first ≠ [] ∧ second ≠ [])
    (names : ∀ name ∈ first ++ second, isEntryName name = true) (same : Path.joined first = Path.joined second) :
    first = second := by
  have split {names : List String} (filled : names ≠ []) (each : ∀ name ∈ names, isEntryName name = true) :
      (Path.joined names).toList.splitOn '/' = names.map String.toList := by
    rw [Path.joined, String.toList_intercalate]
    refine List.splitOn_intercalate '/' ?_ (by simpa using filled)
    simpa [isEntryName] using each
  obtain ⟨each, each'⟩ := List.forall_mem_append.mp names
  have same := (split filled.1 each).symm.trans ((congrArg (·.toList.splitOn '/') same).trans (split filled.2 each'))
  exact List.map_injective_iff.mpr (fun _ _ => String.toList_inj.mp) same

namespace Theme

/-! ### Templates of a directory -/

variable (scan : Scan)

mutual

theorem templatesAt_below {tree : FileTree} (named : tree.isNamed = true) (path : List String) :
    ∀ found ∈ scan.templatesAt path tree, ∃ rest, found = path ++ rest ∧ ∀ name ∈ rest, isEntryName name = true := by
  cases tree with
  | file bytes =>
    intro found isFound
    rw [Scan.templatesAt] at isFound
    split at isFound
    · exact ⟨[], by rw [List.append_nil]; exact List.mem_singleton.mp isFound, List.forall_mem_nil _⟩
    · cases isFound
  | link target => exact List.forall_mem_nil _
  | directory entries =>
    intro found isFound
    rw [Scan.templatesAt] at isFound
    split at isFound
    · cases isFound
    · obtain ⟨name, rest, -, same, each⟩ := templatesAmong_below (isNamed_directory named).2 path found isFound
      exact ⟨name :: rest, same, each⟩

theorem templatesAmong_below {entries : List (String × FileTree)} (named : areNamed entries = true)
    (path : List String) : ∀ found ∈ scan.templatesAmong path entries, ∃ name rest, name ∈ Members.names entries ∧
      found = path ++ name :: rest ∧ ∀ part ∈ name :: rest, isEntryName part = true := by
  cases entries with
  | nil => exact List.forall_mem_nil _
  | cons entry rest =>
    obtain ⟨first, tree⟩ := entry
    obtain ⟨isName, here, later⟩ := areNamed_cons named
    intro found isFound
    rw [Scan.templatesAmong, List.mem_append] at isFound
    rcases isFound with isHere | isLater
    · obtain ⟨below, same, each⟩ := templatesAt_below here (path ++ [first]) found isHere
      refine ⟨first, below, List.mem_cons_self, ?_, List.forall_mem_cons.mpr ⟨isName, each⟩⟩
      rw [same, List.append_assoc]
      rfl
    · obtain ⟨name, below, isEntry, same, each⟩ := templatesAmong_below later path found isLater
      exact ⟨name, below, List.mem_cons_of_mem _ isEntry, same, each⟩

end

mutual

theorem templatesAt_nodup {tree : FileTree} (named : tree.isNamed = true) (path : List String) :
    (scan.templatesAt path tree).Nodup := by
  cases tree with
  | file bytes =>
    rw [Scan.templatesAt]
    split
    · exact List.nodup_singleton path
    · exact List.nodup_nil
  | link target => exact List.nodup_nil
  | directory entries =>
    obtain ⟨distinct, each⟩ := isNamed_directory named
    rw [Scan.templatesAt]
    split
    · exact List.nodup_nil
    · exact templatesAmong_nodup distinct each path

theorem templatesAmong_nodup {entries : List (String × FileTree)} (distinct : (Members.names entries).Nodup)
    (named : areNamed entries = true) (path : List String) : (scan.templatesAmong path entries).Nodup := by
  cases entries with
  | nil => exact List.nodup_nil
  | cons entry rest =>
    obtain ⟨first, tree⟩ := entry
    obtain ⟨fresh, distinct⟩ := List.nodup_cons.mp distinct
    obtain ⟨-, here, later⟩ := areNamed_cons named
    rw [Scan.templatesAmong]
    refine List.nodup_append.mpr
      ⟨templatesAt_nodup here (path ++ [first]), templatesAmong_nodup distinct later path, ?_⟩
    rintro found isHere _ isLater rfl
    -- The entry that a path goes through can be read off it.
    obtain ⟨below, same, -⟩ := templatesAt_below scan here (path ++ [first]) found isHere
    obtain ⟨name, below', isEntry, same', -⟩ := templatesAmong_below scan later path found isLater
    rw [same, List.append_assoc, List.append_cancel_left_eq] at same'
    exact fresh ((List.cons.inj same').1 ▸ isEntry)

end

/-! ### Templates of a theme -/

/-- Every template is found once, and the paths ascend. -/
theorem discover_ascending {tree : FileTree} {root : Path} {scan : Scan} {paths : List String}
    (named : tree.isNamed = true) (found : discover tree root scan = .ok paths) : paths.Pairwise (· < ·) := by
  unfold discover at found
  obtain ⟨place, -, found⟩ := bind_ok found
  split at found
  · next entries stands =>
    obtain rfl := Except.ok.inj found
    obtain ⟨distinct, each⟩ := isNamed_directory (isNamed_find named stands)
    have nodup : ((scan.templatesAmong [] entries).map Path.joined).Nodup := by
      refine (templatesAmong_nodup scan distinct each []).map_on fun first isFirst second isSecond same => ?_
      obtain ⟨name, rest, -, rfl, names⟩ := templatesAmong_below scan each [] first isFirst
      obtain ⟨name', rest', -, rfl, names'⟩ := templatesAmong_below scan each [] second isSecond
      exact Path.joined_inj ⟨List.cons_ne_nil _ _, List.cons_ne_nil _ _⟩ (List.forall_mem_append.mpr ⟨names, names'⟩)
        same
    have sorted := @List.pairwise_mergeSort _ (fun a b : String => decide (a ≤ b))
      (fun a b c ab bc => decide_eq_true (le_trans (of_decide_eq_true ab) (of_decide_eq_true bc)))
      (fun a b => by simpa using le_total a b) ((scan.templatesAmong [] entries).map Path.joined)
    have apart := (List.mergeSort_perm _ fun a b : String => decide (a ≤ b)).nodup_iff.mpr nodup
    exact (sorted.and apart).imp fun both => lt_of_le_of_ne (of_decide_eq_true both.1) both.2
  · obtain rfl := Except.ok.inj found
    exact .nil

/-- Templates that stand in the order of their paths are found in this order. -/
theorem discover_sorted {tree : FileTree} {root place : Path} {scan : Scan} {entries : List (String × FileTree)}
    {paths : List String} (resolved : tree.resolve root = .ok place)
    (stands : tree.find place = .ok (.directory entries))
    (found : (scan.templatesAmong [] entries).map Path.joined = paths) (sorted : paths.Pairwise (· ≤ ·)) :
    discover tree root scan = .ok paths := by
  unfold discover
  rw [resolved]
  dsimp only [bind, Except.bind]
  rw [stands]
  dsimp only
  rw [found, List.mergeSort_of_pairwise (sorted.imp fun before => decide_eq_true before)]

end Theme

end Phrasebook
