import Phrasebook.Proofs.Files.Growth

/-!
# Writing files

A file that was written can be read, and the tree has grown at the place that the path of the file leads
to, and nowhere else. A file that can be read can be written.
-/

namespace Phrasebook.FileTree

open Files

/-! ### Places for new files -/

theorem find_append_ok {tree found : FileTree} {home rest : Path} {name : String}
    (stands : tree.find (home ++ name :: rest) = .ok found) :
    ∃ entries, tree.find home = .ok (.directory entries) := by
  induction home generalizing tree with
  | nil =>
    obtain ⟨entries, child, rfl, -, -⟩ := find_cons_ok stands
    exact ⟨entries, rfl⟩
  | cons first home ih =>
    obtain ⟨entries, child, rfl, known, below⟩ := find_cons_ok stands
    obtain ⟨others, here⟩ := ih below
    exact ⟨others, (find_entry known home).trans here⟩

theorem find_append {tree found : FileTree} {home : Path} (stands : tree.find home = .ok found) (rest : Path) :
    tree.find (home ++ rest) = found.find rest := by
  induction home generalizing tree with
  | nil =>
    obtain rfl : tree = found := Except.ok.inj stands
    rfl
  | cons first home ih =>
    obtain ⟨entries, child, rfl, known, below⟩ := find_cons_ok stands
    rw [List.cons_append, find_entry known]
    exact ih below

theorem find_dropLast {tree found : FileTree} {place : Path} (stands : tree.find place = .ok found) :
    ∃ above, tree.find place.dropLast = .ok above := by
  rcases List.eq_nil_or_concat' place with rfl | ⟨home, name, rfl⟩
  · exact ⟨found, stands⟩
  · obtain ⟨entries, home'⟩ := find_append_ok stands
    exact ⟨_, by rw [List.dropLast_concat]; exact home'⟩

/-- Some steps come to a name in a directory, at which nothing stands. -/
inductive VacantAt (tree : FileTree) (place : Path) : List String → Path → Prop where
  | intro {front : List String} {home : Path} {name : String} {entries : List (String × FileTree)}
      (arrived : tree.advance place front = .arrived home) (stands : tree.find home = .ok (.directory entries))
      (notUp : name ≠ up) (notSingle : name ≠ single) (missing : tree.find (home ++ [name]) = .error .missing) :
      VacantAt tree place (front ++ [name]) (home ++ [name])

theorem vacantAt {tree : FileTree} {place vacant : Path} {steps : List String}
    (h : tree.advance place steps = .vacant vacant) : VacantAt tree place steps vacant := by
  induction steps generalizing place with
  | nil => cases h
  | cons name rest ih =>
    cases firstStep tree place name rest with
    | on next same =>
      rw [same] at h
      obtain ⟨arrived, stands, notUp, notSingle, missing⟩ := ih h
      exact .intro ((same _).trans arrived) stands notUp notSingle missing
    | link target same => rw [same] at h; cases h
    | vacant entries stands notUp notSingle missing last =>
      subst last
      obtain rfl := Progress.vacant.inj ((advance_vacant stands notUp notSingle missing).symm.trans h)
      exact @VacantAt.intro _ _ [] _ _ _ rfl stands notUp notSingle missing
    | stuck refusal same => rw [same] at h; cases h

theorem advance_arrived_append {tree : FileTree} {place between : Path} {first : List String}
    (arrived : tree.advance place first = .arrived between) (second : List String) :
    tree.advance place (first ++ second) = tree.advance between second := by
  induction first generalizing place with
  | nil =>
    obtain rfl : place = between := Progress.arrived.inj arrived
    rfl
  | cons name rest ih =>
    rw [List.cons_append]
    cases firstStep tree place name rest with
    | on next same =>
      rw [same] at arrived ⊢
      exact ih arrived
    | link target same => rw [same] at arrived; cases arrived
    | vacant entries stands notUp notSingle missing last =>
      rw [last, advance_vacant stands notUp notSingle missing] at arrived
      cases arrived
    | stuck refusal same => rw [same] at arrived; cases arrived

/-- Steps that came to a vacant place arrive there once a file stands at it. -/
theorem Grown.advance_filled {touched : Path → Prop} {before after : FileTree}
    (grown : Grown touched before after) {place vacant : Path} {steps : List String} {bytes : ByteArray}
    (h : before.advance place steps = .vacant vacant) (stands : after.find vacant = .ok (.file bytes)) :
    after.advance place steps = .arrived vacant := by
  obtain ⟨arrived, home, notUp, notSingle, -⟩ := vacantAt h
  obtain ⟨entries', home'⟩ := grown.directory home
  have arrived' := (grown.advance (.of_arrived arrived)).trans arrived
  rw [advance_arrived_append arrived']
  simp only [FileTree.advance, home', stands, if_neg notUp, if_neg notSingle]

theorem Grown.walk_filled {touched : Path → Prop} {before after : FileTree} (grown : Grown touched before after)
    {links : Nat} {place vacant : Path} {steps : List String} {bytes : ByteArray}
    (walk : Walk before links place steps (.vacant vacant)) (stands : after.find vacant = .ok (.file bytes)) :
    Walk after links place steps (.found vacant) := by
  generalize lead : Lead.vacant vacant = goal at walk
  induction walk with
  | found arrived => cases lead
  | vacant came =>
    obtain rfl := Lead.vacant.inj lead
    exact .found (grown.advance_filled came stands)
  | link atLink on ih => exact .link ((grown.advance (.of_atLink atLink)).trans atLink) (ih lead)

/-- A vacant place is a name in a directory. -/
theorem Walk.vacant_home {tree : FileTree} {links : Nat} {place vacant : Path} {steps : List String}
    (walk : Walk tree links place steps (.vacant vacant)) :
    ∃ home name entries, vacant = home ++ [name] ∧ tree.find home = .ok (.directory entries) ∧
      tree.find vacant = .error .missing := by
  generalize lead : Lead.vacant vacant = goal at walk
  induction walk with
  | found arrived => cases lead
  | vacant came =>
    obtain rfl := Lead.vacant.inj lead
    obtain ⟨-, stands, -, -, missing⟩ := vacantAt came
    exact ⟨_, _, _, rfl, stands, missing⟩
  | link atLink on ih => exact ih lead

/-! ### What stands at the end of a path -/

/-- Where steps come to, something stands. -/
theorem advance_stands {tree found : FileTree} {place : Path} {steps : List String}
    (stands : tree.find place = .ok found) :
    (∀ reached, tree.advance place steps = .arrived reached → ∃ there, tree.find reached = .ok there) ∧
      ∀ home target rest, tree.advance place steps = .atLink home target rest →
        ∃ there, tree.find home = .ok there := by
  -- Every step leads from a place where something stands to another, also a step up.
  induction steps generalizing place found with
  | nil =>
    refine ⟨fun reached arrived => ?_, fun home target rest atLink => (by cases atLink)⟩
    obtain rfl := Progress.arrived.inj arrived
    exact ⟨found, stands⟩
  | cons name rest ih =>
    unfold advance
    rw [stands]
    cases found with
    | file bytes => simp
    | link target => simp
    | directory entries =>
      dsimp only
      by_cases isUp : name = up
      · rw [if_pos isUp]
        obtain ⟨above, there⟩ := find_dropLast stands
        exact ih there
      by_cases isSingle : name = single
      · rw [if_neg isUp, if_pos isSingle]
        exact ih stands
      rw [if_neg isUp, if_neg isSingle]
      rcases entry : tree.find (place ++ [name]) with refusal | bytes | others | target
      · dsimp only
        split <;> simp
      · exact ih entry
      · exact ih entry
      · refine ⟨fun reached arrived => (by cases arrived), fun home target' rest' atLink => ?_⟩
        obtain ⟨rfl, -, -⟩ := Progress.atLink.inj atLink
        exact ⟨_, stands⟩

theorem Walk.stands {tree found : FileTree} {links : Nat} {place reached : Path} {steps : List String}
    (walk : Walk tree links place steps (.found reached)) (stands : tree.find place = .ok found) :
    ∃ there, tree.find reached = .ok there := by
  generalize lead : Lead.found reached = goal at walk
  induction walk generalizing found with
  | found arrived =>
    obtain rfl := Lead.found.inj lead
    exact (advance_stands stands).1 _ arrived
  | vacant came => cases lead
  | link atLink on ih =>
    obtain ⟨there, home⟩ := (advance_stands stands).2 _ _ _ atLink
    split at ih
    · exact ih rfl lead
    · exact ih home lead

theorem locate_stands {tree : FileTree} {names : List String} {place : Path}
    (located : tree.locate names = .ok place) : ∃ there, tree.find place = .ok there :=
  @Walk.stands tree tree _ _ _ _ (walk_found (locate_ok_iff.mp located)) rfl

/-! ### Writing -/

/-- A directory that is made at a missing name. -/
theorem make_grown {tree : FileTree} {path parent : Path} (located : tree.locate path.dropLast = .ok parent)
    (missing : tree.find (parent ++ path.getLast?.toList) = .error .missing) :
    Grown (fun _ => False) tree (tree.put (parent ++ path.getLast?.toList) empty) := by
  obtain ⟨there, stands⟩ := locate_stands located
  cases last : path.getLast? with
  | none =>
    rw [last, Option.toList_none, List.append_nil, stands] at missing
    cases missing
  | some name =>
    rw [last, Option.toList_some] at missing
    rw [Option.toList_some]
    have below := find_append stands [name]
    rw [missing] at below
    cases there with
    | file bytes => cases below
    | link target => cases below
    | directory entries => exact grown_put stands .directory (.inl ⟨_, missing⟩) fun bytes isFile => by cases isFile

/-- A file that is put over a file. -/
theorem put_over {tree : FileTree} {place : Path} {present : ByteArray}
    (stands : tree.find place = .ok (.file present)) (bytes : ByteArray) :
    Grown (· = place) tree (tree.put place (.file bytes)) ∧
      (tree.put place (.file bytes)).find place = .ok (.file bytes) := by
  rcases List.eq_nil_or_concat' place with rfl | ⟨home, name, rfl⟩
  · obtain rfl : tree = .file present := Except.ok.inj stands
    refine ⟨⟨fun path => ?_, rfl⟩, rfl⟩
    cases path with
    | nil => exact .written rfl _ _
    | cons name rest => exact .absent _ _
  · obtain ⟨entries, home'⟩ := find_append_ok stands
    exact ⟨grown_put home' (.file bytes) (.inr ⟨present, bytes, stands, rfl⟩) fun _ _ => rfl, find_put home'⟩

/-- Where a file is put when it is written: over a file, or at a vacant place. -/
theorem write_ok {tree now : FileTree} {path : Path} {bytes : ByteArray} (written : tree.write path bytes = .ok now) :
    path.text.utf8ByteSize ≤ maxPathBytes ∧ ∃ place, now = tree.put place (.file bytes) ∧
      (tree.follow path = .vacant place ∨
        tree.follow path = .found place ∧ ∃ present, tree.find place = .ok (.file present)) := by
  unfold write at written
  split at written
  · cases written
  · next short =>
    refine ⟨Nat.not_lt.mp short, ?_⟩
    split at written
    · next place vacant => exact ⟨place, (Except.ok.inj written).symm, .inl vacant⟩
    · next place found =>
      split at written
      · next present stands => exact ⟨place, (Except.ok.inj written).symm, .inr ⟨found, present, stands⟩⟩
      · cases written
    · cases written

/-- A file that was written is read again, and only the place that its path leads to is touched. -/
theorem write_grown {tree now : FileTree} {path : Path} {bytes : ByteArray}
    (written : tree.write path bytes = .ok now) :
    Grown (fun place => now.locate path = .ok place) tree now ∧ now.read path = .ok bytes := by
  obtain ⟨short, place, rfl, vacant | ⟨found, present, stands⟩⟩ := write_ok written
  · have walk := walk_vacant vacant
    obtain ⟨home, name, entries, rfl, home', missing⟩ := walk.vacant_home
    have grown : Grown (· = home ++ [name]) tree (tree.put (home ++ [name]) (.file bytes)) :=
      grown_put home' (.file bytes) (.inl ⟨_, missing⟩) fun _ _ => rfl
    have stands : (tree.put (home ++ [name]) (.file bytes)).find (home ++ [name]) = .ok (.file bytes) := find_put home'
    have located := locate_ok_iff.mpr (grown.walk_filled walk stands).followFrom_eq
    exact ⟨grown.mono fun _ same => same ▸ located, read_ok_iff.mpr ⟨short, _, located, stands⟩⟩
  · obtain ⟨grown, stands'⟩ := put_over stands bytes
    have located := grown.locate (locate_ok_iff.mpr found)
    exact ⟨grown.mono fun _ same => same ▸ located, read_ok_iff.mpr ⟨short, _, located, stands'⟩⟩

/-- A file that can be read can be written. -/
theorem write_of_read {tree : FileTree} {path : Path} {present : ByteArray} (read : tree.read path = .ok present)
    (bytes : ByteArray) : ∃ now, tree.write path bytes = .ok now := by
  obtain ⟨short, place, located, stands⟩ := read_ok_iff.mp read
  rw [write, if_neg (Nat.not_lt.mpr short), locate_ok_iff.mp located]
  simp only [stands]
  exact ⟨_, rfl⟩

/-- A file that cannot be written is refused. -/
theorem write_fault {tree : FileTree} {path : Path} {bytes : ByteArray} {fault : Fault}
    (failed : tree.write path bytes = .error fault) : ∃ refusal, fault = .refused refusal path.text := by
  unfold write at failed
  split at failed
  · exact ⟨_, (Except.error.inj failed).symm⟩
  · split at failed
    · cases failed
    · split at failed
      · cases failed
      · exact ⟨_, (Except.error.inj failed).symm⟩
    · exact ⟨_, (Except.error.inj failed).symm⟩

/-- What a file holds that is written at the end of: nothing, if it cannot be read. -/
def contents (tree : FileTree) (path : Path) : ByteArray := (tree.read path).toOption.getD .empty

/-- Writing at the end of a file is writing it. -/
theorem append_write (tree : FileTree) (path : Path) (bytes : ByteArray) :
    tree.append path bytes = tree.write path (tree.contents path ++ bytes) := by
  unfold append contents
  cases tree.read path with
  | ok present => rfl
  | error fault => exact congrArg (tree.write path) ByteArray.empty_append.symm

end Phrasebook.FileTree
