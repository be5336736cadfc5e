import Phrasebook.Files.Resolve
import Phrasebook.Proofs.Json.Members
import Phrasebook.Proofs.Template.Call

/-!
# What writing does to a tree of files

A tree grows when files are written and directories are made: files keep their contents except at the
places that are touched, and no link comes or goes. So a path that led to something leads to the same
place afterwards, and what was read at a place that is not touched is read again.
-/

namespace Phrasebook.FileTree

open Files

/-- What becomes of what stands at a path, or of nothing. Only what is touched is written. -/
inductive Kept (touched : Prop) : Except Refusal FileTree → Except Refusal FileTree → Prop where
  | file (bytes : ByteArray) : Kept touched (.ok (.file bytes)) (.ok (.file bytes))
  | written (isTouched : touched) (bytes bytes' : ByteArray) :
    Kept touched (.ok (.file bytes)) (.ok (.file bytes'))
  | directory (entries entries' : List (String × FileTree)) :
    Kept touched (.ok (.directory entries)) (.ok (.directory entries'))
  | link (target : String) : Kept touched (.ok (.link target)) (.ok (.link target))
  | absent (refusal refusal' : Refusal) : Kept touched (.error refusal) (.error refusal')
  | made (refusal : Refusal) (entries : List (String × FileTree)) :
    Kept touched (.error refusal) (.ok (.directory entries))
  | filled (isTouched : touched) (refusal : Refusal) (bytes : ByteArray) :
    Kept touched (.error refusal) (.ok (.file bytes))

namespace Kept

variable {touched other : Prop} {before middle after : Except Refusal FileTree}

theorem refl (touched : Prop) (found : Except Refusal FileTree) : Kept touched found found := by
  rcases found with refusal | bytes | entries | target
  · exact .absent refusal refusal
  · exact .file bytes
  · exact .directory entries entries
  · exact .link target

theorem trans (first : Kept touched before middle) (second : Kept touched middle after) :
    Kept touched before after := by
  cases first with
  | file bytes => exact second
  | written isTouched bytes bytes' => cases second <;> exact .written isTouched _ _
  | directory entries entries' => cases second; exact .directory _ _
  | link target => exact second
  | absent refusal refusal' =>
    cases second with
    | absent => exact .absent _ _
    | made => exact .made _ _
    | filled isTouched => exact .filled isTouched _ _
  | made refusal entries => cases second; exact .made _ _
  | filled isTouched refusal bytes => cases second <;> exact .filled isTouched _ _

theorem mono (kept : Kept touched before after) (wider : touched → other) : Kept other before after := by
  cases kept with
  | file bytes => exact .file bytes
  | written isTouched bytes bytes' => exact .written (wider isTouched) _ _
  | directory entries entries' => exact .directory _ _
  | link target => exact .link target
  | absent refusal refusal' => exact .absent _ _
  | made refusal entries => exact .made _ _
  | filled isTouched refusal bytes => exact .filled (wider isTouched) _ _

theorem link_iff (kept : Kept touched before after) (target : String) :
    after = .ok (.link target) ↔ before = .ok (.link target) := by
  cases kept <;> simp

end Kept

/-- Files are written at touched places only, directories are made, and links stay. -/
structure Grown (touched : Path → Prop) (before after : FileTree) : Prop where
  stands (path : Path) : Kept (touched path) (before.find path) (after.find path)
  linkCount : after.linkCount = before.linkCount

namespace Grown

variable {touched other : Path → Prop} {before middle after : FileTree}

theorem refl (touched : Path → Prop) (tree : FileTree) : Grown touched tree tree :=
  ⟨fun path => .refl (touched path) (tree.find path), rfl⟩

theorem trans (first : Grown touched before middle) (second : Grown touched middle after) :
    Grown touched before after :=
  ⟨fun path => (first.stands path).trans (second.stands path), second.linkCount.trans first.linkCount⟩

theorem mono (grown : Grown touched before after) (wider : ∀ path, touched path → other path) :
    Grown other before after :=
  ⟨fun path => (grown.stands path).mono (wider path), grown.linkCount⟩

theorem file (grown : Grown touched before after) {path : Path} {bytes : ByteArray}
    (found : before.find path = .ok (.file bytes)) :
    ∃ bytes', after.find path = .ok (.file bytes') ∧ (touched path ∨ bytes' = bytes) := by
  have kept := grown.stands path
  rw [found] at kept
  generalize after.find path = now at kept
  cases kept with
  | file => exact ⟨bytes, rfl, .inr rfl⟩
  | written isTouched _ bytes' => exact ⟨bytes', rfl, .inl isTouched⟩

theorem directory (grown : Grown touched before after) {path : Path} {entries : List (String × FileTree)}
    (found : before.find path = .ok (.directory entries)) :
    ∃ entries', after.find path = .ok (.directory entries') := by
  have kept := grown.stands path
  rw [found] at kept
  generalize after.find path = now at kept
  cases kept with
  | directory _ entries' => exact ⟨entries', rfl⟩

theorem link (grown : Grown touched before after) (path : Path) (target : String) :
    after.find path = .ok (.link target) ↔ before.find path = .ok (.link target) :=
  (grown.stands path).link_iff target

end Grown

/-! ### Putting a file or a directory -/

theorem find_entry {entries : List (String × FileTree)} {name : String} {child : FileTree}
    (known : Members.get? entries name = some child) (rest : Path) :
    (directory entries).find (name :: rest) = child.find rest := by
  rw [find, known]

theorem find_absent {entries : List (String × FileTree)} {name : String}
    (unknown : Members.get? entries name = none) (rest : Path) :
    (directory entries).find (name :: rest) = .error (absence name) := by
  rw [find, unknown]

theorem find_alter_self (entries : List (String × FileTree)) (name : String)
    (change : Option FileTree → FileTree) (rest : Path) :
    (directory (Members.alter entries name change)).find (name :: rest) =
      (change (Members.get? entries name)).find rest :=
  find_entry (Members.get?_alter_self entries name change) rest

theorem find_alter_of_ne (entries : List (String × FileTree)) {name first : String} (apart : name ≠ first)
    (change : Option FileTree → FileTree) (rest : Path) :
    (directory (Members.alter entries name change)).find (first :: rest) =
      (directory entries).find (first :: rest) := by
  rw [find, find, Members.get?_alter_of_ne entries apart]

theorem linkCountAmong_alter (entries : List (String × FileTree)) (name : String)
    (change : Option FileTree → FileTree)
    (same : (change (Members.get? entries name)).linkCount =
      ((Members.get? entries name).map linkCount).getD 0) :
    linkCountAmong (Members.alter entries name change) = linkCountAmong entries := by
  induction entries with
  | nil => simpa [Members.alter, Members.get?, linkCountAmong] using same
  | cons entry rest ih =>
    obtain ⟨first, tree⟩ := entry
    by_cases here : first = name
    · subst here
      rw [Members.get?_cons_self] at same
      rw [Members.alter_cons_self, linkCountAmong, linkCountAmong, same]
      rfl
    · rw [Members.get?_cons_of_ne rest here] at same
      rw [Members.alter_cons_of_ne rest here, linkCountAmong, linkCountAmong, ih same]

/-- A change of one entry of a directory. -/
theorem grown_alter {touched : Path → Prop} {entries : List (String × FileTree)} {name : String}
    {change : Option FileTree → FileTree}
    (kept : ∀ rest, Kept (touched (name :: rest)) ((directory entries).find (name :: rest))
      ((change (Members.get? entries name)).find rest))
    (same : (change (Members.get? entries name)).linkCount =
      ((Members.get? entries name).map linkCount).getD 0) :
    Grown touched (directory entries) (directory (Members.alter entries name change)) := by
  refine ⟨fun path => ?_, linkCountAmong_alter entries name change same⟩
  cases path with
  | nil => exact .directory _ _
  | cons first rest =>
    by_cases here : name = first
    · subst here
      rw [find_alter_self]
      exact kept rest
    · rw [find_alter_of_ne entries here]
      exact .refl _ _

/-- What may be put where nothing stands: a file or an empty directory. -/
inductive IsLeaf : FileTree → Prop where
  | file (bytes : ByteArray) : IsLeaf (.file bytes)
  | directory : IsLeaf empty

theorem IsLeaf.linkCount {leaf : FileTree} (isLeaf : IsLeaf leaf) : leaf.linkCount = 0 := by
  cases isLeaf <;> rfl

theorem IsLeaf.kept {touched : Prop} {leaf : FileTree} (isLeaf : IsLeaf leaf) (refusal : Refusal) (rest : Path)
    (written : ∀ bytes, leaf = .file bytes → rest = [] → touched) :
    Kept touched (.error refusal) (leaf.find rest) := by
  cases isLeaf with
  | file bytes =>
    cases rest with
    | nil => exact .filled (written bytes rfl rfl) _ _
    | cons name rest => exact .absent _ _
  | directory =>
    cases rest with
    | nil => exact .made _ _
    | cons name rest => exact .absent _ _

theorem find_cons_ok {tree found : FileTree} {name : String} {rest : Path}
    (stands : tree.find (name :: rest) = .ok found) :
    ∃ entries child, tree = .directory entries ∧ Members.get? entries name = some child ∧
      child.find rest = .ok found := by
  cases tree with
  | file bytes => simp [find] at stands
  | link target => simp [find] at stands
  | directory entries =>
    cases known : Members.get? entries name with
    | none => simp [find_absent known] at stands
    | some child => exact ⟨entries, child, rfl, known, (find_entry known rest).symm.trans stands⟩

/-- A leaf is put into a directory, where nothing or a file stands. -/
theorem grown_put {tree leaf : FileTree} {home : Path} {name : String} {entries : List (String × FileTree)}
    (stands : tree.find home = .ok (.directory entries)) (isLeaf : IsLeaf leaf)
    (fits : (∃ refusal, tree.find (home ++ [name]) = .error refusal) ∨
      ∃ bytes bytes', tree.find (home ++ [name]) = .ok (.file bytes) ∧ leaf = .file bytes')
    {touched : Path → Prop} (written : ∀ bytes, leaf = .file bytes → touched (home ++ [name])) :
    Grown touched tree (tree.put (home ++ [name]) leaf) := by
  -- Down the path to the directory: below its first name, what is touched is what is touched behind that name.
  induction home generalizing tree touched with
  | nil =>
    obtain rfl : tree = directory entries := Except.ok.inj stands
    have either : Members.get? entries name = none ∨
        ∃ bytes bytes', Members.get? entries name = some (.file bytes) ∧ leaf = .file bytes' := by
      cases known : Members.get? entries name with
      | none => exact .inl rfl
      | some child =>
        rw [List.nil_append, find_entry known, find] at fits
        simpa using fits
    rw [List.nil_append, put]
    simp only [put]
    rcases either with unknown | ⟨bytes, bytes', known, rfl⟩
    · refine grown_alter (fun rest => ?_) (by rw [unknown]; exact isLeaf.linkCount)
      rw [find_absent unknown]
      exact isLeaf.kept _ _ fun bytes isFile isEnd => isEnd ▸ written bytes isFile
    · refine grown_alter (fun rest => ?_) (by rw [known]; rfl)
      rw [find_entry known]
      cases rest with
      | nil => exact .written (written bytes' rfl) _ _
      | cons first rest => exact .absent _ _
  | cons first home ih =>
    obtain ⟨others, child, rfl, known, below⟩ := find_cons_ok stands
    rw [List.cons_append, find_entry known] at fits
    have grown : Grown (fun rest => touched (first :: rest)) child (child.put (home ++ [name]) leaf) :=
      ih below fits written
    rw [List.cons_append, put]
    refine grown_alter (fun rest => ?_) ?_
    · rw [find_entry known, known]
      exact grown.stands rest
    · rw [known]
      exact grown.linkCount

/-- What was put into a directory stands there. -/
theorem find_put {tree leaf : FileTree} {home : Path} {name : String} {entries : List (String × FileTree)}
    (stands : tree.find home = .ok (.directory entries)) :
    (tree.put (home ++ [name]) leaf).find (home ++ [name]) = .ok leaf := by
  induction home generalizing tree with
  | nil =>
    obtain rfl : tree = directory entries := Except.ok.inj stands
    rw [List.nil_append, put, find_alter_self, put, find]
  | cons first home ih =>
    obtain ⟨others, child, rfl, known, below⟩ := find_cons_ok stands
    rw [List.cons_append, put, find_alter_self, known]
    exact ih below

/-! ### Following paths -/

/-- Steps lead on to a place or to a link. -/
inductive Progress.Reaches : Progress → Prop where
  | arrived (place : Path) : Reaches (.arrived place)
  | atLink (place : Path) (target : String) (rest : List String) : Reaches (.atLink place target rest)

theorem Progress.Reaches.of_arrived {progress : Progress} {place : Path} (same : progress = .arrived place) :
    progress.Reaches := same ▸ .arrived place

theorem Progress.Reaches.of_atLink {progress : Progress} {place : Path} {target : String} {rest : List String}
    (same : progress = .atLink place target rest) : progress.Reaches := same ▸ .atLink place target rest

theorem reaches_cons {tree : FileTree} {place : Path} {name : String} {rest : List String}
    (reaches : (tree.advance place (name :: rest)).Reaches) :
    ∃ entries, tree.find place = .ok (.directory entries) := by
  rw [advance] at reaches
  cases found : tree.find place with
  | error refusal => rw [found] at reaches; cases reaches
  | ok stands =>
    cases stands with
    | directory entries => exact ⟨entries, rfl⟩
    | file bytes => rw [found] at reaches; cases reaches
    | link target => rw [found] at reaches; cases reaches

theorem Grown.advance {touched : Path → Prop} {before after : FileTree} (grown : Grown touched before after)
    {place : Path} {steps : List String} (reaches : (before.advance place steps).Reaches) :
    after.advance place steps = before.advance place steps := by
  induction steps generalizing place with
  | nil => rfl
  | cons name rest ih =>
    obtain ⟨entries, stands⟩ := reaches_cons reaches
    obtain ⟨entries', stands'⟩ := grown.directory stands
    unfold FileTree.advance at reaches ⊢
    simp only [stands, stands'] at reaches ⊢
    by_cases isUp : name = up
    · rw [if_pos isUp] at reaches ⊢
      rw [if_pos isUp, ih reaches]
    by_cases isSingle : name = single
    · rw [if_neg isUp, if_pos isSingle] at reaches ⊢
      rw [if_neg isUp, if_pos isSingle, ih reaches]
    rw [if_neg isUp, if_neg isSingle] at reaches ⊢
    rw [if_neg isUp, if_neg isSingle]
    have kept := grown.stands (place ++ [name])
    generalize before.find (place ++ [name]) = found at kept reaches ⊢
    generalize after.find (place ++ [name]) = found' at kept ⊢
    cases kept with
    | file | written | directory => exact ih reaches
    | link target => rfl
    | absent refusal _ | made refusal _ | filled _ refusal _ =>
      dsimp only at reaches
      split at reaches <;> cases reaches

/-- A walk that leads somewhere, from link to link. -/
inductive Walk (tree : FileTree) : Nat → Path → List String → Lead → Prop where
  | found {links : Nat} {place reached : Path} {steps : List String}
      (arrived : tree.advance place steps = .arrived reached) : Walk tree links place steps (.found reached)
  | vacant {links : Nat} {place vacant : Path} {steps : List String}
      (came : tree.advance place steps = .vacant vacant) : Walk tree links place steps (.vacant vacant)
  | link {links : Nat} {place home : Path} {target : String} {steps rest : List String} {lead : Lead}
      (atLink : tree.advance place steps = .atLink home target rest)
      (on : Walk tree links (if Path.isAbsolute target then [] else home) (Path.steps target ++ rest) lead) :
      Walk tree (links + 1) place steps lead

theorem Walk.followFrom_eq {tree : FileTree} {links : Nat} {place : Path} {steps : List String} {lead : Lead}
    (walk : Walk tree links place steps lead) : tree.followFrom links place steps = lead := by
  induction walk with
  | found arrived => rw [followFrom, arrived]
  | vacant came => rw [followFrom, came]
  | link atLink on ih => rw [followFrom, atLink]; exact ih

theorem walk_or_nowhere (tree : FileTree) (links : Nat) (place : Path) (steps : List String) :
    (∃ refusal, tree.followFrom links place steps = .nowhere refusal) ∨
      Walk tree links place steps (tree.followFrom links place steps) := by
  induction links generalizing place steps with
  | zero =>
    cases moved : tree.advance place steps with
    | arrived reached => exact .inr (by rw [followFrom, moved]; exact .found moved)
    | vacant vacant => exact .inr (by rw [followFrom, moved]; exact .vacant moved)
    | stuck refusal => exact .inl ⟨refusal, by rw [followFrom, moved]⟩
    | atLink home target rest => exact .inl ⟨.tooManyLinks, by rw [followFrom, moved]⟩
  | succ links ih =>
    cases moved : tree.advance place steps with
    | arrived reached => exact .inr (by rw [followFrom, moved]; exact .found moved)
    | vacant vacant => exact .inr (by rw [followFrom, moved]; exact .vacant moved)
    | stuck refusal => exact .inl ⟨refusal, by rw [followFrom, moved]⟩
    | atLink home target rest =>
      rw [followFrom, moved]
      exact (ih _ _).imp_right (.link moved)

theorem walk_found {tree : FileTree} {links : Nat} {place reached : Path} {steps : List String}
    (found : tree.followFrom links place steps = .found reached) :
    Walk tree links place steps (.found reached) := by
  rcases walk_or_nowhere tree links place steps with ⟨refusal, nowhere⟩ | walk
  · rw [found] at nowhere
    cases nowhere
  · exact found ▸ walk

theorem walk_vacant {tree : FileTree} {links : Nat} {place vacant : Path} {steps : List String}
    (came : tree.followFrom links place steps = .vacant vacant) :
    Walk tree links place steps (.vacant vacant) := by
  rcases walk_or_nowhere tree links place steps with ⟨refusal, nowhere⟩ | walk
  · rw [came] at nowhere
    cases nowhere
  · exact came ▸ walk

theorem Grown.walk {touched : Path → Prop} {before after : FileTree} (grown : Grown touched before after)
    {links : Nat} {place reached : Path} {steps : List String}
    (walk : Walk before links place steps (.found reached)) : Walk after links place steps (.found reached) := by
  generalize lead : Lead.found reached = goal at walk
  induction walk with
  | found arrived => exact .found ((grown.advance (.of_arrived arrived)).trans arrived)
  | vacant came => cases lead
  | link atLink on ih => exact .link ((grown.advance (.of_atLink atLink)).trans atLink) (ih lead)

theorem locate_ok_iff {tree : FileTree} {names : List String} {place : Path} :
    tree.locate names = .ok place ↔ tree.follow names = .found place := by
  unfold locate
  cases tree.follow names <;> simp [Lead.place]

theorem Grown.locate {touched : Path → Prop} {before after : FileTree} (grown : Grown touched before after)
    {names : List String} {place : Path} (found : before.locate names = .ok place) :
    after.locate names = .ok place :=
  locate_ok_iff.mpr (grown.walk (walk_found (locate_ok_iff.mp found))).followFrom_eq

theorem read_ok_iff {tree : FileTree} {path : Path} {bytes : ByteArray} :
    tree.read path = .ok bytes ↔ path.text.utf8ByteSize ≤ maxPathBytes ∧
      ∃ place, tree.locate path = .ok place ∧ tree.find place = .ok (.file bytes) := by
  unfold read
  split
  · next long => simp [Nat.not_le.mpr long]
  · next short =>
    have fits : path.text.utf8ByteSize ≤ maxPathBytes := Nat.not_lt.mp short
    cases located : tree.locate path with
    | error refusal => simp [bind, Except.bind]
    | ok place =>
      cases stands : tree.find place with
      | error refusal => simp [bind, Except.bind, stands]
      | ok found => cases found <;> simp [bind, Except.bind, stands, fits]

/-- A file that could be read still can, with the same contents at a place that is not touched. -/
theorem Grown.read {touched : Path → Prop} {before after : FileTree} (grown : Grown touched before after)
    {path : Path} {bytes : ByteArray} (read : before.read path = .ok bytes) :
    ∃ bytes' place, before.locate path = .ok place ∧ after.read path = .ok bytes' ∧
      (touched place ∨ bytes' = bytes) := by
  obtain ⟨fits, place, located, stands⟩ := read_ok_iff.mp read
  obtain ⟨bytes', stands', same⟩ := grown.file stands
  exact ⟨bytes', place, located, read_ok_iff.mpr ⟨fits, place, grown.locate located, stands'⟩, same⟩

theorem Grown.read_apart {touched : Path → Prop} {before after : FileTree} (grown : Grown touched before after)
    {path place : Path} {bytes : ByteArray} (located : before.locate path = .ok place)
    (read : before.read path = .ok bytes) (apart : ¬touched place) : after.read path = .ok bytes := by
  obtain ⟨bytes', stands, located', read', either⟩ := grown.read read
  obtain rfl := Except.ok.inj (located'.symm.trans located)
  exact either.resolve_left apart ▸ read'

/-! ### The beginning of a path -/

/-- What comes of the first of some steps. Only at the end of a path may nothing stand. -/
inductive FirstStep (tree : FileTree) (place : Path) (name : String) (rest : List String) : Prop where
  | on (next : Path) (same : ∀ others, tree.advance place (name :: others) = tree.advance next others)
  | link (target : String) (same : ∀ others, tree.advance place (name :: others) = .atLink place target others)
  | vacant (entries : List (String × FileTree)) (stands : tree.find place = .ok (.directory entries))
      (notUp : name ≠ up) (notSingle : name ≠ single) (missing : tree.find (place ++ [name]) = .error .missing)
      (last : rest = [])
  | stuck (refusal : Refusal) (same : tree.advance place (name :: rest) = .stuck refusal)

theorem firstStep (tree : FileTree) (place : Path) (name : String) (rest : List String) :
    FirstStep tree place name rest := by
  rcases stands : tree.find place with refusal | bytes | entries | target
  · exact .stuck refusal (by simp only [FileTree.advance, stands])
  · exact .stuck .notDirectory (by simp only [FileTree.advance, stands])
  · by_cases isUp : name = up
    · exact .on place.dropLast fun others => by simp only [FileTree.advance, stands, if_pos isUp]
    by_cases isSingle : name = single
    · exact .on place fun others => by simp only [FileTree.advance, stands, if_neg isUp, if_pos isSingle]
    rcases entry : tree.find (place ++ [name]) with refusal | bytes | others | target
    · by_cases isVacant : refusal = .missing ∧ rest = []
      · exact .vacant entries stands isUp isSingle (isVacant.1 ▸ entry) isVacant.2
      · exact .stuck refusal (by
          simp only [FileTree.advance, stands, entry, if_neg isUp, if_neg isSingle, if_neg isVacant])
    · exact .on (place ++ [name]) fun others => by
        simp only [FileTree.advance, stands, entry, if_neg isUp, if_neg isSingle]
    · exact .on (place ++ [name]) fun others => by
        simp only [FileTree.advance, stands, entry, if_neg isUp, if_neg isSingle]
    · exact .link target fun others => by
        simp only [FileTree.advance, stands, entry, if_neg isUp, if_neg isSingle]
  · exact .stuck .notDirectory (by simp only [FileTree.advance, stands])

/-- Nothing stands at the name in a directory. -/
theorem advance_vacant {tree : FileTree} {place : Path} {name : String} {entries : List (String × FileTree)}
    (stands : tree.find place = .ok (.directory entries)) (notUp : name ≠ up) (notSingle : name ≠ single)
    (missing : tree.find (place ++ [name]) = .error .missing) :
    tree.advance place [name] = .vacant (place ++ [name]) := by
  simp only [FileTree.advance, stands, missing, if_neg notUp, if_neg notSingle, and_self, if_true]

theorem advance_append {tree : FileTree} {place : Path} {first second : List String}
    (reaches : (tree.advance place (first ++ second)).Reaches) :
    (∃ between, tree.advance place first = .arrived between) ∨
      ∃ home target rest, tree.advance place first = .atLink home target rest ∧
        tree.advance place (first ++ second) = .atLink home target (rest ++ second) := by
  induction first generalizing place with
  | nil => exact .inl ⟨place, rfl⟩
  | cons name rest ih =>
    rw [List.cons_append] at reaches ⊢
    cases firstStep tree place name (rest ++ second) with
    | on next same =>
      rw [same] at reaches ⊢
      rw [same]
      exact ih reaches
    | link target same => exact .inr ⟨place, target, rest, same rest, same (rest ++ second)⟩
    | vacant entries stands notUp notSingle missing last =>
      rw [last, advance_vacant stands notUp notSingle missing] at reaches
      cases reaches
    | stuck refusal same =>
      rw [same] at reaches
      cases reaches

theorem Walk.append {tree : FileTree} {links : Nat} {place reached : Path} {first second : List String}
    (walk : Walk tree links place (first ++ second) (.found reached)) :
    ∃ between, Walk tree links place first (.found between) := by
  generalize whole : first ++ second = steps at walk
  generalize lead : Lead.found reached = goal at walk
  induction walk generalizing first with
  | found arrived =>
    subst whole
    rcases advance_append (.of_arrived arrived) with ⟨between, here⟩ | ⟨home, target, rest, -, atLink⟩
    · exact ⟨between, .found here⟩
    · rw [atLink] at arrived
      cases arrived
  | vacant came => cases lead
  | link atLink on ih =>
    subst whole
    rcases advance_append (.of_atLink atLink) with ⟨between, here⟩ | ⟨home, target, rest, here, atLink'⟩
    · exact ⟨between, .found here⟩
    · obtain ⟨rfl, rfl, rfl⟩ := Progress.atLink.inj (atLink'.symm.trans atLink)
      obtain ⟨between, later⟩ := ih (List.append_assoc _ rest second) lead
      exact ⟨between, .link here later⟩

theorem locate_append {tree : FileTree} {first second : List String} {place : Path}
    (found : tree.locate (first ++ second) = .ok place) : ∃ between, tree.locate first = .ok between := by
  obtain ⟨between, walk⟩ := (walk_found (locate_ok_iff.mp found)).append
  exact ⟨between, locate_ok_iff.mpr walk.followFrom_eq⟩

/-! ### Resolved paths -/

theorem resolveAlong_solid {tree : FileTree} {entered : List Path}
    {follow : List Path → Path → List String → Except (List String) Path} {place : Path} {name : String}
    (notUp : name ≠ up) (notIdle : ¬Path.isIdle name = true)
    (solid : ∀ target, tree.find (place ++ [name]) ≠ .ok (.link target)) (rest : List String) :
    tree.resolveAlong entered follow place (name :: rest) =
      tree.resolveAlong entered follow (place ++ [name]) rest := by
  rw [resolveAlong, if_neg notUp, if_neg notIdle]
  dsimp only
  split
  · next target here => exact absurd here (solid target)
  · rfl

theorem resolveAlong_eq {before after : FileTree}
    (links : ∀ path target, after.find path = .ok (.link target) ↔ before.find path = .ok (.link target))
    (entered : List Path) (follow : List Path → Path → List String → Except (List String) Path)
    (place : Path) (pieces : List String) :
    after.resolveAlong entered follow place pieces = before.resolveAlong entered follow place pieces := by
  induction pieces generalizing place with
  | nil => rfl
  | cons name rest ih =>
    by_cases isUp : name = up
    · simp only [resolveAlong, if_pos isUp, ih]
    by_cases isIdle : Path.isIdle name = true
    · simp only [resolveAlong, if_neg isUp, if_pos isIdle, ih]
    by_cases isLink : ∃ target, before.find (place ++ [name]) = .ok (.link target)
    · obtain ⟨target, here⟩ := isLink
      simp only [resolveAlong, if_neg isUp, if_neg isIdle, here, (links _ target).mpr here, ih]
    · have solid : ∀ target, before.find (place ++ [name]) ≠ .ok (.link target) := not_exists.mp isLink
      rw [resolveAlong_solid isUp isIdle solid, ← ih]
      exact resolveAlong_solid isUp isIdle (fun target here => solid target ((links _ target).mp here)) rest

theorem resolveWith_eq {before after : FileTree}
    (links : ∀ path target, after.find path = .ok (.link target) ↔ before.find path = .ok (.link target))
    (depth : Nat) (entered : List Path) (place : Path) (pieces : List String) :
    after.resolveWith depth entered place pieces = before.resolveWith depth entered place pieces := by
  induction depth generalizing entered place pieces with
  | zero => rfl
  | succ depth ih =>
    unfold FileTree.resolveWith
    simp only [ih]
    exact resolveAlong_eq links entered _ place pieces

/-- A path is still resolved to the same place, if something stands there. -/
theorem Grown.resolve {touched : Path → Prop} {before after : FileTree} (grown : Grown touched before after)
    {names : List String} {place stands : Path} (resolved : before.resolve names = .ok place)
    (located : after.locate place = .ok stands) : after.resolve names = .ok place := by
  unfold FileTree.resolve at resolved ⊢
  rw [grown.linkCount, resolveWith_eq grown.link]
  split at resolved
  · cases resolved
  · next noNull =>
    rw [if_neg noNull]
    cases reached : before.resolveWith (before.linkCount + 1) [] [] names with
    | ok next => rw [reached] at resolved; exact resolved
    | error stuck =>
      rw [reached] at resolved
      dsimp only at resolved ⊢
      obtain rfl : Path.normal stuck = place := by
        split at resolved
        · cases resolved
        · exact Except.ok.inj resolved
      rw [located]

theorem inside_ok_iff {tree : FileTree} {root place : Path} {relative : String} :
    tree.inside root relative = .ok place ↔
      ¬(Path.parts relative = [] ∨ Path.isAbsolute relative ∨ up ∈ Path.parts relative) ∧
        ∃ base, tree.resolve root = .ok base ∧ tree.resolve (base ++ Path.parts relative) = .ok place ∧
          base.isPrefixOf place = true := by
  unfold inside
  dsimp only
  split
  · next outside => simp [outside]
  · next relative' =>
    refine ⟨fun found => ?_, ?_⟩
    · obtain ⟨base, resolved, found⟩ := bind_ok found
      obtain ⟨place', resolved', found⟩ := bind_ok found
      split at found
      · next within =>
        obtain rfl := Except.ok.inj found
        exact ⟨relative', base, resolved, resolved', within⟩
      · cases found
    · rintro ⟨-, base, resolved, resolved', within⟩
      rw [resolved]
      simp only [bind, Except.bind, resolved', within, if_true]

/-- A path of a theme still has the same place, if something stands there. -/
theorem Grown.inside {touched : Path → Prop} {before after : FileTree} (grown : Grown touched before after)
    {root place stands : Path} {relative : String} (found : before.inside root relative = .ok place)
    (located : after.locate place = .ok stands) : after.inside root relative = .ok place := by
  obtain ⟨isRelative, base, resolved, resolved', within⟩ := inside_ok_iff.mp found
  obtain ⟨rest, rfl⟩ := List.isPrefixOf_iff_prefix.mp within
  obtain ⟨between, located'⟩ := locate_append located
  exact inside_ok_iff.mpr ⟨isRelative, base, grown.resolve resolved located', grown.resolve resolved' located,
    within⟩

/-- A path of a theme leads to a file that can be read. -/
def Holds (tree : FileTree) (root : Path) (relative : String) : Prop :=
  ∃ place bytes, tree.inside root relative = .ok place ∧ tree.read place = .ok bytes

theorem Holds.mono {touched : Path → Prop} {before after : FileTree} {root : Path} {relative : String}
    (holds : before.Holds root relative) (grown : Grown touched before after) : after.Holds root relative := by
  obtain ⟨place, bytes, found, read⟩ := holds
  obtain ⟨bytes', stands, located, read', -⟩ := grown.read read
  exact ⟨place, bytes', grown.inside found (grown.locate located), read'⟩

end Phrasebook.FileTree
