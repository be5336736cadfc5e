import Phrasebook.Proofs.Files.Growth

/-!
# Trees without links

Where no link stands a path leads to the place that it names, and a path of a theme to the place that it names below
the theme.
-/

namespace Phrasebook

open Files

namespace FileTree

/-- A place that no link stands at, on the way to, or below. -/
structure Linkless (tree : FileTree) (place : Path) : Prop where
  proper : ∀ name ∈ place, name ≠ up ∧ ¬Path.isIdle name = true
  noLink : ∀ path target, path <+: place ∨ place <+: path → tree.find path ≠ .ok (.link target)

variable {tree : FileTree} {root : Path}

theorem resolveAlong_proper {entered : List Path}
    {follow : List Path → Path → List String → Except (List String) Path} {place : Path} {names : List String}
    (proper : ∀ name ∈ names, name ≠ up ∧ ¬Path.isIdle name = true)
    (noLink : ∀ first target, first <+: names → tree.find (place ++ first) ≠ .ok (.link target)) :
    tree.resolveAlong entered follow place names = .ok (place ++ names) := by
  induction names generalizing place with
  | nil => rw [List.append_nil]; rfl
  | cons name rest ih =>
    obtain ⟨notUp, notIdle⟩ := proper name List.mem_cons_self
    rw [resolveAlong_solid notUp notIdle (fun target => noLink [name] target ⟨rest, rfl⟩),
      ih (fun other member => proper other (List.mem_cons_of_mem _ member)), List.append_assoc]
    · rfl
    · intro first target isPrefix
      rw [List.append_assoc]
      exact noLink (name :: first) target (List.cons_prefix_cons.mpr ⟨rfl, isPrefix⟩)

/-- The names of a written path without steps up are proper ones. -/
theorem parts_proper {relative : String} (notUp : up ∉ Path.parts relative) :
    ∀ name ∈ Path.parts relative, name ≠ up ∧ ¬Path.isIdle name = true := by
  intro name member
  exact ⟨fun same => notUp (same ▸ member), by simpa using (List.mem_filter.mp member).2⟩

theorem Linkless.resolve (linkless : tree.Linkless root) {rest : List String}
    (proper : ∀ name ∈ rest, name ≠ up ∧ ¬Path.isIdle name = true) :
    tree.resolve (root ++ rest) = .ok (root ++ rest) ∨ tree.resolve (root ++ rest) = .error .nullCharacter := by
  have reached : tree.resolveWith (tree.linkCount + 1) [] [] (root ++ rest) = .ok (root ++ rest) := by
    unfold resolveWith
    refine resolveAlong_proper (fun name member => ?_) fun first target isPrefix => ?_
    · exact (List.mem_append.mp member).elim (linkless.proper name) (proper name)
    · exact linkless.noLink first target (List.prefix_or_prefix_of_prefix isPrefix (List.prefix_append root rest))
  unfold FileTree.resolve
  rw [reached]
  split
  · exact .inr rfl
  · exact .inl rfl

/-- Without links a path of a theme is a path below the theme. -/
theorem Linkless.inside_eq (linkless : tree.Linkless root) {theme target : Path} {relative : String}
    (resolved : tree.resolve theme = .ok root) (found : tree.inside theme relative = .ok target) :
    target = root ++ Path.parts relative ∧ up ∉ Path.parts relative := by
  obtain ⟨within, base, isBase, isTarget, -⟩ := inside_ok_iff.mp found
  obtain rfl := Except.ok.inj (resolved.symm.trans isBase)
  obtain ⟨-, -, notUp⟩ : Path.parts relative ≠ [] ∧ ¬Path.isAbsolute relative = true ∧ up ∉ Path.parts relative := by
    simpa only [not_or] using within
  rcases linkless.resolve (parts_proper notUp) with there | there
  · exact ⟨Except.ok.inj (isTarget.symm.trans there), notUp⟩
  · rw [there] at isTarget
    cases isTarget

/-- Without links steps lead nowhere but to where their names say. -/
theorem advance_proper {place : Path} {names : List String}
    (proper : ∀ name ∈ names, name ≠ up ∧ ¬Path.isIdle name = true)
    (noLink : ∀ first target, first <+: names → tree.find (place ++ first) ≠ .ok (.link target)) :
    (∀ reached, tree.advance place names = .arrived reached → reached = place ++ names) ∧
      ∀ home target rest, tree.advance place names ≠ .atLink home target rest := by
  induction names generalizing place with
  | nil => simp [advance, eq_comm]
  | cons name rest ih =>
    obtain ⟨notUp, notIdle⟩ := proper name List.mem_cons_self
    have notSingle : name ≠ single := fun same => notIdle (by simp [Path.isIdle, same])
    have later := @ih (place ++ [name]) (fun other member => proper other (List.mem_cons_of_mem _ member))
      fun first target isPrefix => by
        rw [List.append_assoc]
        exact noLink (name :: first) target (List.cons_prefix_cons.mpr ⟨rfl, isPrefix⟩)
    rw [List.append_assoc, List.singleton_append] at later
    unfold advance
    rcases tree.find place with refusal | bytes | entries | target
    · simp
    · simp
    · simp only [if_neg notUp, if_neg notSingle]
      rcases here : tree.find (place ++ [name]) with refusal | bytes | entries | target
      · dsimp only
        split <;> simp
      · exact later
      · exact later
      · exact absurd here (noLink [name] target ⟨rest, rfl⟩)
    · simp

/-- Without links a path below a theme leads to itself. -/
theorem Linkless.locate_eq (linkless : tree.Linkless root) {rest : List String} {reached : Path}
    (proper : ∀ name ∈ rest, name ≠ up ∧ ¬Path.isIdle name = true)
    (located : tree.locate (root ++ rest) = .ok reached) : reached = root ++ rest := by
  obtain ⟨arrives, noLink⟩ := @advance_proper tree [] (root ++ rest)
    (fun name member => (List.mem_append.mp member).elim (linkless.proper name) (proper name))
    fun first target isPrefix =>
      linkless.noLink first target (List.prefix_or_prefix_of_prefix isPrefix (List.prefix_append root rest))
  have walk := walk_found (locate_ok_iff.mp located)
  cases walk with
  | found arrived => exact arrives reached arrived
  | link atLink on => exact absurd atLink (noLink _ _ _)

/-- Without links a path of a theme is refused for the way it is written and for nothing else. -/
theorem Linkless.inside_blocked_iff (linkless : tree.Linkless root) (relative : String) :
    (∃ why, tree.inside root relative = .error (.blocked why)) ↔
      Path.parts relative = [] ∨ Path.isAbsolute relative ∨ up ∈ Path.parts relative := by
  unfold inside
  dsimp only
  split
  · next outside => exact iff_of_true ⟨_, rfl⟩ outside
  · next within =>
    refine iff_of_false ?_ within
    rintro ⟨why, failed⟩
    obtain ⟨-, -, notUp⟩ : Path.parts relative ≠ [] ∧ ¬Path.isAbsolute relative = true ∧ up ∉ Path.parts relative := by
      simpa only [not_or] using within
    have here := @Linkless.resolve tree root linkless [] (by simp)
    rw [List.append_nil] at here
    rcases here with here | here
    · rcases linkless.resolve (parts_proper notUp) with there | there
      · simp only [here, there, bind, Except.bind,
          List.isPrefixOf_iff_prefix.mpr (List.prefix_append root (Path.parts relative)), if_true] at failed
        cases failed
      · simp only [here, there, bind, Except.bind] at failed
        cases failed
    · simp only [here, bind, Except.bind] at failed
      cases failed

end FileTree

end Phrasebook
