import Phrasebook.Proofs.Session.Recording
import Phrasebook.Settings.Load

/-!
# Why there are no settings

Checks of settings fail with complaints, and paths of settings where links lead around in a circle or a
name cannot be one; no path of settings is refused because it leaves the theme.
-/

namespace Phrasebook

open Files

/-- A result fails for reasons of one kind only. -/
def Fails {ε α : Type} (kind : ε → Prop) (result : Except ε α) : Prop := ∀ fault, result = .error fault → kind fault

namespace Fails

variable {ε α β : Type} {kind : ε → Prop}

theorem ok (value : α) : Fails kind (.ok value) := fun _ same => by cases same

theorem error {fault : ε} (isKind : kind fault) : Fails kind (.error fault : Except ε α) :=
  fun _ same => Except.error.inj same ▸ isKind

theorem bind {first : Except ε α} {next : α → Except ε β} (fails : Fails kind first)
    (on : ∀ value, Fails kind (next value)) : Fails kind (first >>= next) := by
  cases first with
  | error fault => exact error (fails fault rfl)
  | ok value => exact on value

theorem mapM {items : List α} {each : α → Except ε β} (fails : ∀ item, Fails kind (each item)) :
    Fails kind (items.mapM each) := by
  induction items with
  | nil => exact ok _
  | cons item rest ih =>
    rw [List.mapM_cons]
    exact bind (fails item) fun _ => bind ih fun _ => ok _

theorem foldlM {items : List α} {each : β → α → Except ε β} (fails : ∀ state item, Fails kind (each state item))
    (state : β) : Fails kind (items.foldlM each state) := by
  induction items generalizing state with
  | nil => exact ok _
  | cons item rest ih =>
    rw [List.foldlM_cons]
    exact bind (fails state item) ih

end Fails

namespace Settings

/-- A fault with settings that does not come from a path that leaves a theme. -/
def Unblocked (fault : Fault) : Prop := ∀ why, fault ≠ .files (.blocked why)

theorem unblocked_invalid (name : String) (flaw : Flaw) : Unblocked (.invalid name flaw) := fun _ same => by cases same

theorem resolve_unblocked {tree : FileTree} {names : List String} {fault : Files.Fault}
    (failed : tree.resolve names = .error fault) : ∀ why, fault ≠ .blocked why := by
  unfold FileTree.resolve at failed
  split at failed
  · obtain rfl := Except.error.inj failed
    exact fun why same => by cases same
  · split at failed
    · cases failed
    · dsimp only at failed
      split at failed
      · obtain rfl := Except.error.inj failed
        exact fun why same => by cases same
      · cases failed

theorem refused_unblocked {fault : Files.Fault} (refused : fault.IsRefused) : ∀ why, fault ≠ .blocked why := by
  rintro why rfl
  cases refused

theorem files_unblocked {fault : Files.Fault} (unblocked : ∀ why, fault ≠ .blocked why) : Unblocked (.files fault) :=
  fun why same => unblocked why (Fault.files.inj same)

theorem escaping_eq {fault : Fault} {escaping : Files.Fault} (escapes : fault.escaping? = some escaping) :
    fault = .files escaping := by
  unfold Fault.escaping? at escapes
  split at escapes
  · cases escapes
  · exact congrArg Fault.files (Option.some.inj escapes)
  · cases escapes

theorem placeOf_fails (tree : FileTree) (base : Path) (written : String) :
    Fails Unblocked (placeOf tree base written) := by
  unfold placeOf
  split
  · exact .ok _
  · next fault failed => exact .error (files_unblocked (resolve_unblocked failed))

theorem tableOf_fails (payload : Table) (name : String) : Fails Unblocked (tableOf payload name) := by
  unfold tableOf
  split
  · exact .ok _
  · exact .ok _
  · exact .error (unblocked_invalid _ _)

theorem texts_fails (name : String) (value : Value) : Fails Unblocked (texts name value) := by
  unfold texts
  split
  · refine .mapM fun item => ?_
    split
    · exact .ok _
    · exact .error (unblocked_invalid _ _)
  · exact .error (unblocked_invalid _ _)

theorem extensions_fails (name : String) (value : Value) : Fails Unblocked (extensions name value) := by
  refine .bind (texts_fails name value) fun _ => ?_
  dsimp only
  split
  · exact .ok _
  · exact .error (unblocked_invalid _ _)

theorem directoryOf_fails (name : String) (value : Value) : Fails Unblocked (directoryOf name value) := by
  unfold directoryOf
  split
  · split
    · exact .error (unblocked_invalid _ _)
    · dsimp only
      split
      · exact .error (unblocked_invalid _ _)
      · exact .ok _
  · exact .error (unblocked_invalid _ _)

theorem localeOr_fails (known : Option String) (name : String) (value : Value) :
    Fails Unblocked (localeOr known name value) := by
  unfold localeOr
  split
  · exact .ok _
  · split
    · exact .ok _
    · exact .error (unblocked_invalid _ _)
  · exact .error (unblocked_invalid _ _)

theorem helperOr_fails (known : Text) (name : String) (value : Value) :
    Fails Unblocked (helperOr known name value) := by
  unfold helperOr
  split
  · exact .ok _
  · split
    · exact .ok _
    · exact .error (unblocked_invalid _ _)
  · exact .error (unblocked_invalid _ _)

theorem workersOr_fails (known : Nat) (name : String) (value : Value) :
    Fails Unblocked (workersOr known name value) := by
  unfold workersOr
  split
  · exact .ok _
  · split
    · exact .error (unblocked_invalid _ _)
    · split
      · exact .error (unblocked_invalid _ _)
      · exact .ok _
  · exact .error (unblocked_invalid _ _)

theorem pathOr_fails (tree : FileTree) (root : Path) (known : Option Path) (name : String) (value : Value) :
    Fails Unblocked (pathOr tree root known name value) := by
  unfold pathOr
  split
  · exact .ok _
  · split
    · exact .error (unblocked_invalid _ _)
    · exact .bind (placeOf_fails _ _ _) fun _ => .ok _
  · exact .error (unblocked_invalid _ _)

theorem takeFile_fails (tree : FileTree) (base : Settings) (payload : Table) :
    Fails Unblocked (takeFile tree base payload) := by
  unfold takeFile
  dsimp only
  iterate 5 refine .bind (tableOf_fails _ _) fun _ => ?_
  -- The lists and the directory are only checked where they are given.
  refine .bind ?_ fun _ => .bind ?_ fun _ => .bind ?_ fun _ => ?_
  · split
    · exact .ok _
    · exact extensions_fails _ _
  · split
    · exact .ok _
    · exact texts_fails _ _
  · split
    · exact .ok _
    · exact directoryOf_fails _ _
  refine .bind (localeOr_fails _ _ _) fun _ => ?_
  refine .bind (helperOr_fails _ _ _) fun _ => ?_
  refine .bind (workersOr_fails _ _ _) fun _ => ?_
  refine .bind (pathOr_fails _ _ _ _ _) fun _ => ?_
  exact .bind (pathOr_fails _ _ _ _ _) fun _ => .ok _

theorem takeOverrides_fails (tree : FileTree) (here : Path) (base : Settings) (overrides : Overrides) :
    Fails Unblocked (takeOverrides tree here base overrides) := by
  unfold takeOverrides
  dsimp only
  refine .bind (localeOr_fails _ _ _) fun _ => ?_
  refine .bind (helperOr_fails _ _ _) fun _ => ?_
  refine .bind (workersOr_fails _ _ _) fun _ => .bind ?_ fun _ => .bind ?_ fun _ => .ok _
  · split
    · exact .ok _
    · exact .bind (placeOf_fails _ _ _) fun _ => .ok _
  · split
    · exact .ok _
    · exact .bind (placeOf_fails _ _ _) fun _ => .ok _

theorem readFile_fails (tree : FileTree) (root : Path) : Fails Unblocked (readFile tree root) := by
  unfold readFile
  dsimp only
  split
  · next fault failed => exact .error (files_unblocked (refused_unblocked (FileTree.reached_fault failed)))
  · exact .ok _
  · split
    · next fault failed => exact .error (files_unblocked (refused_unblocked (FileTree.read_fault failed)))
    · split
      · exact .error fun why same => by cases same
      · split
        · exact .ok _
        · exact .error fun why same => by cases same

/-- Settings are never refused because a path leaves the theme. -/
theorem load_fails (tree : FileTree) (here : Path) (processors : Nat) (directory : List String)
    (overrides : Overrides) : Fails Unblocked (load tree here processors directory overrides) := by
  unfold load
  split
  · next fault failed => exact .error (files_unblocked (resolve_unblocked failed))
  · next root resolved =>
    refine .bind (readFile_fails tree root) fun payload => ?_
    exact .bind (takeFile_fails _ _ _) fun settings => takeOverrides_fails _ _ _ _

end Settings

end Phrasebook
