import Phrasebook.Command.Status
import Phrasebook.Proofs.Files.Encoding
import Phrasebook.Proofs.Session.Writing
import Phrasebook.Proofs.Theme.Reading

/-!
# What an update writes

An update of catalogs fails only if the path of a catalog in its theme does not lead to its file, or
something is not taken that the update gives out: every other check comes before the first write.
-/

namespace Phrasebook.Command

open Files Record

variable {session : Session} {stops : System → Trouble → Prop} {stop : Trouble → Session → Prop}

/-! ### Asking for writes -/

theorem submitInside_ends {root : Path} {relative : String} {contents : Except Violation CodePoints}
    (poised : session.Poised) (holds : session.tree.Holds root relative) (known : ∃ text, contents = .ok text) :
    Ends (do Run.submit (← Run.ofFiles ((← get).tree.inside root relative)) contents) session
      (fun _ after => session.Moved after ∧ after.Poised) stop := by
  obtain ⟨place, bytes, within, read⟩ := holds
  obtain ⟨text, isKnown⟩ := known
  refine .get_bind (Run.ofFiles_bind (fun target found => ?_) fun fault failed => ?_)
  · obtain rfl := Except.ok.inj (within.symm.trans found)
    refine .modify ⟨⟨rfl, rfl, List.Subset.refl _, .refl _ _⟩, poised.isOpen, fun write isIn => ?_⟩
    rcases List.mem_append.mp isIn with before | isNew
    · exact poised.feasible write before
    · obtain rfl := List.mem_singleton.mp isNew
      exact ⟨text, bytes, isKnown, read⟩
  · rw [within] at failed
    cases failed

theorem submitInside_moves (allowed : Trouble.Allowed stops) (root : Path) (relative : String)
    {contents : Except Violation CodePoints} (covered : ∀ target, Write.Covered stops ⟨target, contents⟩) :
    (Session.moving stops).Keeps (do Run.submit (← Run.ofFiles ((← get).tree.inside root relative)) contents) :=
  .getBind fun _ => .bind (Run.ofFiles_moves allowed _) fun target => Run.submit_moves (covered target)

theorem submitTemplates_ends {root : Path} {rendered : List (String × Text)} (poised : session.Poised)
    (holds : ∀ pair ∈ rendered, session.tree.Holds root pair.1) :
    Ends (submitTemplates root rendered) session (fun _ after => session.Moved after ∧ after.Poised) stop := by
  refine .forM _ ⟨.refl session, poised⟩ ?_
  rintro ⟨path, contents⟩ isIn before ⟨moved, poised⟩
  exact (submitInside_ends poised ((holds _ isIn).mono moved.grown) ⟨_, rfl⟩).mono
    (fun _ _ holds => ⟨moved.trans holds.1, holds.2⟩) fun _ _ stopped => stopped

theorem submitTemplates_moves (allowed : Trouble.Allowed stops) (root : Path) (rendered : List (String × Text)) :
    (Session.moving stops).Keeps (submitTemplates root rendered) := by
  refine .forM ?_
  rintro ⟨path, contents⟩ -
  refine submitInside_moves allowed root path fun target points fault known failed => ?_
  -- The text of a template has bytes.
  obtain rfl := Except.ok.inj known
  cases (Encoding.encodePoints_points contents).symm.trans failed

theorem serialize_ok {catalog : Catalog} (known : catalog.format.isSome) : ∃ text, catalog.serialize = .ok text := by
  obtain ⟨format, isFormat⟩ := Option.isSome_iff_exists.mp known
  unfold Catalog.serialize
  rw [isFormat]
  exact ⟨_, rfl⟩

/-- The path of a catalog in its theme. -/
def catalogPath (directory locale : String) : String := s!"{directory}/{Catalog.fileName locale}"

theorem submitCatalogs_ends {root : Path} {directory : String} {catalogs : List Catalog} (poised : session.Poised)
    (holds : ∀ catalog ∈ catalogs, catalog.format.isSome ∧
      session.tree.Holds root (catalogPath directory catalog.locale)) :
    Ends (submitCatalogs root directory catalogs) session (fun _ after => session.Moved after ∧ after.Poised) stop := by
  refine .forM _ ⟨.refl session, poised⟩ ?_
  rintro catalog isIn before ⟨moved, poised⟩
  obtain ⟨known, here⟩ := holds catalog isIn
  exact (submitInside_ends poised (here.mono moved.grown) (serialize_ok known)).mono
    (fun _ _ holds => ⟨moved.trans holds.1, holds.2⟩) fun _ _ stopped => stopped

/-- If a catalog has no bytes, this is a reason to stop. -/
def Covers (stops : System → Trouble → Prop) (catalog : Catalog) : Prop :=
  ∀ target, Write.Covered stops ⟨target, catalog.serialize⟩

theorem submitCatalogs_moves (allowed : Trouble.Allowed stops) (root : Path) (directory : String)
    {catalogs : List Catalog} (covers : ∀ catalog ∈ catalogs, Covers stops catalog) :
    (Session.moving stops).Keeps (submitCatalogs root directory catalogs) :=
  .forM fun catalog isIn => submitInside_moves allowed root (catalogPath directory catalog.locale) (covers catalog isIn)

/-! ### Updating catalogs -/

theorem updateCatalog_ends (environment : Environment) (telling : Telling) (catalog : Catalog) (locale : String)
    (diff : KeyDiff) (session : Session) :
    Ends (updateCatalog environment telling catalog locale diff) session
      (fun updated after => session.Told after ∧ updated = (catalog.update diff).catalog)
      fun trouble after => session.Told after ∧ session.system.Objects trouble := by
  have talks {step : Run Unit} (keeps : Session.talking.Keeps step) {before : Session} (sofar : session.Told before)
      {next : Unit → Run Catalog} (on : ∀ between, session.Told between → Ends (next ()) between
        (fun updated after => session.Told after ∧ updated = (catalog.update diff).catalog)
        fun trouble after => session.Told after ∧ session.system.Objects trouble) :
      Ends (step >>= next) before
        (fun updated after => session.Told after ∧ updated = (catalog.update diff).catalog)
        fun trouble after => session.Told after ∧ session.system.Objects trouble :=
    Run.talks_bind keeps (fun _ _ told objects => ⟨sofar.trans told, sofar.system ▸ objects⟩)
      fun _ between told => on between (sofar.trans told)
  have listing (before : Session) (sofar : session.Told before) :
      Ends (do
        if telling.verbose && !telling.quiet then
          (catalog.update diff).added.forM fun key => Run.printPoints (changeLine "Add" key)
          (catalog.update diff).removed.forM fun key => Run.printPoints (changeLine "Remove" key)
          Run.print ""
        return (catalog.update diff).catalog) before
      (fun updated after => session.Told after ∧ updated = (catalog.update diff).catalog)
      fun trouble after => session.Told after ∧ session.system.Objects trouble := by
    dsimp only
    split
    · refine talks (.forM fun key _ => Run.printPoints_talks _) sofar fun _ added => ?_
      refine talks (.forM fun key _ => Run.printPoints_talks _) added fun _ removed => ?_
      exact talks (Run.print_talks _) removed fun _ ended => .pure ⟨ended, rfl⟩
    · exact .pure ⟨sofar, rfl⟩
  unfold updateCatalog
  dsimp only
  split
  · exact listing session (.refl session)
  · exact talks (Run.print_talks _) (.refl session) listing

/-- The catalogs that an update of catalogs asks to be written. -/
def updatedCatalogs (catalogs : Catalogs) (changes : List (String × KeyDiff)) : List Catalog :=
  changes.filterMap fun (locale, diff) =>
    (Members.get? catalogs locale).map fun catalog => (catalog.update diff).catalog

/-- Before an update of catalogs asks for writes it only tells about them. -/
theorem updateAll_ends (environment : Environment) (telling : Telling) (catalogs : Catalogs)
    (changes : List (String × KeyDiff)) (session : Session) :
    Ends (changes.filterMapM fun (locale, diff) =>
      match Members.get? catalogs locale with
      | none => pure none
      | some catalog => some <$> updateCatalog environment telling catalog locale diff) session
      (fun updated after => session.Told after ∧ updated = updatedCatalogs catalogs changes)
      fun trouble after => session.Told after ∧ session.system.Objects trouble := by
  refine Ends.filterMapM session.Told _ (.refl session) ?_
  rintro ⟨locale, diff⟩ - before told
  dsimp only
  cases Members.get? catalogs locale with
  | none => exact .pure ⟨told, rfl⟩
  | some catalog =>
    refine .map ((updateCatalog_ends environment telling catalog locale diff before).mono ?_ ?_)
    · rintro _ after ⟨told', rfl⟩
      exact ⟨told.trans told', rfl⟩
    · rintro trouble after ⟨told', objects⟩
      exact ⟨told.trans told', told.system ▸ objects⟩

theorem mem_updatedCatalogs {catalogs : Catalogs} {changes : List (String × KeyDiff)} {updated : Catalog}
    (isIn : updated ∈ updatedCatalogs catalogs changes) :
    ∃ locale catalog diff, (locale, catalog) ∈ catalogs ∧ (locale, diff) ∈ changes ∧
      updated = (catalog.update diff).catalog := by
  obtain ⟨⟨locale, diff⟩, isChange, isUpdated⟩ := List.mem_filterMap.mp isIn
  obtain ⟨catalog, found, rfl⟩ := Option.map_eq_some_iff.mp isUpdated
  exact ⟨locale, catalog, diff, Members.mem_of_get? found, isChange, rfl⟩

/-- The catalogs of a theme that are updated keep their locales and their layouts. -/
theorem updateCatalogs_ends {environment : Environment} {catalogs : Catalogs} (telling : Telling)
    (changes : List (String × KeyDiff)) (poised : session.Poised) (kept : ∀ entry ∈ catalogs, Theme.Kept entry)
    (holds : ∀ locale ∈ Members.names catalogs,
      session.tree.Holds environment.settings.root (catalogPath environment.settings.directory locale)) :
    Ends (updateCatalogs environment telling catalogs changes) session
      (fun _ after => session.Moved after ∧ after.Poised)
      fun trouble after => session.Moved after ∧ session.system.Hinders trouble := by
  unfold updateCatalogs
  refine Ends.bind ((updateAll_ends environment telling catalogs changes session).mono (fun _ _ holds => holds)
    fun _ _ stopped => ⟨stopped.1.recorded.moved, .line stopped.2⟩) ?_
  rintro _ between ⟨told, rfl⟩
  refine ((Run.event_ends _ _ between).mono (fun _ _ holds => holds) ?_).bind ?_
  · rintro trouble after ⟨recorded, fault, rfl, -, onOpen⟩
    exact ⟨(told.recorded.trans recorded).moved, .denied (told.system ▸ onOpen (told.recorded.isOpen poised.isOpen))⟩
  · rintro _ after ⟨recorded, -⟩
    have recorded := told.recorded.trans recorded
    refine (submitCatalogs_ends (poised.recorded recorded) fun updated isIn => ?_).mono
      (fun _ _ holds => ⟨recorded.moved.trans holds.1, holds.2⟩) fun _ _ stopped => stopped
    obtain ⟨locale, catalog, diff, isEntry, -, rfl⟩ := mem_updatedCatalogs isIn
    obtain ⟨isLocale, contents, known⟩ := kept _ isEntry
    obtain rfl : catalog.locale = locale := isLocale
    exact ⟨Option.isSome_of_eq_some known, (holds _ (List.mem_map_of_mem isEntry)).mono recorded.grown⟩

theorem updateCatalogs_moves (allowed : Trouble.Allowed stops) (environment : Environment) (telling : Telling)
    {catalogs : Catalogs} {changes : List (String × KeyDiff)}
    (covers : ∀ updated ∈ updatedCatalogs catalogs changes, Covers stops updated) :
    (Session.moving stops).Keeps (updateCatalogs environment telling catalogs changes) := by
  unfold updateCatalogs
  intro session
  refine Ends.bind ((updateAll_ends environment telling catalogs changes session).mono (fun _ _ holds => holds)
    fun _ _ stopped => ⟨stopped.1.recorded.moving stops, fun _ => allowed.objects stopped.2⟩) ?_
  rintro _ between ⟨told, rfl⟩
  exact Regime.Keeps.after (.bind (Run.event_moves allowed _ _) fun _ => submitCatalogs_moves allowed _ _ covers)
    (told.recorded.moving stops)

end Phrasebook.Command
