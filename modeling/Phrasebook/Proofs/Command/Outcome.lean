import Phrasebook.Command.Program
import Phrasebook.Proofs.Command.Updating
import Phrasebook.Proofs.Edit.Rendering
import Phrasebook.Proofs.Extract.Halting

/-!
# What a command does to the files of a theme

A command without an update does nothing to a session but record. A command with an update does
nothing but record unless it succeeds, the path of a catalog in its theme does not lead to its file, or
something is not taken that the command gives out.
-/

namespace Phrasebook.Command

open Files Record Theme
open FileTree (Grown)

variable {session : Session} {settings : Settings} {flags : List String}

/-- A catalog was read whose path in its theme does not lead to a file that can be read. -/
def Astray (settings : Settings) (seen : FileTree → Prop) : Prop :=
  ∃ root paths tree catalogs, Found settings seen root paths ∧ seen tree ∧
    readCatalogs tree root settings.directory = .ok catalogs ∧
    ∃ locale ∈ Members.names catalogs, ¬tree.Holds settings.root (catalogPath settings.directory locale)

theorem Astray.mono {seen wider : FileTree → Prop} (astray : Astray settings seen)
    (wide : ∀ tree, seen tree → wider tree) : Astray settings wider := by
  obtain ⟨root, paths, tree, catalogs, found, isSeen, read, lost⟩ := astray
  exact ⟨root, paths, tree, catalogs, found.mono wide, wide tree isSeen, read, lost⟩

/-- What a command with some flags has done to a session, where `succeeds` says that it succeeds, and
`hindered` that something was not taken that it gave out. -/
inductive Outcome (settings : Settings) (flags : List String) (before after : Session) (succeeds hindered : Prop) :
    Prop where
  | recorded (recorded : before.Recorded after)
  | updated (asked : "update" ∈ flags) (success : succeeds) (moved : before.Moved after) (isOpen : after.Open)
  | astray (asked : "update" ∈ flags) (moved : before.Moved after) (astray : Astray settings (before.Saw after))
  | hindered (asked : "update" ∈ flags) (hindrance : hindered)

/-- How a command ends that is taken in the given session. -/
abbrev Comes (settings : Settings) (flags : List String) (session : Session) (command : Run Nat) (now : Session) :
    Prop :=
  Ends command now (fun code after => Outcome settings flags session after (code = 0) False)
    fun trouble after => Outcome settings flags session after False (session.system.Hinders trouble)

/-! ### Updates -/

/-- The session in which a theme was read has nothing to write yet. -/
theorem updating_outcome {theme : Theme} {between now : Session} {step : Run Nat} (idle : session.pending = [])
    (asked : "update" ∈ flags) (read : theme.Read settings session between) (recorded : between.Recorded now)
    (moves : (Session.moving fun _ _ => True).Keeps step)
    (ends : now.Poised → (∀ template ∈ theme.templates, now.tree.Holds theme.root template.source) →
      (∀ entry ∈ theme.catalogs, Kept entry) →
      (∀ locale ∈ Members.names theme.catalogs, now.tree.Holds settings.root (catalogPath settings.directory locale)) →
      Ends step now (fun code after => code = 0 ∧ now.Moved after ∧ after.Open)
        fun trouble after => now.Recorded after ∨ now.system.Hinders trouble) :
    Comes settings flags session step now := by
  have sofar := read.recorded.trans recorded
  -- With a catalog astray only the kinds of writes are known; without one, every write that is asked for can be done.
  by_cases lost : Astray settings (session.Saw now)
  · have left (after : Session) (moved : now.Moved after) (succeeds hindered : Prop) :
        Outcome settings flags session after succeeds hindered :=
      .astray asked (sofar.moved.trans moved) (lost.mono fun _ saw => saw.moved moved)
    exact (moves now).mono (fun _ after moved => left after moved.1 _ _) fun _ after stopped => left after stopped.1.1 _ _
  · obtain ⟨tree, saw, grown, readAll⟩ := read.catalogs
    obtain ⟨paths, found, -⟩ := read.templates
    have poised : now.Poised :=
      ⟨recorded.isOpen read.isOpen, fun write isIn => by simp [sofar.pending, idle] at isIn⟩
    refine (ends poised (fun template isIn => (read.holds template isIn).mono recorded.grown)
      (readCatalogs_kept readAll) fun locale isIn => ?_).mono (fun _ _ done =>
      .updated asked done.1 (sofar.moved.trans done.2.1) done.2.2) ?_
    · by_contra absent
      refine lost ⟨theme.root, paths, tree, theme.catalogs, found.mono fun _ saw => saw.mono recorded,
        saw.mono recorded, readAll, locale, isIn, fun holds => absent ((holds.mono grown).mono recorded.grown)⟩
    · rintro trouble after (recorded' | hinders)
      · exact .recorded (sofar.trans recorded')
      · exact .hindered asked (sofar.system ▸ hinders)

theorem allowed_all : Trouble.Allowed fun _ _ => True :=
  ⟨fun _ _ => trivial, fun _ _ => trivial, fun _ => trivial⟩

/-- A line that cannot be shown stops a command that has only recorded so far. -/
theorem talks_comes {step : Run Unit} {next : Unit → Run Nat} {now : Session} (sofar : session.Recorded now)
    (talks : Session.talking.Keeps step)
    (on : ∀ between, now.Told between → Comes settings flags session (next ()) between) :
    Comes settings flags session (step >>= next) now :=
  Run.talks_bind talks (fun _ _ told _ => .recorded (sofar.trans told.recorded)) fun _ => on

/-! ### Finding texts -/

theorem reportFailures_ends (environment : Environment) (theme : Theme) (session : Session)
    (stop : Trouble → Session → Prop) :
    Ends (environment.reportFailures theme) session (fun _ after => session.Told after) stop :=
  .forM session.Told (.refl session) fun _ _ before told =>
    (Run.complain_ends _ before stop).mono (fun _ _ => told.trans) fun _ _ stopped => stopped

theorem listTexts_talks (options : FindOptions) (environment : Environment) (theme : Theme) (texts : List Text) :
    Session.talking.Keeps (listTexts options environment theme texts) := by
  unfold listTexts
  split
  · exact Run.printPoints_talks _
  · refine .forM fun text _ => .bind (Run.print_talks _) fun _ => ?_
    split
    · exact .bind (.forM fun place _ => Run.print_talks _) fun _ => Run.print_talks _
    · exact .pure _

theorem tellChanges_talks (options : FindOptions) (environment : Environment) (changes : List (String × ChangeSet))
    (rendered : List (String × Text)) : Session.talking.Keeps (tellChanges options environment changes rendered) := by
  refine .forM ?_
  rintro ⟨path, contents⟩ -
  dsimp only
  split
  · exact .forM fun line _ => Run.print_talks line
  · exact Run.print_talks _

theorem updateTexts_ends {options : FindOptions} {environment : Environment} {theme : Theme} {texts : List Text}
    (poised : session.Poised) (templates : ∀ template ∈ theme.templates, session.tree.Holds theme.root template.source)
    (kept : ∀ entry ∈ theme.catalogs, Kept entry)
    (holds : ∀ locale ∈ Members.names theme.catalogs,
      session.tree.Holds environment.settings.root (catalogPath environment.settings.directory locale)) :
    Ends (updateTexts options environment theme texts) session (fun code after => code = 0 ∧ session.Moved after ∧ after.Open)
      fun trouble after => session.Recorded after ∨ session.system.Hinders trouble := by
  unfold updateTexts
  dsimp only
  split
  · exact .throw (.inl (.refl session))
  · next rendered done =>
    refine Run.talks_bind (tellChanges_talks _ _ _ _) (fun _ _ told _ => .inl told.recorded) fun _ between told => ?_
    have recorded := told.recorded
    have known : ∀ pair ∈ rendered, between.tree.Holds theme.root pair.1 := by
      intro pair isIn
      obtain ⟨template, isTemplate, same⟩ := renderChanges_sources done pair isIn
      exact (same ▸ templates template isTemplate).mono recorded.grown
    refine Ends.bind ((Run.withWrites_ends ?_).mono (fun _ _ done => done) fun _ _ stopped =>
      .inr (told.system ▸ stopped.2)) ?_
    · refine (submitTemplates_ends (poised.recorded recorded) known).bind ?_
      rintro _ mid ⟨moved, poised⟩
      exact (updateCatalogs_ends _ _ poised kept fun locale isIn =>
        ((holds locale isIn).mono recorded.grown).mono moved.grown).mono
        (fun _ _ holds => ⟨moved.trans holds.1, holds.2⟩) fun _ _ stopped =>
          ⟨moved.trans stopped.1, moved.system ▸ stopped.2⟩
    rintro written after ⟨moved, isOpen⟩
    have moved := recorded.moved.trans moved
    refine Ends.bind ((Run.event_ends _ _ after).mono (fun _ _ holds => holds) ?_)
      fun _ _ done => .pure ⟨rfl, moved.trans done.1.moved, done.2⟩
    rintro trouble last ⟨-, fault, rfl, -, onOpen⟩
    exact .inr (.denied (moved.system ▸ onOpen isOpen))

theorem updateTexts_moves {stops : System → Trouble → Prop} {options : FindOptions} {environment : Environment}
    {theme : Theme} {texts : List Text} (allowed : Trouble.Allowed stops)
    (covers : ∀ updated ∈ updatedCatalogs theme.catalogs
      (theme.catalogs.map fun (locale, _) => (locale, ⟨texts.map Text.points, []⟩)), Covers stops updated)
    (onEdit : ∀ system fault, renderChanges theme.templates (theme.findings.texts.changes options.specialCharacters)
      environment.settings.helper = .error fault → stops system (.edit fault)) :
    (Session.moving stops).Keeps (updateTexts options environment theme texts) := by
  unfold updateTexts
  dsimp only
  split
  · next fault failed => exact .throw fun session _ => onEdit session.system fault failed
  · next rendered done =>
    refine .bind (Run.talks_moves allowed (tellChanges_talks _ _ _ _)) fun _ =>
      .bind (Run.withWrites_moves allowed ?_) fun _ => .bind (Run.event_moves allowed _ _) fun _ => .pure _
    exact .bind (submitTemplates_moves allowed _ _) fun _ => updateCatalogs_moves allowed _ _ covers

theorem find_outcome (flags : List String) (environment : Environment) (idle : session.pending = []) :
    Comes environment.settings flags session (find flags environment) session := by
  unfold find
  dsimp only
  split
  · exact Run.complain_bind fun _ told => .pure (.recorded told.recorded)
  refine Ends.bind ((read_ends environment.settings session).mono (fun _ _ read => read)
    fun _ _ stopped => .recorded stopped.1) fun theme between read => ?_
  refine (reportFailures_ends environment theme between _).bind fun _ now told => ?_
  split
  · next isUpdate =>
    exact updating_outcome idle (by simpa [FindOptions.ofFlags] using isUpdate) read told.recorded
      (updateTexts_moves allowed_all (fun _ _ _ _ _ _ _ _ => trivial) fun _ _ _ => trivial) updateTexts_ends
  · have sofar := read.recorded.trans told.recorded
    exact talks_comes sofar (listTexts_talks _ _ _ _) fun _ told' => .pure (.recorded (sofar.trans told'.recorded))

/-! ### Comparing catalogs -/

theorem printKeys_talks (small large : String) (keys : List CodePoints) :
    Session.talking.Keeps (printKeys small large keys) := by
  unfold printKeys
  split
  · exact Run.print_talks _
  · exact .bind (Run.print_talks _) fun _ => .forM fun key _ => Run.printPoints_talks _

theorem printReport_talks (options : StatusOptions) (environment : Environment) (report : StatusReport) :
    Session.talking.Keeps (printReport options environment report) := by
  refine .forM fun status _ => .bind (Run.print_talks _) fun _ => ?_
  split
  · exact .bind (printKeys_talks _ _ _) fun _ => .bind (printKeys_talks _ _ _) fun _ => Run.print_talks _
  · exact .pure _

theorem printJson_talks (report : StatusReport) : Session.talking.Keeps (printJson report) := Run.printPoints_talks _

/-- The changes that a report asks for. -/
def reportedChanges (report : StatusReport) : List (String × KeyDiff) :=
  report.map fun status => (status.locale, status.diff)

theorem updateReported_ends {options : StatusOptions} {environment : Environment} {theme : Theme}
    {report : StatusReport} (poised : session.Poised) (kept : ∀ entry ∈ theme.catalogs, Kept entry)
    (holds : ∀ locale ∈ Members.names theme.catalogs,
      session.tree.Holds environment.settings.root (catalogPath environment.settings.directory locale)) :
    Ends (updateReported options environment theme report) session (fun code after => code = 0 ∧ session.Moved after ∧ after.Open)
      fun trouble after => session.Recorded after ∨ session.system.Hinders trouble :=
  Ends.bind ((Run.withWrites_ends (updateCatalogs_ends _ _ poised kept holds)).mono (fun _ _ done => done)
    fun _ _ stopped => .inr stopped.2) fun _ _ done => .pure ⟨rfl, done⟩

theorem updateReported_moves {stops : System → Trouble → Prop} (allowed : Trouble.Allowed stops)
    (options : StatusOptions) (environment : Environment) {theme : Theme} {report : StatusReport}
    (covers : ∀ updated ∈ updatedCatalogs theme.catalogs (reportedChanges report), Covers stops updated) :
    (Session.moving stops).Keeps (updateReported options environment theme report) :=
  .bind (Run.withWrites_moves allowed (updateCatalogs_moves allowed _ _ covers)) fun _ => .pure _

theorem updateReported_outcome {environment : Environment} {theme : Theme} {between now : Session}
    (options : StatusOptions) (report : StatusReport) (idle : session.pending = []) (asked : "update" ∈ flags)
    (read : theme.Read environment.settings session between) (recorded : between.Recorded now) :
    Comes environment.settings flags session (updateReported options environment theme report) now :=
  updating_outcome idle asked read recorded
    (updateReported_moves allowed_all _ _ fun _ _ _ _ _ _ _ _ => trivial) fun poised _ => updateReported_ends poised

theorem status_outcome (flags : List String) (environment : Environment) (idle : session.pending = []) :
    Comes environment.settings flags session (status flags environment) session := by
  unfold status
  dsimp only
  split
  · exact Run.complain_bind fun _ told => .pure (.recorded told.recorded)
  refine Ends.bind ((read_ends environment.settings session).mono (fun _ _ read => read)
    fun _ _ stopped => .recorded stopped.1) fun theme between read => ?_
  refine (reportFailures_ends environment theme between _).bind fun _ told isTold => ?_
  split
  · exact Run.complain_bind fun _ told' => .pure (.recorded (read.recorded.trans (isTold.trans told').recorded))
  refine Ends.bind ((Run.event_ends _ _ told).mono (fun _ _ holds => isTold.recorded.trans holds.1)
    fun _ _ stopped => .recorded (read.recorded.trans (isTold.recorded.trans stopped.1))) fun _ now recorded => ?_
  have sofar := read.recorded.trans recorded
  split
  · next isUpdate =>
    have asked : "update" ∈ flags := by simpa [StatusOptions.ofFlags] using isUpdate
    split
    · exact talks_comes sofar (printJson_talks _) fun last told' =>
        updateReported_outcome _ _ idle asked read (recorded.trans told'.recorded)
    · exact updateReported_outcome _ _ idle asked read recorded
  · split
    · exact talks_comes sofar (printJson_talks _) fun _ told' => .pure (.recorded (sofar.trans told'.recorded))
    · exact talks_comes sofar (printReport_talks _ _ _) fun _ told' => .pure (.recorded (sofar.trans told'.recorded))

end Phrasebook.Command
