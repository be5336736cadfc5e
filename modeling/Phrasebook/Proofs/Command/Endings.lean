import Phrasebook.Proofs.Catalog.Whole
import Phrasebook.Proofs.Command.Frame
import Phrasebook.Proofs.Settings.Faults

/-!
# How a run ends

A run ends with the exit code 0, 1 or 2, unless it breaks off for one of a few reasons: an operation on
files that is refused, links in a circle, a number with too many digits, a declaration that the reader of
markup refuses, a catalog that no file can hold, or a line that the output cannot show.
-/

namespace Phrasebook

open Files Record Theme
open FileTree (Grown)

/-! ### Templates and catalogs -/

namespace Theme

/-- What can be wrong with a template that is neither left out nor reported. -/
inductive Unhandled : Trouble → Prop where
  | integer (digits : Nat) : Unhandled (.longInteger digits)
  | reference (digits : Nat) : Unhandled (.analysis (.longReference digits))
  | declaration : Unhandled (.analysis .refused)

theorem examineText_error {path : String} {contents helper : Text} {trouble : Trouble}
    (examined : (examineText path contents helper).result = .error trouble) :
    Unhandled trouble ∨ trouble.report?.isSome := by
  unfold examineText at examined
  split at examined
  · next template loaded =>
    unfold analyse at examined
    dsimp only at examined
    split at examined
    · cases examined
    · cases examined
    · next fault notReserved failed =>
      obtain rfl := Except.error.inj examined
      cases Extract.analyseTemplate_halts loaded failed with
      | reserved reserved => exact absurd rfl (notReserved reserved)
      | violation violation => exact .inr rfl
      | longReference digits => exact .inl (.reference digits)
      | refused => exact .inl .declaration
  · cases examined
  · next digits failed =>
    obtain rfl := Except.error.inj examined
    exact .inl (.integer digits)

theorem examine_error {tree : FileTree} {root : Path} {helper : Text} {path : String} {trouble : Trouble}
    (examined : (examine tree root helper path).result = .error trouble) :
    (∃ fault, trouble = .files fault) ∨ Unhandled trouble ∨ trouble.report?.isSome := by
  unfold examine at examined
  split at examined
  · cases examined
  · next fault _ _ => exact .inl ⟨fault, (Except.error.inj examined).symm⟩
  · next bytes read =>
    split at examined
    · cases examined
    · exact .inr (examineText_error examined)

theorem readCatalog_error {tree : FileTree} {place : Path} {catalogs : Catalogs} {name : String} {trouble : Trouble}
    (failed : readCatalog tree place catalogs name = .error trouble) :
    (∃ fault, trouble = .files fault) ∨ (∃ digits, trouble = .catalog (.longInteger digits)) ∨
      trouble.report?.isSome := by
  unfold readCatalog at failed
  split at failed
  · next fault _ => exact .inl ⟨fault, (Except.error.inj failed).symm⟩
  · split at failed
    · obtain rfl := Except.error.inj failed
      exact .inr (.inr rfl)
    · dsimp only at failed
      split at failed
      · next fault _ =>
        obtain rfl := Except.error.inj failed
        cases fault with
        | unreadable path reason => exact .inr (.inr rfl)
        | longInteger digits => exact .inr (.inl ⟨digits, rfl⟩)
      · cases failed

theorem readCatalogs_error {tree : FileTree} {root : Path} {directory : String} {trouble : Trouble}
    (failed : readCatalogs tree root directory = .error trouble) :
    (∃ fault, trouble = .files fault) ∨ (∃ digits, trouble = .catalog (.longInteger digits)) ∨
      trouble.report?.isSome := by
  have each (place : Path) (names : List String) (catalogs : Catalogs)
      (failed : names.foldlM (readIfFile tree place) catalogs = .error trouble) :
      (∃ fault, trouble = .files fault) ∨ (∃ digits, trouble = .catalog (.longInteger digits)) ∨
        trouble.report?.isSome := by
    induction names generalizing catalogs with
    | nil => cases failed
    | cons name rest ih =>
      rcases Extract.bind_error failed with here | ⟨next, -, later⟩
      · unfold readIfFile at here
        split at here
        · next fault _ => exact .inl ⟨fault, (Except.error.inj here).symm⟩
        · cases here
        · exact readCatalog_error here
      · exact ih next later
  unfold readCatalogs at failed
  split at failed
  · next fault _ => exact .inl ⟨fault, (Except.error.inj failed).symm⟩
  · split at failed
    · next fault _ => exact .inl ⟨fault, (Except.error.inj failed).symm⟩
    · exact each _ _ _ failed
    · cases failed

end Theme

namespace Command

variable {session between now : Session} {settings : Settings} {seen wider : FileTree → Prop} {system : System}
  {trouble : Trouble}

/-! ### Keys -/

theorem whole_expected {collected expected : List CodePoints} {catalogs : Catalogs} {base : Option String}
    (known : expectedKeys collected catalogs base = .ok expected) (whole : ∀ entry ∈ catalogs, entry.2.Whole)
    (wholeKeys : ∀ key ∈ collected, key.Whole) : ∀ key ∈ expected, key.Whole := by
  unfold expectedKeys at known
  split at known
  · exact Except.ok.inj known ▸ wholeKeys
  · split at known
    · cases known
    · next catalog found =>
      exact Except.ok.inj known ▸ Catalog.whole_keys (whole _ (Members.mem_of_get? found))

/-- A report asks only for keys that are expected. -/
theorem missing_expected {expected : List CodePoints} {catalogs : Catalogs} {base : Option String} {all : Bool}
    {change : String × KeyDiff} (isIn : change ∈ reportedChanges (StatusReport.build expected catalogs base all))
    {key : CodePoints} (isMissing : key ∈ change.2.missing) : key ∈ expected := by
  obtain ⟨status, isStatus, rfl⟩ := List.mem_map.mp isIn
  obtain ⟨⟨locale, catalog⟩, -, isBuilt⟩ := List.mem_filterMap.mp isStatus
  dsimp only at isBuilt
  split at isBuilt
  · cases isBuilt
  · obtain rfl := Option.some.inj isBuilt
    have isFirst := (List.mem_filter.mp isMissing).1
    rwa [firsts_eq, List.mem_eraseDups] at isFirst

/-! ### Commands -/

/-- A catalog was read that is not whole. -/
def HalfRead (settings : Settings) (seen : FileTree → Prop) : Prop :=
  ∃ root paths tree catalogs, Found settings seen root paths ∧ seen tree ∧
    readCatalogs tree root settings.directory = .ok catalogs ∧ ∃ entry ∈ catalogs, ¬entry.2.Whole

theorem HalfRead.mono (half : HalfRead settings seen) (wide : ∀ tree, seen tree → wider tree) :
    HalfRead settings wider := by
  obtain ⟨root, paths, tree, catalogs, found, saw, read, isHalf⟩ := half
  exact ⟨root, paths, tree, catalogs, found.mono wide, wide _ saw, read, isHalf⟩

/-- The trouble in which a command can end. -/
inductive Breaks (settings : Settings) (seen : FileTree → Prop) (system : System) : Trouble → Prop where
  | files (fault : Files.Fault) : Breaks settings seen system (.files fault)
  | format (violation : Violation) : Breaks settings seen system (.catalogFormat violation)
  | unread {trouble : Trouble} (unread : Unread settings seen trouble) : Breaks settings seen system trouble
  | edit {root : Path} {paths : List String} {fault : EditFault} (found : Found settings seen root paths)
      (multiline : paths.Nodup → ∃ violation, fault = .violation violation) : Breaks settings seen system (.edit fault)
  | half {fault : Encoding.Unencodable} (half : HalfRead settings seen) : Breaks settings seen system (.unencodable fault)
  | line {trouble : Trouble} (objects : system.Objects trouble) : Breaks settings seen system trouble

theorem Breaks.mono (breaks : Breaks settings seen system trouble) (wide : ∀ tree, seen tree → wider tree) :
    Breaks settings wider system trouble := by
  cases breaks with
  | files fault => exact .files fault
  | format violation => exact .format violation
  | unread unread => exact .unread (unread.mono wide)
  | edit found multiline => exact .edit (found.mono wide) multiline
  | half half => exact .half (half.mono wide)
  | line objects => exact .line objects

theorem Breaks.allowed : Trouble.Allowed (Breaks settings seen) := ⟨fun _ => .files, fun _ => .format, .line⟩

/-- The trouble with which a run can break off. -/
inductive Escapes (settings : Settings) (seen : FileTree → Prop) (system : System) : Trouble → Prop where
  | files {fault : Files.Fault} (unblocked : ∀ why, fault ≠ .blocked why) : Escapes settings seen system (.files fault)
  | template {root : Path} {paths : List String} {path : String} {tree : FileTree} {trouble : Trouble}
      (found : Found settings seen root paths) (isTemplate : path ∈ paths) (isSeen : seen tree)
      (examined : (examine tree root settings.helper path).result = .error trouble) (unhandled : Unhandled trouble) :
      Escapes settings seen system trouble
  | catalog {root : Path} {paths : List String} {tree : FileTree} {digits : Nat} (found : Found settings seen root paths)
      (isSeen : seen tree) (read : readCatalogs tree root settings.directory = .error (.catalog (.longInteger digits))) :
      Escapes settings seen system (.catalog (.longInteger digits))
  /-- Two templates have the same path. -/
  | twice {root : Path} {paths : List String} (found : Found settings seen root paths) (twice : ¬paths.Nodup) :
      Escapes settings seen system (.edit .noSuchLine)
  | half {fault : Encoding.Unencodable} (half : HalfRead settings seen) : Escapes settings seen system (.unencodable fault)
  | line {trouble : Trouble} (objects : system.Objects trouble) : Escapes settings seen system trouble

theorem escapes_files {fault : Files.Fault} (unreported : (Trouble.files fault).report? = none) :
    Escapes settings seen system (.files fault) :=
  .files fun why same => by
    subst same
    cases unreported

/-- Trouble that nothing is reported about. -/
theorem Breaks.escapes (breaks : Breaks settings seen system trouble) (unreported : trouble.report? = none) :
    Escapes settings seen system trouble := by
  cases breaks with
  | files fault => exact escapes_files unreported
  | format violation => cases unreported
  | unread unread =>
    cases unread with
    | files fault => exact escapes_files unreported
    | template found isTemplate isSeen examined =>
      rcases examine_error examined with ⟨fault, rfl⟩ | unhandled | reported
      · exact escapes_files unreported
      · exact .template found isTemplate isSeen examined unhandled
      · simp [unreported] at reported
    | catalogs found isSeen read =>
      rcases readCatalogs_error read with ⟨fault, rfl⟩ | ⟨digits, rfl⟩ | reported
      · exact escapes_files unreported
      · exact .catalog found isSeen read
      · simp [unreported] at reported
  | @edit root paths fault found multiline =>
    cases fault with
    | violation violation => cases unreported
    | noSuchLine =>
      refine .twice found fun distinct => ?_
      obtain ⟨violation, same⟩ := multiline distinct
      cases same
  | half half => exact .half half
  | line objects => exact .line objects

/-- If whole catalogs are to get whole keys only, a catalog without bytes was not whole when it was read. -/
theorem covers_updated {theme : Theme} {changes : List (String × KeyDiff)} (read : theme.Read settings session between)
    (recorded : between.Recorded now) (wholeKeys : (∀ entry ∈ theme.catalogs, entry.2.Whole) →
      ∀ change ∈ changes, ∀ key ∈ change.2.missing, key.Whole) :
    ∀ updated ∈ updatedCatalogs theme.catalogs changes, Covers (Breaks settings (session.Saw now)) updated := by
  obtain ⟨tree, saw, -, readAll⟩ := read.catalogs
  obtain ⟨paths, found, -⟩ := read.templates
  intro updated isUpdated target contents fault serialized failed system
  obtain ⟨locale, catalog, diff, isEntry, isChange, rfl⟩ := mem_updatedCatalogs isUpdated
  obtain ⟨-, source, known⟩ := readCatalogs_kept readAll _ isEntry
  refine .half ⟨_, _, _, _, found.mono fun _ saw => saw.mono recorded, saw.mono recorded, readAll, ?_⟩
  by_contra noHalf
  have whole : ∀ entry ∈ theme.catalogs, entry.2.Whole := fun entry isIn =>
    by_contra fun half => noHalf ⟨entry, isIn, half⟩
  rcases Catalog.exists_half_of_update known serialized failed with half | ⟨key, isKey, half⟩
  · exact half (whole _ isEntry)
  · exact half (wholeKeys whole _ isChange key isKey)

/-- A step behind the reading of a theme, for trouble that its trees explain. -/
theorem moving_breaks {β : Type} {step : Run β} (idle : session.pending = []) (sofar : session.Recorded now)
    (keeps : (Session.moving (Breaks settings (session.Saw now))).Keeps step) :
    Ends step now (fun _ after => session.Moved after) fun trouble after =>
      session.Moved after ∧ Breaks settings (session.Saw after) session.system trouble := by
  refine (keeps now).mono (fun _ _ moves => sofar.moved.trans moves.1) ?_
  rintro trouble after ⟨⟨moved, -⟩, reason⟩
  have breaks := reason (.of_idle (sofar.pending.trans idle))
  rw [sofar.system] at breaks
  exact ⟨sofar.moved.trans moved, breaks.mono fun _ saw => saw.moved moved⟩

theorem find_breaks (flags : List String) (environment : Environment) (idle : session.pending = []) :
    Ends (find flags environment) session (fun _ after => session.Moved after) fun trouble after =>
      session.Moved after ∧ Breaks environment.settings (session.Saw after) session.system trouble := by
  unfold find
  dsimp only
  split
  · exact Run.complain_bind fun _ told => .pure told.recorded.moved
  refine Ends.bind ((read_ends environment.settings session).mono (fun _ _ read => read)
    fun _ _ stopped => ⟨stopped.1.moved, .unread stopped.2⟩) fun theme between read => ?_
  refine (reportFailures_ends environment theme between _).bind fun _ now told => ?_
  have sofar := read.recorded.trans told.recorded
  split
  · obtain ⟨paths, found, analysed, templates, findings, each, sources⟩ := read.templates
    refine moving_breaks idle sofar (updateTexts_moves Breaks.allowed (covers_updated read told.recorded ?_) ?_)
    · rintro - change isChange key isKey
      obtain ⟨entry, -, rfl⟩ := List.mem_map.mp isChange
      obtain ⟨text, -, rfl⟩ := List.mem_map.mp isKey
      exact CodePoints.whole_points text
    · intro _ fault failed
      refine .edit (found.mono fun _ saw => saw.mono told.recorded) fun distinct => ?_
      rw [templates, findings] at failed
      exact renderChanges_fault each (sources.nodup distinct) failed
  · exact moving_breaks idle sofar (.bind (Run.talks_moves Breaks.allowed (listTexts_talks _ _ _ _)) fun _ => .pure _)

theorem status_breaks (flags : List String) (environment : Environment) (idle : session.pending = []) :
    Ends (status flags environment) session (fun _ after => session.Moved after) fun trouble after =>
      session.Moved after ∧ Breaks environment.settings (session.Saw after) session.system trouble := by
  unfold status
  dsimp only
  split
  · exact Run.complain_bind fun _ told => .pure told.recorded.moved
  refine Ends.bind ((read_ends environment.settings session).mono (fun _ _ read => read)
    fun _ _ stopped => ⟨stopped.1.moved, .unread stopped.2⟩) fun theme between read => ?_
  refine (reportFailures_ends environment theme between _).bind fun _ now told => ?_
  have talks {step : Run Unit} (talks : Session.talking.Keeps step) :
      (Session.moving (Breaks environment.settings (session.Saw now))).Keeps step :=
    Run.talks_moves Breaks.allowed talks
  refine moving_breaks idle (read.recorded.trans told.recorded) ?_
  split
  · exact .bind (Run.complain_moves _) fun _ => .pure _
  · next expected known =>
    refine .bind (Run.event_moves Breaks.allowed _ _) fun _ => ?_
    split
    · have updates : (Session.moving (Breaks environment.settings (session.Saw now))).Keeps
          (updateReported (StatusOptions.ofFlags flags) environment theme
            (StatusReport.build expected theme.catalogs environment.settings.baseLocale (StatusOptions.ofFlags flags).all)) := by
        refine updateReported_moves Breaks.allowed _ _ (covers_updated read told.recorded fun whole change isChange key isKey => ?_)
        refine whole_expected known whole (fun collected isCollected => ?_) key (missing_expected isChange isKey)
        obtain ⟨text, -, rfl⟩ := List.mem_map.mp isCollected
        exact CodePoints.whole_points text
      split
      · exact .bind (talks (printJson_talks _)) fun _ => updates
      · exact updates
    · split
      · exact .bind (talks (printJson_talks _)) fun _ => .pure _
      · exact .bind (talks (printReport_talks _ _ _)) fun _ => .pure _

/-! ### Exit codes -/

theorem find_gives (flags : List String) (environment : Environment) : Gives (· ≤ 1) (find flags environment) := by
  unfold find
  dsimp only
  split
  · exact .bind fun _ => .pure (Nat.le_refl 1)
  refine .bind fun theme => .bind fun _ => ?_
  split
  · unfold updateTexts
    dsimp only
    split
    · exact .throw _
    · exact .bind fun _ => .bind fun _ => .bind fun _ => .pure (Nat.zero_le 1)
  · refine .bind fun _ => .pure ?_
    split <;> decide

theorem code_le (options : StatusOptions) (report : StatusReport) : options.code report ≤ 1 := by
  unfold StatusOptions.code
  repeat' split
  all_goals decide

theorem status_gives (flags : List String) (environment : Environment) : Gives (· ≤ 1) (status flags environment) := by
  unfold status
  dsimp only
  split
  · exact .bind fun _ => .pure (Nat.le_refl 1)
  refine .bind fun theme => .bind fun _ => ?_
  split
  · exact .bind fun _ => .pure (Nat.le_refl 1)
  refine .bind fun _ => ?_
  split
  · have updates (report : StatusReport) :
        Gives (· ≤ 1) (updateReported (StatusOptions.ofFlags flags) environment theme report) :=
      .bind fun _ => .pure (Nat.zero_le 1)
    split
    · exact .bind fun _ => updates _
    · exact updates _
  · split
    · exact .bind fun _ => .pure (code_le _ _)
    · exact .bind fun _ => .pure (code_le _ _)

theorem report_code {trouble : Trouble} {message : String} {code : Nat}
    (reported : trouble.report? = some (message, code)) : code = 1 ∨ code = 2 := by
  unfold Trouble.report? at reported
  split at reported
  all_goals first
    | (obtain ⟨-, rfl⟩ := Prod.mk.inj (Option.some.inj reported); simp [Trouble.inputCode, Trouble.contractCode])
    | cases reported

theorem handler_ends {name : String} {handler : Handler} (found : builtin.dispatch name = .ok handler)
    (flags : List String) (environment : Environment) (idle : session.pending = []) :
    Ends (handler flags environment) session (fun code after => session.Moved after ∧ code ≤ 1) fun trouble after =>
      session.Moved after ∧ Breaks environment.settings (session.Saw after) session.system trouble := by
  rcases dispatch_builtin found with rfl | rfl
  · exact ((find_breaks flags environment idle).and (find_gives flags environment session)).mono
      (fun _ _ both => both) fun _ _ both => both.1
  · exact ((status_breaks flags environment idle).and (status_gives flags environment session)).mono
      (fun _ _ both => both) fun _ _ both => both.1

theorem runCommand_ends (invocation : Invocation) (environment : Environment) (idle : session.pending = []) :
    Ends (runCommand invocation environment) session (fun code after => session.Moved after ∧ code ≤ 2)
      fun trouble after => session.Moved after ∧
        Escapes environment.settings (session.Saw after) session.system trouble := by
  refine @runCommand_rule session invocation environment _ (fun trouble after => session.Moved after ∧
    Breaks environment.settings (session.Saw after) session.system trouble) _ ?_ ?_ ?_ ?_
  · exact fun after told => ⟨told.recorded.moved, by decide⟩
  · intro handler found
    exact (handler_ends found invocation.flags environment idle).mono
      (fun code after done => ⟨done.1, Nat.le_succ_of_le done.2⟩) fun _ _ broken => broken
  · rintro trouble message code between after ⟨moved, -⟩ reported told
    refine ⟨moved.trans told.recorded.moved, ?_⟩
    rcases report_code reported with rfl | rfl <;> decide
  · rintro trouble after ⟨moved, breaks⟩ unreported
    exact ⟨moved, breaks.escapes unreported⟩

/-! ### Whole runs -/

theorem Escapes.mono (escapes : Escapes settings seen system trouble) (wide : ∀ tree, seen tree → wider tree) :
    Escapes settings wider system trouble := by
  cases escapes with
  | files unblocked => exact .files unblocked
  | template found isTemplate isSeen examined unhandled =>
    exact .template (found.mono wide) isTemplate (wide _ isSeen) examined unhandled
  | catalog found isSeen read => exact .catalog (found.mono wide) (wide _ isSeen) read
  | twice found twice => exact .twice (found.mono wide) twice
  | half half => exact .half (half.mono wide)
  | line objects => exact .line objects

theorem escapes_refused {fault : Files.Fault} (refused : fault.IsRefused) :
    Escapes settings seen system (.files fault) :=
  .files (Settings.refused_unblocked refused)

theorem runRecorded_ends (invocation : Invocation) (environment : Environment) (stamp : Stamp)
    (idle : session.pending = []) :
    Ends (runRecorded invocation environment stamp) session (fun code _ => code ≤ 2) fun trouble after =>
      Escapes environment.settings (Grown after.Records session.tree) session.system trouble := by
  unfold runRecorded
  dsimp only
  refine ((openRecorders_ends _ session).mono (fun _ _ opened => opened) ?_).bind ?_
  · rintro trouble after ⟨-, fault, rfl, refused⟩
    exact escapes_refused refused
  rintro _ opened isOpened
  refine ((Run.event_ends _ _ opened).mono (fun _ _ holds => holds.1) ?_).bind ?_
  · rintro trouble after ⟨-, fault, rfl, refused, -⟩
    exact escapes_refused refused
  rintro _ began recorded
  have isIdle : began.pending = [] := recorded.pending.trans (isOpened.pending.trans idle)
  refine ((runCommand_ends invocation environment isIdle).mono (fun _ _ done => done.2) ?_).bind ?_
  · rintro trouble after ⟨moved, escapes⟩
    rw [recorded.system, isOpened.system] at escapes
    exact escapes.mono fun tree saw =>
      (isOpened.grown.mono fun _ => False.elim).trans ((recorded.saw.moved moved).trans saw)
  · intro code mid isCode
    refine ((Run.emit_ends _ mid).mono (fun _ _ _ => isCode) ?_).bind fun _ _ isCode => .pure isCode
    rintro trouble last ⟨-, fault, rfl, onEvent⟩
    exact escapes_refused (onEvent _ rfl).1

theorem runInvocation_ends (machine : Machine) (invocation : Invocation) (idle : session.pending = []) :
    Ends (runInvocation machine invocation) session (fun code _ => code ≤ 2) fun trouble after =>
      (∃ fault, trouble = .files fault ∧ ∀ why, fault ≠ .blocked why) ∨
        ∃ settings, Settings.load session.tree machine.here machine.processors
          (Path.startingAt machine.here invocation.theme) invocation.overrides = .ok settings ∧
          Escapes settings (Grown after.Records session.tree) session.system trouble := by
  unfold runInvocation
  dsimp only
  refine Ends.get_bind (Run.ofFiles_bind (fun theme _ => ?_) fun fault failed =>
    .inl ⟨fault, rfl, Settings.refused_unblocked (FileTree.reached_fault failed)⟩)
  split
  · split
    · next settings loaded =>
      exact (runRecorded_ends invocation ⟨settings, _⟩ machine.stamp idle).mono
        (fun _ _ isCode => isCode) fun _ _ escapes => .inr ⟨settings, loaded, escapes⟩
    · next fault failed =>
      split
      · next fault' escaping =>
        obtain rfl := Settings.escaping_eq escaping
        exact .throw (.inl ⟨fault', rfl, fun why same => Settings.load_fails _ _ _ _ _ _ failed why (same ▸ rfl)⟩)
      · exact Run.complain_bind fun _ _ => .pure (by decide)
  · exact Run.complain_bind fun _ _ => .pure (by decide)

/-- A run whose command line is accepted ends with the exit code 0, 1 or 2, or it breaks off with trouble
of one of a few kinds. -/
theorem run_finishes (machine : Machine) (words : List String) (tree : FileTree) :
    (∃ rejection, Invocation.read words = .error rejection ∧
      (run machine words tree).1 = .rejected rejection) ∨
    (∃ code, (run machine words tree).1 = .exit code ∧ code ≤ 2) ∨
    ∃ trouble, (run machine words tree).1 = .broken trouble ∧
      ((∃ fault, trouble = .files fault ∧ ∀ why, fault ≠ .blocked why) ∨
        ∃ invocation settings, Invocation.read words = .ok invocation ∧
          Settings.load tree machine.here machine.processors
            (Path.startingAt machine.here invocation.theme) invocation.overrides = .ok settings ∧
          Escapes settings (Grown (run machine words tree).2.Records tree) machine.system trouble) := by
  unfold run
  dsimp only
  split
  · next rejection read => exact .inl ⟨rejection, read, rfl⟩
  · next invocation read =>
    have ends := @runInvocation_ends { tree, system := machine.system } machine invocation rfl
    split
    · next code last finished => exact .inr (.inl ⟨code, rfl, ends.onOk code last finished⟩)
    · next trouble last finished =>
      refine .inr (.inr ⟨trouble, rfl, (ends.onError trouble last finished).imp_right ?_⟩)
      rintro ⟨settings, loaded, escapes⟩
      exact ⟨invocation, settings, read, loaded, escapes⟩

/-- A declaration of an unknown kind in one template breaks off the whole run. -/
example :
    let tree : FileTree := .directory [("w", .directory [("theme", .directory
      [("a.hbs", .file (Encoding.encode "<![x>".toList))])])]
    (run ⟨["w"], 1, ⟨"run", "now"⟩, .sound⟩ ["find", "theme"] tree).1 = .broken (.analysis .refused) := by
  decide +kernel

/-- Half a pair in a catalog breaks off an update of it. -/
example :
    let tree : FileTree := .directory [("w", .directory [("theme", .directory
      [("locales", .directory [("en.json", .file (Encoding.encode
        ['\x7b', '"', 'a', '"', ':', '"', '\\', 'u', 'd', '8', '0', '0', '"', '\x7d']))])])])]
    (run ⟨["w"], 1, ⟨"run", "now"⟩, .sound⟩ ["find", "theme", "--update"] tree).1 =
      .broken (.unencodable ⟨0xd800, 9, 1⟩) := by
  decide +kernel

end Command

end Phrasebook
