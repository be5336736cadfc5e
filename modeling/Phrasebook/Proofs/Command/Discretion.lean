import Phrasebook.Proofs.Command.Endings
import Phrasebook.Proofs.Theme.Survey

/-!
# What the log of a run gives away

A run that lists the texts of a theme and keeps a log sees which templates there are, how each of them stands,
and the locales. Its log shows nothing else: two runs that see the same write the same lines, up to their stamps.
-/

namespace Phrasebook.Command

open Files Record Theme

/-- A run that only lists the texts of a theme, keeps a log, and ends well. -/
structure Listing where
  machine : Machine
  words : List String
  tree : FileTree
  invocation : Invocation
  settings : Settings
  log : Path
  session : Session
  accepted : Invocation.read words = .ok invocation
  isFind : invocation.command = "find"
  noUpdate : "update" ∉ invocation.flags
  loaded : Settings.load tree machine.here machine.processors (Path.startingAt machine.here invocation.theme)
    invocation.overrides = .ok settings
  isLogged : settings.auditLog = some log
  ran : run machine words tree = (.exit 0, session)

/-- Does what a run does until the theme is read, and tells what the theme looks like meanwhile. -/
def survey (settings : Settings) (stamp : Stamp) (command : String) : Run View := do
  openRecorders (recordersOf settings stamp)
  Run.event "command_started" [("command", .text command)]
  Theme.survey settings

/-- The events of a command that ends well on a theme that looks like this. -/
def eventsOf (command : String) (view : View) : List Event :=
  .plain "command_started" [("command", .text command)] :: view.events ++
    [.plain "command_finished" [("command", .text command), ("exit_code", .int 0)]]

/-- What a log holds once its directory is there. -/
def heldAt (started : Session) (settings : Settings) (stamp : Stamp) (log : Path) : ByteArray :=
  ((openRecorders (recordersOf settings stamp)).run.run started).2.tree.contents log

/-- A command that ends well has shown how a theme looks, and nothing else. -/
structure Discloses (started : Session) (settings : Settings) (stamp : Stamp) (command : String) (log : Path)
    (view : View) (after : Session) : Prop where
  seen : ((survey settings stamp command).run.run started).1 = .ok view
  held (bytes : ByteArray) : started.tree.read log = .ok bytes → heldAt started settings stamp log = bytes
  given : after.events = eventsOf command view
  written : after.Written log stamp (heldAt started settings stamp log)

/-! ### Runs with a log -/

section

variable {log : Path} {stamp : Stamp} {held : ByteArray} {session : Session} {settings : Settings} {flags : List String}

theorem openRecorders_logs (isLogged : settings.auditLog = some log) (stamp : Stamp) (silent : session.signals = []) :
    Ends (openRecorders (recordersOf settings stamp)) session
      (fun _ after => after.Logs log stamp (after.tree.contents log) ∧ after.events = [] ∧
        ∀ bytes, session.tree.read log = .ok bytes → after.tree.contents log = bytes) fun _ _ => True := by
  refine (openRecorders_ends _ _).mono ?_ fun _ _ _ => trivial
  intro _ after opened
  have noEvents : after.events = [] := by rw [Session.events, opened.signals, silent, List.map_nil]
  refine ⟨⟨⟨settings.debugDirectory.toList, ?_⟩, .inl ?_⟩, noEvents, fun bytes before => ?_⟩
  · rw [opened.recorders, recordersOf, isLogged]
    cases settings.debugDirectory <;> rfl
  · rw [noEvents]
    exact ByteArray.append_empty.symm
  · obtain ⟨bytes', place, -, read, same⟩ := opened.grown.read before
    rw [FileTree.contents, read, same.resolve_left id]
    rfl

theorem find_logs (logs : session.Logs log stamp held) (environment : Environment) (noUpdate : "update" ∉ flags) :
    Ends (find flags environment) session
      (fun _ after => after.Logs log stamp held ∧ ∃ view now,
        (Theme.survey environment.settings).run.run session = (.ok view, now) ∧
          after.events = session.events ++ view.events) fun _ _ => True := by
  have isListing : (FindOptions.ofFlags flags).update = false := by simpa [FindOptions.ofFlags] using noUpdate
  unfold find
  simp only [isListing, Bool.false_and, Bool.false_eq_true, if_false]
  refine (read_survey logs environment.settings).bind ?_
  rintro theme between ⟨logs', shown⟩
  refine (reportFailures_ends environment theme between _).bind fun _ now told =>
    Run.talks_bind (listTexts_talks _ _ _ _) (fun _ _ _ _ => trivial) fun _ _ told' => .pure ?_
  obtain ⟨out, err, rfl⟩ := told.trans told'
  exact ⟨logs'.told (told.trans told'), shown⟩

theorem runCommand_logs {invocation : Invocation} (logs : session.Logs log stamp held) (environment : Environment)
    (isFind : invocation.command = "find") (noUpdate : "update" ∉ invocation.flags) :
    Ends (runCommand invocation environment) session
      (fun code after => code = 0 → after.Logs log stamp held ∧ ∃ view now,
        (Theme.survey environment.settings).run.run session = (.ok view, now) ∧
          after.events = session.events ++ view.events) fun _ _ => True := by
  refine @runCommand_rule session invocation environment _ (fun _ _ => True) _ ?_ ?_ ?_ fun _ _ _ _ => trivial
  · intro after _ success
    cases success
  · intro handler found
    rw [isFind] at found
    obtain rfl := Except.ok.inj found
    exact (find_logs logs environment noUpdate).mono (fun _ _ shown _ => shown) fun _ _ _ => trivial
  · rintro trouble message code between after - reported - rfl
    rcases report_code reported with failed | failed <;> cases failed

theorem runRecorded_logs {invocation : Invocation} {environment : Environment} (stamp : Stamp)
    (silent : session.signals = []) (isLogged : environment.settings.auditLog = some log) (isFind : invocation.command = "find")
    (noUpdate : "update" ∉ invocation.flags) :
    Ends (runRecorded invocation environment stamp) session
      (fun code after => code = 0 → ∃ view,
        Discloses session environment.settings stamp invocation.command log view after) fun _ _ => True := by
  unfold runRecorded
  dsimp only
  refine (openRecorders_logs isLogged stamp silent).ran.bind ?_
  rintro _ opened ⟨opens, logs, noEvents, before⟩
  have held : opened.tree.contents log = heldAt session environment.settings stamp log := by rw [heldAt, opens]
  rw [held] at logs before
  refine (Run.event_logs logs _ _).ran.bind ?_
  rintro _ began ⟨starts, logs, -, events⟩
  refine (runCommand_logs logs environment isFind noUpdate).bind ?_
  rintro code listed shown
  by_cases success : code = 0
  · obtain ⟨logs, view, now, looked, events'⟩ := shown success
    have seen : (survey environment.settings stamp invocation.command).run.run session = (.ok view, now) :=
      (run_bind_ok opens _).trans ((run_bind_ok starts _).trans looked)
    refine (Run.emit_logs logs _).bind ?_
    rintro _ after ⟨-, written, signals⟩
    refine .pure fun _ => ⟨view, congrArg Prod.fst seen, before, ?_, written⟩
    rw [Session.events, signals, List.map_append]
    change listed.events ++ _ = _
    rw [events', events, noEvents, success]
    rfl
  · exact (Ends.any _ _).bind fun _ _ _ => .pure fun success' => absurd success' success

theorem runInvocation_logs {machine : Machine} {invocation : Invocation} (silent : session.signals = [])
    (loaded : Settings.load session.tree machine.here machine.processors (Path.startingAt machine.here invocation.theme)
      invocation.overrides = .ok settings)
    (isLogged : settings.auditLog = some log) (isFind : invocation.command = "find")
    (noUpdate : "update" ∉ invocation.flags) :
    Ends (runInvocation machine invocation) session
      (fun code after => code = 0 → ∃ view,
        Discloses session settings machine.stamp invocation.command log view after) fun _ _ => True := by
  unfold runInvocation
  dsimp only
  refine Ends.get_bind (Run.ofFiles_bind (fun theme _ => ?_) fun _ _ => trivial)
  split
  · rw [loaded]
    exact runRecorded_logs machine.stamp silent isLogged isFind noUpdate
  · exact Run.complain_bind fun _ _ => .pure fun success => (by cases success)

end

/-! ### What a log gives away -/

namespace Listing

/-- The session in which the run starts. -/
def started (listing : Listing) : Session := { tree := listing.tree, system := listing.machine.system }

/-- What the run sees of the theme, told as it goes: the log may itself lie in the theme. -/
def seen (listing : Listing) : Except Trouble View :=
  ((survey listing.settings listing.machine.stamp listing.invocation.command).run.run listing.started).1

/-- What the log holds before the first line is written. -/
def held (listing : Listing) : ByteArray :=
  heldAt listing.started listing.settings listing.machine.stamp listing.log

/-- The run gives some events, and writes a line for each of them behind what the log held. A log in whose place
a masked template is written holds something else. -/
structure Appends (listing : Listing) (events : List Event) : Prop where
  given : listing.session.events = events
  held (bytes : ByteArray) : listing.tree.read listing.log = .ok bytes → listing.held = bytes
  written : ∃ bytes, listing.session.tree.read listing.log = .ok bytes ∧
    (bytes = Session.logged listing.machine.stamp listing.held events ∨ listing.session.Masked listing.log)

/-- A run sees its theme in some way, and shows this and nothing else. -/
theorem seen_appends (listing : Listing) :
    ∃ view, listing.seen = .ok view ∧ listing.Appends (eventsOf "find" view) := by
  have ran := listing.ran
  unfold run at ran
  rw [listing.accepted] at ran
  dsimp only at ran
  split at ran
  · next code last finished =>
    obtain ⟨same, rfl⟩ := Prod.mk.inj ran
    have ends := @runInvocation_logs _ listing.started _ _ _ rfl listing.loaded listing.isLogged listing.isFind listing.noUpdate
    obtain ⟨view, seen, held, given, written⟩ := ends.onOk code _ finished (Ending.exit.inj same)
    rw [listing.isFind] at given
    exact ⟨view, seen, given, held, given ▸ written⟩
  · cases (Prod.mk.inj ran).1

theorem exists_of_run {machine : Machine} {words : List String} {tree : FileTree} {log : Path} {view : View}
    (checked : ((Invocation.read words).toOption.bind fun invocation =>
      (Settings.load tree machine.here machine.processors (Path.startingAt machine.here invocation.theme)
        invocation.overrides).toOption.map fun settings =>
          (invocation.command, invocation.flags, settings.auditLog,
            ((survey settings machine.stamp invocation.command).run.run { tree, system := machine.system }).1)) =
      some ("find", [], some log, .ok view))
    (ended : (run machine words tree).1 = .exit 0) :
    ∃ listing : Listing, listing.machine = machine ∧ listing.tree = tree ∧ listing.seen = .ok view := by
  obtain ⟨invocation, read, found⟩ := Option.bind_eq_some_iff.mp checked
  obtain ⟨settings, loaded, same⟩ := Option.map_eq_some_iff.mp found
  simp only [Prod.mk.injEq] at same
  obtain ⟨isFind, flags, isLogged, seen⟩ := same
  have noUpdate : "update" ∉ invocation.flags := by
    rw [flags]
    exact List.not_mem_nil
  exact ⟨⟨machine, words, tree, invocation, settings, log, _, ok_of_toOption read, isFind, noUpdate,
    ok_of_toOption loaded, isLogged, Prod.ext ended rfl⟩, rfl, rfl, seen⟩

/-- Two runs that see the same of their themes give the same events, and write the same lines for them up to
their stamps. -/
theorem appends_alike {first second : Listing} (alike : first.seen = second.seen) :
    ∃ view, first.seen = .ok view ∧ first.Appends (eventsOf "find" view) ∧
      second.Appends (eventsOf "find" view) := by
  obtain ⟨view, seen, appends⟩ := first.seen_appends
  obtain ⟨view', seen', appends'⟩ := second.seen_appends
  obtain rfl := Except.ok.inj (seen.symm.trans (alike.trans seen'))
  exact ⟨view, seen, appends, appends'⟩

/-- Two themes with other texts, other keys and other translations. -/
theorem appends_alike_apart :
    ∃ first second : Listing,
      first.tree.read ["w", "theme", "a.hbs"] = .ok (Encoding.encode "<p>Hello</p>".toList) ∧
      second.tree.read ["w", "theme", "a.hbs"] = .ok (Encoding.encode ("Bye ".toList ++ wrap ['t'] ['k'])) ∧
      first.tree.read ["w", "theme", "locales", "fr.json"] = .ok (Encoding.encode "\x7b\x7d".toList) ∧
      second.tree.read ["w", "theme", "locales", "fr.json"] = .ok (Encoding.encode "\x7b\"k\": \"c\"\x7d".toList) ∧
      first.machine.stamp ≠ second.machine.stamp ∧ first.seen = second.seen ∧
      ∃ view, first.seen = .ok view ∧ first.Appends (eventsOf "find" view) ∧
        second.Appends (eventsOf "find" view) := by
  obtain ⟨tree, isTree⟩ : ∃ tree : FileTree, .directory [("w", .directory [("theme", .directory
      [("a.hbs", .file (Encoding.encode "<p>Hello</p>".toList)), ("locales", .directory
        [("fr.json", .file (Encoding.encode "\x7b\x7d".toList))])])])] = tree := ⟨_, rfl⟩
  obtain ⟨tree', isTree'⟩ : ∃ tree : FileTree, .directory [("w", .directory [("theme", .directory
      [("a.hbs", .file (Encoding.encode ("Bye ".toList ++ wrap ['t'] ['k']))), ("locales", .directory
        [("fr.json", .file (Encoding.encode "\x7b\"k\": \"c\"\x7d".toList))])])])] = tree := ⟨_, rfl⟩
  obtain ⟨first, machine, rfl, seen⟩ := @exists_of_run ⟨["w"], 1, ⟨"run", "now"⟩, .sound⟩
    ["find", "theme", "--workers", "1", "--audit-log", "log"] tree ["w", "log"] ⟨[("a.hbs", .analysed 1)], ["fr"]⟩
    (by rw [← isTree]; decide +kernel) (by rw [← isTree]; decide +kernel)
  obtain ⟨second, machine', rfl, seen'⟩ := @exists_of_run ⟨["w"], 1, ⟨"later", "then"⟩, .sound⟩
    ["find", "theme", "--workers", "1", "--audit-log", "log"] tree' ["w", "log"] ⟨[("a.hbs", .analysed 1)], ["fr"]⟩
    (by rw [← isTree']; decide +kernel) (by rw [← isTree']; decide +kernel)
  have texts : first.tree.read ["w", "theme", "a.hbs"] = .ok (Encoding.encode "<p>Hello</p>".toList) ∧
      first.tree.read ["w", "theme", "locales", "fr.json"] = .ok (Encoding.encode "\x7b\x7d".toList) := by
    rw [← isTree]
    decide +kernel
  have texts' : second.tree.read ["w", "theme", "a.hbs"] =
        .ok (Encoding.encode ("Bye ".toList ++ wrap ['t'] ['k'])) ∧
      second.tree.read ["w", "theme", "locales", "fr.json"] =
        .ok (Encoding.encode "\x7b\"k\": \"c\"\x7d".toList) := by
    rw [← isTree']
    decide +kernel
  have alike : first.seen = second.seen := seen.trans seen'.symm
  refine ⟨first, second, texts.1, texts'.1, texts.2, texts'.2, ?_, alike, appends_alike alike⟩
  rw [machine, machine']
  decide

end Listing

end Phrasebook.Command
