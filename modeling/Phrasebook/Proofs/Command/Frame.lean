import Phrasebook.Proofs.Command.Outcome

/-!
# Which files a run leaves as they are

A run changes a file only where its recorders write, unless it is an update that has succeeded, a catalog was
read whose path in its theme does not lead to its file, or something was not taken that the run gave out.
-/

namespace Phrasebook.Command

open Files Record
open FileTree (Grown)

variable {session : Session} {settings : Settings} {flags : List String}

/-! ### Commands -/

theorem Outcome.on {before middle after : Session} {succeeds hindered wider looser : Prop}
    (outcome : Outcome settings flags before middle succeeds hindered) (recorded : middle.Recorded after)
    (wide : succeeds → wider) (loose : hindered → looser) : Outcome settings flags before after wider looser := by
  cases outcome with
  | recorded sofar => exact .recorded (sofar.trans recorded)
  | updated asked success moved isOpen =>
    exact .updated asked (wide success) (moved.trans recorded.moved) (recorded.isOpen isOpen)
  | astray asked moved astray =>
    exact .astray asked (moved.trans recorded.moved) (astray.mono fun _ saw => saw.mono recorded)
  | hindered asked hindrance => exact .hindered asked (loose hindrance)

theorem Outcome.since {before middle after : Session} {succeeds hindered : Prop} (recorded : before.Recorded middle)
    (outcome : Outcome settings flags middle after succeeds hindered) :
    Outcome settings flags before after succeeds hindered := by
  cases outcome with
  | recorded later => exact .recorded (recorded.trans later)
  | updated asked success moved isOpen => exact .updated asked success (recorded.moved.trans moved) isOpen
  | astray asked moved astray =>
    exact .astray asked (recorded.moved.trans moved) (astray.mono fun _ saw => (recorded.saw.moved moved).trans saw)
  | hindered asked hindrance => exact .hindered asked hindrance

theorem dispatch_builtin {name : String} {handler : Handler} (found : builtin.dispatch name = .ok handler) :
    handler = find ∨ handler = status := by
  have known : builtin.handlers = [("find", find), ("status", status)] := rfl
  unfold Registry.dispatch Registry.get? at found
  split at found
  · next other isKnown =>
    obtain rfl := Except.ok.inj found
    have isIn := Members.mem_of_get? isKnown
    rw [known] at isIn
    simp only [List.mem_cons, Prod.mk.injEq, List.not_mem_nil, or_false] at isIn
    exact isIn.imp And.right And.right
  · cases found

/-- A command ends as its handler does, or with a report of the trouble in which the handler breaks off. -/
theorem runCommand_rule {invocation : Invocation} {environment : Environment} {ok : Nat → Session → Prop}
    {broken stop : Trouble → Session → Prop} (unknown : ∀ after, session.Told after → ok Trouble.inputCode after)
    (handled : ∀ handler, builtin.dispatch invocation.command = .ok handler →
      Ends (handler invocation.flags environment) session ok broken)
    (reported : ∀ trouble message code between after, broken trouble between →
      trouble.report? = some (message, code) → between.Told after → ok code after)
    (unreported : ∀ trouble after, broken trouble after → trouble.report? = none → stop trouble after) :
    Ends (runCommand invocation environment) session ok stop := by
  unfold runCommand
  split
  · exact Run.complain_bind fun after told => .pure (unknown after told)
  · next handler found =>
    have attempted : Ends (Run.attempt (handler invocation.flags environment)) session
        (fun result after => (∀ code, result = .ok code → ok code after) ∧
          ∀ trouble, result = .error trouble → broken trouble after) stop :=
      Run.attempt_ends ((handled handler found).mono
        (fun code after done => ⟨fun other same => Except.ok.inj same ▸ done, fun trouble same => (by cases same)⟩)
        fun trouble after failed => ⟨fun code same => (by cases same), fun other same => Except.error.inj same ▸ failed⟩)
    refine attempted.bind ?_
    rintro result between ⟨onOk, onError⟩
    cases result with
    | ok code => exact .pure (onOk code rfl)
    | error trouble =>
      have failed := onError trouble rfl
      dsimp only
      split
      · next message code isReported =>
        exact Run.complain_bind fun after told =>
          .pure (reported trouble message code between after failed isReported told)
      · next isSilent => exact .throw (unreported trouble between failed isSilent)

theorem runCommand_outcome (invocation : Invocation) (environment : Environment) (idle : session.pending = []) :
    Comes environment.settings invocation.flags session (runCommand invocation environment) session := by
  refine @runCommand_rule session invocation environment _ (fun trouble after =>
    Outcome environment.settings invocation.flags session after False (session.system.Hinders trouble)) _ ?_ ?_ ?_ ?_
  · exact fun after told => .recorded told.recorded
  · intro handler found
    rcases dispatch_builtin found with rfl | rfl
    · exact find_outcome invocation.flags environment idle
    · exact status_outcome invocation.flags environment idle
  · intro trouble message code between after failed reported told
    -- What is not taken is never reported.
    refine failed.on told.recorded False.elim fun hinders => ?_
    cases hinders.unreported.symm.trans reported
  · exact fun trouble after failed _ => failed

/-! ### Whole runs -/

/-- How a run leaves the files, where `succeeds` says that it succeeds, and `hindered` that something was not
taken that it gave out: nothing is written but what is recorded, an update has succeeded, a catalog was
astray, or an update was hindered. -/
inductive Leaves (settings : Settings) (flags : List String) (tree : FileTree) (after : Session)
    (succeeds hindered : Prop) : Prop where
  | framed (frame : Grown after.Records tree after.tree)
  | updated (asked : "update" ∈ flags) (success : succeeds)
  | astray (asked : "update" ∈ flags) (astray : Astray settings (Grown after.Records tree))
  | hindered (asked : "update" ∈ flags) (hindrance : hindered)

theorem Leaves.mono {tree : FileTree} {after : Session} {succeeds hindered wider looser : Prop}
    (left : Leaves settings flags tree after succeeds hindered) (wide : succeeds → wider) (loose : hindered → looser) :
    Leaves settings flags tree after wider looser := by
  cases left with
  | framed frame => exact .framed frame
  | updated asked success => exact .updated asked (wide success)
  | astray asked astray => exact .astray asked astray
  | hindered asked hindrance => exact .hindered asked (loose hindrance)

theorem Outcome.leaves {before after : Session} {tree : FileTree} {succeeds hindered : Prop}
    (outcome : Outcome settings flags before after succeeds hindered)
    (opened : Grown (fun _ => False) tree before.tree) : Leaves settings flags tree after succeeds hindered := by
  have opened : Grown after.Records tree before.tree := opened.mono fun _ => False.elim
  cases outcome with
  | recorded recorded => exact .framed (opened.trans recorded.grown)
  | updated asked success moved isOpen => exact .updated asked success
  | astray asked moved astray => exact .astray asked (astray.mono fun _ saw => opened.trans saw)
  | hindered asked hindrance => exact .hindered asked hindrance

/-- What opening recorders does to a session. -/
structure Opened (recorders : List Recorder) (before after : Session) : Prop where
  recorders : after.recorders = recorders
  system : after.system = before.system
  signals : after.signals = before.signals
  pending : after.pending = before.pending
  grown : Grown (fun _ => False) before.tree after.tree

theorem openRecorders_ends (recorders : List Recorder) (session : Session) :
    Ends (openRecorders recorders) session (fun _ after => Opened recorders session after)
      fun trouble after => Grown (fun _ => False) session.tree after.tree ∧
        ∃ fault, trouble = .files fault ∧ fault.IsRefused := by
  have prepared (recorder : Recorder) (disk : Disk) (tree : FileTree) : Ends (recorder.prepare disk) tree
      (fun _ after => Grown (fun _ => False) tree after)
      fun fault after => Grown (fun _ => False) tree after ∧ fault.IsRefused := by
    cases recorder with
    | log path stamp => exact FileOperation.makeDirectories_ends disk path.dropLast
    | masks directory => exact .pure (.refl _ _)
  refine .get_bind (Ends.bind (Ends.forM (fun after => ∃ tree, after = { session with tree } ∧
    Grown (fun _ => False) session.tree tree) ⟨_, rfl, .refl _ _⟩ ?_) ?_)
  · rintro recorder - _ ⟨tree, rfl, grown⟩
    exact Run.operate_ends ((prepared recorder session.system.disk tree).mono
      (fun _ tree later => ⟨tree, rfl, grown.trans later⟩) fun fault tree later =>
        ⟨grown.trans later.1, fault, rfl, later.2⟩)
  · rintro _ _ ⟨tree, rfl, grown⟩
    exact .modify ⟨rfl, rfl, rfl, rfl, grown⟩

theorem runRecorded_leaves (invocation : Invocation) (environment : Environment) (stamp : Stamp)
    (idle : session.pending = []) :
    Ends (runRecorded invocation environment stamp) session
      (fun code after => Leaves environment.settings invocation.flags session.tree after (code = 0) False)
      fun trouble after =>
        Leaves environment.settings invocation.flags session.tree after False (session.system.Hinders trouble) := by
  unfold runRecorded
  dsimp only
  refine ((openRecorders_ends _ session).mono (fun _ _ opened => opened) ?_).bind ?_
  · rintro trouble after ⟨grown, -⟩
    exact .framed (grown.mono fun _ => False.elim)
  rintro _ began opened
  refine ((Run.event_ends _ _ began).mono (fun _ _ holds => holds.1) fun _ after stopped =>
    (Outcome.recorded stopped.1).leaves opened.grown).bind ?_
  rintro _ begun recorded
  have isIdle : begun.pending = [] := recorded.pending.trans (opened.pending.trans idle)
  have sameSystem := recorded.system.trans opened.system
  refine ((runCommand_outcome invocation environment isIdle).mono (fun _ _ done => done) fun _ after failed =>
    sameSystem ▸ (failed.since recorded).leaves opened.grown).bind ?_
  rintro code mid done
  refine ((Run.emit_ends _ mid).mono (fun _ _ holds => holds.1) ?_).bind fun _ last recorded' =>
    .pure (((done.since recorded).on recorded' id id).leaves opened.grown)
  rintro trouble last ⟨recorded', fault, rfl, onEvent⟩
  -- After an update that has succeeded the logs can be read, and only the system refuses the last event.
  have since : Outcome environment.settings invocation.flags began last False
      (session.system.Hinders (.files fault)) := by
    cases done.since recorded with
    | recorded sofar => exact .recorded (sofar.trans recorded')
    | updated asked success moved isOpen =>
      have sameSystem := moved.system.trans opened.system
      exact .hindered asked (.denied (sameSystem ▸ (onEvent _ rfl).2 isOpen))
    | astray asked moved astray =>
      exact .astray asked (moved.trans recorded'.moved) (astray.mono fun _ saw => saw.mono recorded')
    | hindered asked never => exact never.elim
  exact since.leaves opened.grown

theorem runInvocation_leaves (machine : Machine) (invocation : Invocation) (idle : session.pending = []) :
    Ends (runInvocation machine invocation) session
      (fun code after => Grown after.Records session.tree after.tree ∨
        ∃ settings, Settings.load session.tree machine.here machine.processors
          (Path.startingAt machine.here invocation.theme) invocation.overrides = .ok settings ∧
          Leaves settings invocation.flags session.tree after (code = 0) False)
      fun trouble after => Grown after.Records session.tree after.tree ∨
        ∃ settings, Settings.load session.tree machine.here machine.processors
          (Path.startingAt machine.here invocation.theme) invocation.overrides = .ok settings ∧
          Leaves settings invocation.flags session.tree after False (session.system.Hinders trouble) := by
  unfold runInvocation
  dsimp only
  refine Ends.get_bind (Run.ofFiles_bind (fun theme _ => ?_) fun fault _ => .inl (.refl _ _))
  split
  · split
    · next settings loaded =>
      exact (runRecorded_leaves invocation ⟨settings, _⟩ machine.stamp idle).mono
        (fun _ _ left => .inr ⟨settings, loaded, left⟩) fun _ _ left => .inr ⟨settings, loaded, left⟩
    · split
      · exact .throw (.inl (.refl _ _))
      · exact Run.complain_bind fun _ told => .pure (.inl told.recorded.grown)
  · exact Run.complain_bind fun _ told => .pure (.inl told.recorded.grown)

/-- How a run of the program leaves the files. -/
theorem run_leaves {machine : Machine} {words : List String} {tree : FileTree} {ending : Ending} {session : Session}
    (ran : run machine words tree = (ending, session)) :
    Grown session.Records tree session.tree ∨
      ∃ invocation settings, Invocation.read words = .ok invocation ∧
        Settings.load tree machine.here machine.processors
          (Path.startingAt machine.here invocation.theme) invocation.overrides = .ok settings ∧
        Leaves settings invocation.flags tree session (ending = .exit 0)
          (∃ trouble, ending = .broken trouble ∧ machine.system.Hinders trouble) := by
  unfold run at ran
  dsimp only at ran
  split at ran
  · obtain ⟨-, rfl⟩ := Prod.mk.inj ran
    exact .inl (.refl _ _)
  · next invocation read =>
    have ends := @runInvocation_leaves { tree, system := machine.system } machine invocation rfl
    split at ran
    · next code last finished =>
      obtain ⟨rfl, rfl⟩ := Prod.mk.inj ran
      rcases ends.onOk code last finished with framed | ⟨settings, loaded, left⟩
      · exact .inl framed
      · exact .inr ⟨invocation, settings, read, loaded, left.mono (fun success => by rw [success]) False.elim⟩
    · next trouble last finished =>
      obtain ⟨rfl, rfl⟩ := Prod.mk.inj ran
      rcases ends.onError trouble last finished with framed | ⟨settings, loaded, left⟩
      · exact .inl framed
      · exact .inr ⟨invocation, settings, read, loaded, left.mono False.elim fun hinders => ⟨trouble, rfl, hinders⟩⟩

/-- A run without an update leaves every file as it was, unless its recorders write there. -/
theorem run_reports {machine : Machine} {words : List String} {tree : FileTree} {ending : Ending} {session : Session}
    (ran : run machine words tree = (ending, session))
    (silent : ∀ invocation, Invocation.read words = .ok invocation → "update" ∉ invocation.flags)
    {path place : Path} {bytes : ByteArray} (located : tree.locate path = .ok place)
    (held : tree.read path = .ok bytes) (apart : ¬session.Records place) : session.tree.read path = .ok bytes := by
  have frame : Grown session.Records tree session.tree := by
    rcases run_leaves ran with frame | ⟨invocation, settings, read, -, left⟩
    · exact frame
    · cases left with
      | framed frame => exact frame
      | updated asked | astray asked | hindered asked => exact absurd asked (silent invocation read)
  exact frame.read_apart located held apart

/-- A run that keeps a log beside its theme. -/
theorem run_reports_logged :
    ∃ tree session, run ⟨["w"], 1, ⟨"run", "now"⟩, .sound⟩ ["find", "theme", "--audit-log", "log"] tree =
        (.exit 0, session) ∧
      (∀ invocation, Invocation.read ["find", "theme", "--audit-log", "log"] = .ok invocation →
        "update" ∉ invocation.flags) ∧
      ¬session.Records ["w", "theme", "a.hbs"] ∧
      session.tree.read ["w", "theme", "a.hbs"] = .ok (Encoding.encode ("Hi ".toList ++ Template.tagged "x")) ∧
      ∃ bytes, session.tree.read ["w", "log"] = .ok bytes := by
  obtain ⟨tree, isTree⟩ : ∃ tree : FileTree, .directory [("w", .directory [("theme", .directory
      [("a.hbs", .file (Encoding.encode ("Hi ".toList ++ Template.tagged "x")))])])] = tree := ⟨_, rfl⟩
  have before : tree.locate ["w", "theme", "a.hbs"] = .ok ["w", "theme", "a.hbs"] ∧
      tree.read ["w", "theme", "a.hbs"] = .ok (Encoding.encode ("Hi ".toList ++ Template.tagged "x")) := by
    rw [← isTree]
    decide +kernel
  have flags : (Invocation.read ["find", "theme", "--audit-log", "log"]).toOption.map Invocation.flags =
      some [] := by
    decide +kernel
  have after : (run ⟨["w"], 1, ⟨"run", "now"⟩, .sound⟩ ["find", "theme", "--audit-log", "log"] tree).1 = .exit 0 ∧
      (run ⟨["w"], 1, ⟨"run", "now"⟩, .sound⟩ ["find", "theme", "--audit-log", "log"] tree).2.recorders =
        [.log ["w", "log"] ⟨"run", "now"⟩] ∧
      (run ⟨["w"], 1, ⟨"run", "now"⟩, .sound⟩ ["find", "theme", "--audit-log", "log"] tree).2.tree.locate ["w", "log"] =
        .ok ["w", "log"] ∧
      ((run ⟨["w"], 1, ⟨"run", "now"⟩, .sound⟩ ["find", "theme", "--audit-log", "log"] tree).2.tree.read
        ["w", "log"]).toOption.isSome := by
    rw [← isTree]
    decide +kernel
  rcases ran : run ⟨["w"], 1, ⟨"run", "now"⟩, .sound⟩ ["find", "theme", "--audit-log", "log"] tree with ⟨ending, session⟩
  rw [ran] at after
  obtain ⟨rfl, recorders, located, logged⟩ := after
  have silent : ∀ invocation, Invocation.read ["find", "theme", "--audit-log", "log"] = .ok invocation →
      "update" ∉ invocation.flags := by
    intro invocation read
    rw [read] at flags
    rw [Option.some.inj flags]
    exact List.not_mem_nil
  have apart : ¬session.Records ["w", "theme", "a.hbs"] := by
    rintro ⟨recorder, isIn, reaches⟩
    rw [recorders] at isIn
    obtain rfl := List.mem_singleton.mp isIn
    have same := located.symm.trans reaches
    revert same
    decide
  obtain ⟨bytes, isLogged⟩ := Option.isSome_iff_exists.mp logged
  exact ⟨tree, session, ran, silent, apart, run_reports ran silent before.1 before.2 apart, bytes,
    ok_of_toOption isLogged⟩

/-- A run that writes masked templates into the theme itself changes a template. -/
theorem run_reports_into_theme :
    ∃ tree session invocation settings,
      run ⟨["w"], 1, ⟨"run", "now"⟩, .sound⟩ ["find", "theme", "--debug-dir", "theme"] tree = (.exit 0, session) ∧
      Invocation.read ["find", "theme", "--debug-dir", "theme"] = .ok invocation ∧ "update" ∉ invocation.flags ∧
      Settings.load tree ["w"] 1 (Path.startingAt ["w"] invocation.theme) invocation.overrides = .ok settings ∧
      Theme.discover tree settings.root settings.scan = .ok ["a.hbs"] ∧
      ∃ bytes bytes', tree.read (settings.root ++ ["a.hbs"]) = .ok bytes ∧
        session.tree.read (settings.root ++ ["a.hbs"]) = .ok bytes' ∧ bytes ≠ bytes' := by
  obtain ⟨tree, isTree⟩ : ∃ tree : FileTree, .directory [("w", .directory [("theme", .directory
      [("a.hbs", .file (Encoding.encode ("Hi ".toList ++ Template.tagged "x")))])])] = tree := ⟨_, rfl⟩
  have loaded : ((Invocation.read ["find", "theme", "--debug-dir", "theme"]).toOption.bind fun invocation =>
      (Settings.load tree ["w"] 1 (Path.startingAt ["w"] invocation.theme) invocation.overrides).toOption.map
        fun settings => (invocation.flags, settings.root, Theme.discover tree settings.root settings.scan)) =
      some ([], ["w", "theme"], .ok ["a.hbs"]) := by
    rw [← isTree]
    decide +kernel
  obtain ⟨invocation, read, found⟩ := Option.bind_eq_some_iff.mp loaded
  obtain ⟨settings, known, same⟩ := Option.map_eq_some_iff.mp found
  simp only [Prod.mk.injEq] at same
  obtain ⟨flags, root, templates⟩ := same
  have changed : (run ⟨["w"], 1, ⟨"run", "now"⟩, .sound⟩ ["find", "theme", "--debug-dir", "theme"] tree).1 = .exit 0 ∧
      tree.read ["w", "theme", "a.hbs"] = .ok (Encoding.encode ("Hi ".toList ++ Template.tagged "x")) ∧
      (run ⟨["w"], 1, ⟨"run", "now"⟩, .sound⟩ ["find", "theme", "--debug-dir", "theme"] tree).2.tree.read
        ["w", "theme", "a.hbs"] = .ok (Encoding.encode ("Hi ".toList ++
          [Mask.startChar, Mask.fillChar, Mask.fillChar, Mask.fillChar, Mask.endChar])) := by
    rw [← isTree]
    decide +kernel
  rcases ran : run ⟨["w"], 1, ⟨"run", "now"⟩, .sound⟩ ["find", "theme", "--debug-dir", "theme"] tree with
    ⟨ending, session⟩
  rw [ran] at changed
  obtain ⟨rfl, before, after⟩ := changed
  refine ⟨tree, session, invocation, settings, ran, ok_of_toOption read, ?_, ok_of_toOption known, templates, ?_⟩
  · rw [flags]
    exact List.not_mem_nil
  · rw [root]
    exact ⟨_, _, before, after, by decide +kernel⟩

end Phrasebook.Command
