import Phrasebook.Proofs.Command.Endings
import Phrasebook.Proofs.Theme.Rereading

/-!
# Reading a theme again after an update

An update that ends well leaves a theme that can be read again. `Updating.reads_again` says what it comes to: the same
templates are left out, no text is left to be put into a call, and the texts that were have become keys, which every
catalog has.
-/

namespace Phrasebook

open Files Record Theme

/-! ### Steps that ask for writes -/

/-- A session without recorders that has asked for some writes. -/
structure Asked (tree : FileTree) (writes : List Write) (session : Session) : Prop where
  silent : Silent tree session
  pending : session.pending = writes

variable {tree : FileTree} {writes : List Write} {session : Session}

theorem Asked.told {after : Session} (asked : Asked tree writes session) (told : session.Told after) :
    Asked tree writes after := by
  obtain ⟨out, err, rfl⟩ := told
  exact ⟨⟨asked.silent.files, asked.silent.recorders⟩, asked.pending⟩

theorem Run.event_asked (asked : Asked tree writes session) (name : String) (details : List (String × Json)) :
    Ends (Run.event name details) session (fun _ after => Asked tree writes after) fun _ _ => True :=
  ((Run.event_silent asked.silent name details).and (Run.event_ends name details session)).mono
    (fun _ _ holds => ⟨holds.1, holds.2.1.pending.trans asked.pending⟩) fun _ _ _ => trivial

namespace Command

theorem submitInside_asked {root theme : Path} {relative : String} {contents : Except Violation CodePoints}
    (asked : Asked tree writes session)
    (leads : ∀ target, tree.inside theme relative = .ok target → target = root ++ Path.parts relative) :
    Ends (do Run.submit (← Run.ofFiles ((← get).tree.inside theme relative)) contents) session
      (fun _ after => Asked tree (writes ++ [⟨root ++ Path.parts relative, contents⟩]) after) fun _ _ => True := by
  refine .get_bind (Run.ofFiles_bind (fun target within => ?_) fun _ _ => trivial)
  rw [asked.silent.files] at within
  obtain rfl := leads target within
  exact .modify ⟨⟨asked.silent.files, asked.silent.recorders⟩, congrArg (· ++ _) asked.pending⟩

/-- Steps that ask for one write each ask for these writes. -/
theorem askAll_asked {α : Type} {items : List α} {each : α → Run Unit} (write : α → Write)
    (asks : ∀ item writes session, Asked tree writes session →
      Ends (each item) session (fun _ after => Asked tree (writes ++ [write item]) after) fun _ _ => True)
    (asked : Asked tree writes session) :
    Ends (items.forM each) session (fun _ after => Asked tree (writes ++ items.map write) after) fun _ _ => True := by
  induction items generalizing writes session with
  | nil => exact .pure (by rwa [List.map_nil, List.append_nil])
  | cons item rest ih =>
    refine (asks item writes session asked).bind fun _ between asked => ?_
    have later := ih asked
    rwa [List.append_assoc, List.singleton_append] at later

section

variable {root theme : Path} (leads : ∀ relative target, tree.inside theme relative = .ok target →
  target = root ++ Path.parts relative)
include leads

theorem submitTemplates_asked (rendered : List (String × Text)) (asked : Asked tree writes session) :
    Ends (submitTemplates theme rendered) session
      (fun _ after => Asked tree (writes ++ templateWrites root rendered) after) fun _ _ => True := by
  refine askAll_asked _ ?_ asked
  rintro ⟨path, contents⟩ writes session asked
  exact submitInside_asked asked (leads path)

theorem submitCatalogs_asked (directory : String) (catalogs : List Catalog) (asked : Asked tree writes session) :
    Ends (submitCatalogs theme directory catalogs) session
      (fun _ after => Asked tree (writes ++ catalogWrites root directory catalogs) after) fun _ _ => True :=
  askAll_asked _ (fun catalog _ _ asked => submitInside_asked asked (leads (catalogPath directory catalog.locale))) asked

/-- An update that adds keys to all catalogs asks for all of them to be written. -/
theorem updateCatalogs_asked {environment : Environment} (isTheme : environment.settings.root = theme)
    (telling : Telling) {catalogs : Catalogs} (distinct : (Members.names catalogs).Nodup) (keys : List CodePoints)
    (asked : Asked tree writes session) :
    Ends (updateCatalogs environment telling catalogs (catalogs.map fun (locale, _) => (locale, ⟨keys, []⟩))) session
      (fun _ after => Asked tree (writes ++ catalogWrites root environment.settings.directory
        (catalogs.map fun entry => (entry.2.update ⟨keys, []⟩).catalog)) after) fun _ _ => True := by
  have all : updatedCatalogs catalogs (catalogs.map fun (locale, _) => (locale, ⟨keys, []⟩)) =
      catalogs.map fun entry => (entry.2.update ⟨keys, []⟩).catalog := by
    rw [updatedCatalogs, List.filterMap_map, ← List.filterMap_eq_map]
    refine List.filterMap_congr fun entry isEntry => ?_
    simp only [Function.comp_apply, Members.get?_of_mem distinct isEntry, Option.map_some]
  unfold updateCatalogs
  refine Ends.bind ((updateAll_ends environment telling catalogs _ session).mono (fun _ _ holds => holds)
    fun _ _ _ => trivial) ?_
  rintro _ between ⟨told, rfl⟩
  refine (Run.event_asked (asked.told told) _ _).bind fun _ now asked => ?_
  rw [all, isTheme]
  exact submitCatalogs_asked leads _ _ asked

end

/-! ### The update -/

/-- The theme in a tree can be read, and is the given one after an update. -/
def Rereads (settings : Settings) (all : Bool) (theme : Theme) (tree : FileTree) : Prop :=
  ∃ root paths examined catalogs, Parts tree settings root paths examined catalogs ∧
    Updated all theme (ofParts root examined catalogs)

theorem updateTexts_rereads {options : FindOptions} {environment : Environment} {root : Path} {paths : List String}
    {examined : List Examined} {catalogs : Catalogs} (asked : Asked tree [] session)
    (parts : Parts tree environment.settings root paths examined catalogs)
    (updatable : Updatable environment.settings options.specialCharacters tree (ofParts root examined catalogs)) :
    Ends (updateTexts options environment (ofParts root examined catalogs)
        ((ofParts root examined catalogs).findings.texts.translatable options.specialCharacters)) session
      (fun _ after => after.recorders = [] ∧ Rereads environment.settings options.specialCharacters
        (ofParts root examined catalogs) after.tree) fun _ _ => True := by
  unfold updateTexts
  dsimp only
  split
  · exact .throw trivial
  · next rendered done =>
    refine Run.talks_bind (tellChanges_talks _ _ _ _) (fun _ _ _ _ => trivial) fun _ between told => ?_
    have asked := asked.told told
    have isTree := asked.silent.files
    have h := parts.isRendered updatable.regular_root.named done
    obtain ⟨place, names, files, -⟩ := updatable.exists_files parts
    have linkless := updatable.regular_root.linkless
    obtain ⟨keys, isKeys⟩ : ∃ keys, ((ofParts root examined catalogs).findings.texts.translatable
      options.specialCharacters).map Text.points = keys := ⟨_, rfl⟩
    have asks : Ends (do
        submitTemplates root rendered
        updateCatalogs environment ⟨false, options.verbose⟩ catalogs
          (catalogs.map fun (locale, _) => (locale, ⟨keys, []⟩))) between
        (fun _ mid => mid.tree = between.tree ∧
          mid.pending = updateWrites root environment.settings.directory rendered catalogs keys) fun _ _ => True := by
      refine (submitTemplates_asked (fun relative target within => (updatable.inside_eq parts within).1) rendered
        asked).bind fun _ mid asked => ?_
      refine (updateCatalogs_asked (fun relative target within => (linkless.inside_eq parts.resolved within).1) rfl _
        files.locales _ asked).mono (fun _ last asked => ?_) fun _ _ _ => trivial
      exact ⟨asked.silent.files.trans isTree.symm, asked.pending⟩
    have moves : (Session.moving fun _ _ => True).Keeps (do
        submitTemplates root rendered
        updateCatalogs environment ⟨false, options.verbose⟩ catalogs
          (catalogs.map fun (locale, _) => (locale, ⟨keys, []⟩))) :=
      .bind (submitTemplates_moves allowed_all _ _) fun _ => updateCatalogs_moves allowed_all _ _
        fun _ _ _ _ _ _ _ _ => trivial
    have lands : ∀ write ∈ updateWrites root environment.settings.directory rendered catalogs keys,
        write.Lands between.tree := by
      rw [isTree]
      exact updatable.lands parts h
    rw [ofParts_root, isKeys]
    refine (((Run.withWrites_performs lands (updatable.targets_distinct parts h) asks).and
      (Run.withWrites_moves allowed_all moves between)).mono
      (fun _ _ holds => holds) fun _ _ _ => trivial).bind ?_
    rintro written after ⟨performed, moved, -⟩
    have recorders : after.recorders = [] := moved.recorders.trans asked.silent.recorders
    refine ((Run.event_silent ⟨rfl, recorders⟩ _ _).mono (fun _ _ silent => silent) fun _ _ _ => trivial).bind
      fun _ last silent => .pure ⟨silent.recorders, ?_⟩
    rw [silent.files]
    rw [isTree, ← isKeys] at performed
    obtain ⟨examined', catalogs', parts', updated⟩ := updatable.reread parts done performed
    exact ⟨root, paths, examined', catalogs', parts', updated⟩

theorem find_rereads {flags : List String} {environment : Environment} {theme : Theme} (asked : Asked tree [] session)
    (isUpdate : "update" ∈ flags)
    (only : ∀ root paths examined catalogs, Parts tree environment.settings root paths examined catalogs →
      ofParts root examined catalogs = theme)
    (updatable : Updatable environment.settings (flags.contains "special-characters") tree theme) :
    Ends (find flags environment) session (fun code after => code = 0 → after.recorders = [] ∧
      Rereads environment.settings (flags.contains "special-characters") theme after.tree) fun _ _ => True := by
  have updates : (FindOptions.ofFlags flags).update = true := by simpa [FindOptions.ofFlags] using isUpdate
  unfold find
  simp only [updates, Bool.true_and, if_true]
  split
  · exact Run.complain_bind fun _ _ => .pure fun success => (by cases success)
  refine (((read_parts asked.silent environment.settings).and (read_ends environment.settings session)).mono
    (fun _ _ holds => holds) fun _ _ _ => trivial).bind ?_
  rintro _ between ⟨⟨silent, root, paths, examined, catalogs, parts, rfl⟩, read⟩
  obtain rfl := only root paths examined catalogs parts
  have asked : Asked tree [] between := ⟨silent, read.recorded.pending.trans asked.pending⟩
  refine (reportFailures_ends environment _ between _).bind fun _ now told => ?_
  exact (updateTexts_rereads (asked.told told) parts updatable).mono (fun _ _ holds _ => holds) fun _ _ _ => trivial

theorem runRecorded_rereads {invocation : Invocation} {environment : Environment} {theme : Theme} (stamp : Stamp)
    (start : Asked tree [] session) (unrecorded : recordersOf environment.settings stamp = []) (isFind : invocation.command = "find")
    (isUpdate : "update" ∈ invocation.flags)
    (only : ∀ root paths examined catalogs, Parts tree environment.settings root paths examined catalogs →
      ofParts root examined catalogs = theme)
    (updatable : Updatable environment.settings (invocation.flags.contains "special-characters") tree theme) :
    Ends (runRecorded invocation environment stamp) session (fun code after => code = 0 →
      Rereads environment.settings (invocation.flags.contains "special-characters") theme after.tree)
      fun _ _ => True := by
  unfold runRecorded
  dsimp only
  rw [unrecorded]
  have opened : (openRecorders []).run.run session = (.ok (), { session with recorders := [] }) := rfl
  refine .after_run opened ?_
  have start : Asked tree [] { session with recorders := [] } := ⟨⟨start.silent.files, rfl⟩, start.pending⟩
  refine (Run.event_asked start _ _).bind fun _ began asked => ?_
  have commands : Ends (runCommand invocation environment) began (fun code after => code = 0 → after.recorders = [] ∧
      Rereads environment.settings (invocation.flags.contains "special-characters") theme after.tree)
      fun _ _ => True := by
    refine @runCommand_rule began invocation environment _ (fun _ _ => True) _ ?_ ?_ ?_ fun _ _ _ _ => trivial
    · intro after _ success
      cases success
    · intro handler found
      rw [isFind] at found
      obtain rfl := Except.ok.inj found
      exact find_rereads asked isUpdate only updatable
    · rintro trouble message code between after - reported - rfl
      rcases report_code reported with failed | failed <;> cases failed
  refine commands.bind fun code after rereads => ?_
  by_cases success : code = 0
  · obtain ⟨recorders, rereads⟩ := rereads success
    refine ((Run.emit_silent ⟨rfl, recorders⟩ _).mono (fun _ _ silent => silent) fun _ _ _ => trivial).bind
      fun _ last silent => .pure fun _ => ?_
    rwa [silent.files]
  · exact (Ends.any _ _).bind fun _ _ _ => .pure fun success' => absurd success' success

theorem runInvocation_rereads {machine : Machine} {invocation : Invocation} {settings : Settings} {theme : Theme}
    (start : Asked tree [] session) (loaded : Settings.load tree machine.here machine.processors (Path.startingAt machine.here invocation.theme)
      invocation.overrides = .ok settings)
    (unrecorded : recordersOf settings machine.stamp = []) (isFind : invocation.command = "find")
    (isUpdate : "update" ∈ invocation.flags)
    (only : ∀ root paths examined catalogs, Parts tree settings root paths examined catalogs →
      ofParts root examined catalogs = theme)
    (updatable : Updatable settings (invocation.flags.contains "special-characters") tree theme) :
    Ends (runInvocation machine invocation) session (fun code after => code = 0 →
      Rereads settings (invocation.flags.contains "special-characters") theme after.tree) fun _ _ => True := by
  unfold runInvocation
  dsimp only
  refine Ends.get_bind (Run.ofFiles_bind (fun _ _ => ?_) fun _ _ => trivial)
  split
  · rw [start.silent.files, loaded]
    exact runRecorded_rereads machine.stamp start unrecorded isFind isUpdate only updatable
  · exact Run.complain_bind fun _ _ => .pure fun success => (by cases success)

/-- A run that puts the texts of a theme into calls of the helper, records nothing, and ends well. -/
structure Updating where
  machine : Machine
  words : List String
  tree : FileTree
  invocation : Invocation
  settings : Settings
  session : Session
  accepted : Invocation.read words = .ok invocation
  isFind : invocation.command = "find"
  isUpdate : "update" ∈ invocation.flags
  loaded : Settings.load tree machine.here machine.processors (Path.startingAt machine.here invocation.theme)
    invocation.overrides = .ok settings
  unrecorded : recordersOf settings machine.stamp = []
  ran : run machine words tree = (.exit 0, session)

namespace Updating

/-- Texts without a letter are put into calls too. -/
def all (updating : Updating) : Bool := updating.invocation.flags.contains "special-characters"

/-- After an update that ends well the theme can be read again with the same settings. The same templates are left out,
no text is left to be put into a call, the keys are those of before and the texts that were put into calls, and the
catalogs are those of the same locales, each with all of these texts. -/
theorem reads_again (updating : Updating) {theme : Theme} {now : Session}
    (read : (Theme.read updating.settings).run.run { tree := updating.tree } = (.ok theme, now))
    (updatable : Updatable updating.settings updating.all updating.tree theme) :
    ∃ after later, (Theme.read updating.settings).run.run { tree := updating.session.tree } = (.ok after, later) ∧
      Updated updating.all theme after := by
  have silent (tree : FileTree) : Silent tree { tree } := ⟨rfl, rfl⟩
  obtain ⟨-, root, paths, examined, catalogs, parts, rfl⟩ := (read_parts (silent _) _).onOk theme now read
  have ran := updating.ran
  unfold run at ran
  rw [updating.accepted] at ran
  dsimp only at ran
  split at ran
  · next code last finished =>
    obtain ⟨same, rfl⟩ := Prod.mk.inj ran
    have start : Asked updating.tree [] { tree := updating.tree, system := updating.machine.system } := ⟨⟨rfl, rfl⟩, rfl⟩
    have ends := runInvocation_rereads start updating.loaded updating.unrecorded updating.isFind updating.isUpdate
      (fun _ _ _ _ parts' => parts'.unique parts) updatable
    obtain ⟨root', paths', examined', catalogs', parts', updated⟩ :=
      ends.onOk code _ finished (Ending.exit.inj same)
    obtain ⟨_, later, reads, rfl⟩ := (parts'.read (silent _)).exists_run
    exact ⟨_, later, reads, updated⟩
  · cases (Prod.mk.inj ran).1

theorem exists_of_run {machine : Machine} {words : List String} {tree : FileTree} {invocation : Invocation}
    {settings : Settings} (accepted : Invocation.read words = .ok invocation) (isFind : invocation.command = "find")
    (isUpdate : "update" ∈ invocation.flags)
    (loaded : Settings.load tree machine.here machine.processors (Path.startingAt machine.here invocation.theme)
      invocation.overrides = .ok settings)
    (unrecorded : recordersOf settings machine.stamp = []) (ended : (run machine words tree).1 = .exit 0) :
    ∃ updating : Updating, updating.tree = tree ∧ updating.settings = settings ∧ updating.invocation = invocation :=
  ⟨⟨machine, words, tree, invocation, settings, (run machine words tree).2, accepted, isFind, isUpdate, loaded,
    unrecorded, Prod.ext ended rfl⟩, rfl, rfl, rfl⟩

/-- A text with quotes, and a catalog without entries. -/
theorem reads_again_quotes :
    ∃ (updating : Updating) (theme : Theme) (now : Session),
      (Theme.read updating.settings).run.run { tree := updating.tree } = (.ok theme, now) ∧
      (theme.templates.map fun template => (template.source, template.text)) =
        [("a.hbs", "<p>Say \"hi\"</p>".toList)] ∧
      Members.names theme.catalogs = ["en"] ∧ Updatable updating.settings updating.all updating.tree theme ∧
      ∃ after later, (Theme.read updating.settings).run.run { tree := updating.session.tree } = (.ok after, later) ∧
        Updated updating.all theme after := by
  obtain ⟨text, isText⟩ : ∃ text : Text, "<p>Say \"hi\"</p>".toList = text := ⟨_, rfl⟩
  obtain ⟨tree, isTree⟩ : ∃ tree : FileTree, .directory [("w", .directory [("theme", .directory
      [("a.hbs", .file (Encoding.encode text)),
        ("locales", .directory [("en.json", .file (Encoding.encode "\x7b\x7d".toList))])])])] = tree := ⟨_, rfl⟩
  obtain ⟨machine, isMachine⟩ : ∃ machine : Machine, ⟨["w"], 1, ⟨"run", "now"⟩, .sound⟩ = machine := ⟨_, rfl⟩
  have checked : ((Invocation.read ["find", "theme", "--update", "--workers", "1"]).toOption.bind fun invocation =>
      (Settings.load tree machine.here machine.processors (Path.startingAt machine.here invocation.theme)
        invocation.overrides).toOption.map fun settings =>
          (invocation.command, invocation.flags, (recordersOf settings machine.stamp).isEmpty, settings.helper,
            settings.scan.accepts (Path.parts (catalogPath settings.directory "en")))) =
      some ("find", ["update"], true, ['t'], false) := by
    rw [← isTree, ← isMachine, ← isText]
    decide +kernel
  have reads : ((Invocation.read ["find", "theme", "--update", "--workers", "1"]).toOption.bind fun invocation =>
      (Settings.load tree machine.here machine.processors (Path.startingAt machine.here invocation.theme)
        invocation.overrides).toOption.bind fun settings =>
          ((Theme.read settings).run.run { tree }).1.toOption.map fun theme =>
            (theme.root, theme.templates.map (fun template => (template.source, template.text)),
              theme.catalogs.map fun entry => (entry.1, entry.2.entries.isEmpty))) =
      some (["w", "theme"], [("a.hbs", text)], [("en", true)]) := by
    rw [← isTree, ← isMachine, ← isText]
    decide +kernel
  have texts : ((Template.load "a.hbs" text).toOption.bind fun template =>
      (Extract.analyseTemplate template ['t'] Extract.defaultAims).result.toOption.map fun found =>
        Members.names found.1.texts) = some ["Say \"hi\"".toList] := by
    rw [← isText]
    decide +kernel
  have plain : tree.isNamed = true ∧ tree.isPlain = true ∧ (tree.find ["w", "theme"]).toOption.isSome = true := by
    rw [← isTree, ← isText]
    decide +kernel
  have ended : (run machine ["find", "theme", "--update", "--workers", "1"] tree).1 = .exit 0 := by
    rw [← isTree, ← isMachine, ← isText]
    decide +kernel
  obtain ⟨invocation, accepted, checked⟩ := Option.bind_eq_some_iff.mp checked
  obtain ⟨settings, loaded, checked⟩ := Option.map_eq_some_iff.mp checked
  simp only [Prod.mk.injEq] at checked
  obtain ⟨isFind, flags, unrecorded, helper, apart⟩ := checked
  rw [accepted, Option.bind_some, loaded, Option.bind_some] at reads
  obtain ⟨theme, read, reads⟩ := Option.map_eq_some_iff.mp reads
  simp only [Prod.mk.injEq] at reads
  obtain ⟨root, templates, catalogs⟩ := reads
  have names : Members.names theme.catalogs = ["en"] := by
    have firsts := congrArg (List.map Prod.fst) catalogs
    rwa [List.map_map] at firsts
  obtain ⟨updating, rfl, rfl, rfl⟩ := exists_of_run (ok_of_toOption accepted) isFind (by simp [flags])
    (ok_of_toOption loaded) (List.isEmpty_iff.mp unrecorded) ended
  have all : updating.all = false := by simp [Updating.all, flags]
  have updatable : Updatable updating.settings updating.all updating.tree theme := by
    rw [all]
    constructor
    · obtain ⟨found, stands⟩ := Option.isSome_iff_exists.mp plain.2.2
      rw [root]
      exact .of_isPlain plain.1 plain.2.1 (ok_of_toOption stands)
    · rw [helper]
      decide
    · rw [helper]
      exact List.forall_mem_singleton.mpr (by decide)
    · intro template isTemplate findings analysed _
      have isPair := List.mem_map_of_mem (f := fun template : Template => (template.source, template.text)) isTemplate
      rw [templates] at isPair
      obtain ⟨source, content⟩ := Prod.mk.inj (List.mem_singleton.mp isPair)
      obtain ⟨loaded, visits, done⟩ := analysed
      rw [source, content] at loaded
      rw [helper] at done
      rw [loaded, Except.toOption, Option.bind_some, done, Except.toOption, Option.map_some, Option.some.injEq] at texts
      refine .of_texts ?_ ?_ ?_
      · rw [content, ← isText]
        decide +kernel
      · rw [content, ← isText]
        decide +kernel
      · have ordinary : ("Say \"hi\"".toList.all fun c => !Mask.isReserved c) = true := by decide +kernel
        rw [texts, List.forall_mem_singleton]
        exact ⟨by decide +kernel, by decide +kernel, by simpa only [List.all_eq_true, Bool.not_eq_true'] using ordinary⟩
    · rw [names]
      decide
    · intro entry isEntry
      have isPair := List.mem_map_of_mem (f := fun entry : String × Catalog => (entry.1, entry.2.entries.isEmpty)) isEntry
      rw [catalogs] at isPair
      rw [List.isEmpty_iff.mp (Prod.mk.inj (List.mem_singleton.mp isPair)).2]
      trivial
    · intro locale isLocale
      rw [names] at isLocale
      rw [List.mem_singleton.mp isLocale]
      exact apart
  rcases ran : (Theme.read updating.settings).run.run { tree := updating.tree } with ⟨result, now⟩
  rw [ran] at read
  obtain rfl := ok_of_toOption read
  exact ⟨updating, theme, now, ran, isText ▸ templates, names, updatable, updating.reads_again ran updatable⟩

end Updating

end Command

end Phrasebook
