import Phrasebook.Proofs.Extract.Halting
import Phrasebook.Proofs.Session.Logging
import Phrasebook.Proofs.Theme.Reading

/-!
# What a log shows of a theme

`survey` reads a theme as `read` does and gives what a log may show of it: which templates there are, how each
of them stands, and the locales. `read_survey` says that a log shows nothing else.
-/

namespace Phrasebook

open Files Record

/-- What a log may show of a template: the number of its lines if it was analysed, or why it was left out. -/
inductive Standing where
  | analysed (lines : Nat)
  | failed (reason : String)
deriving DecidableEq, Repr

namespace Standing

/-- Whether a template was analysed. -/
def isAnalysed : Standing → Bool
  | .analysed _ => true
  | .failed _ => false

/-- The events for a template that stands in this way. -/
def events (path : String) : Standing → List Event
  | .analysed lines =>
    [{ name := "masked_source", path := some path, details := some [("lines".toList, .json (.int lines))] },
      { name := "template_analyzed", path := some path }]
  | .failed reason =>
    [{ name := "template_failed", path := some path, ok := false,
       details := some [("reason".toList, .json (.text reason))] }]

end Standing

namespace Theme

open Extract

/-! ### One template -/

/-- How a template with the given text stands, or the trouble with it. -/
def standingOf (path : String) (contents helper : Text) : Except Trouble Standing :=
  match Template.load path contents with
  | .error (.malformed _) => .ok (.failed "syntax")
  | .error (.longInteger digits) => .error (.longInteger digits)
  | .ok template =>
    match (analyseTemplate template helper defaultAims).result with
    | .ok _ => .ok (.analysed contents.lines.length)
    | .error (.reserved _) => .ok (.failed "reserved")
    | .error fault => .error (.analysis fault)

/-- How the template at a path of a theme stands, or the trouble with it. -/
def standing (tree : FileTree) (root : Path) (helper : Text) (path : String) : Except Trouble Standing :=
  match tree.inside root path >>= tree.read with
  | .error (.refused _ _) => .ok (.failed "unreadable")
  | .error fault => .error (.files fault)
  | .ok bytes =>
    match Encoding.decode? bytes with
    | none => .ok (.failed "encoding")
    | some contents => standingOf path contents helper

/-- An examination shows how a template stands and nothing else. -/
structure Shows (examination : Examination) (path : String) (examined : Examined) (found : Standing) : Prop where
  events : examination.signals.map Signal.logged = found.events path
  analysed : examined.analysed?.isSome = found.isAnalysed

theorem leaveOut_shows (reason : String) (failure : Failure) :
    Shows (leaveOut reason failure) failure.path (.failed failure) (.failed reason) := ⟨rfl, rfl⟩

theorem examineText_standing {path : String} {contents helper : Text} {examined : Examined}
    (done : (examineText path contents helper).result = .ok examined) :
    ∃ found, standingOf path contents helper = .ok found ∧
      Shows (examineText path contents helper) path examined found := by
  unfold examineText at done ⊢
  unfold standingOf
  split at done
  · next template loaded =>
    obtain ⟨isSource, -⟩ := load_eq loaded
    rw [loaded]
    unfold analyse at done ⊢
    dsimp only at done ⊢
    split at done
    · next found visits ended =>
      obtain rfl := Except.ok.inj done
      obtain ⟨buffer, masked, lines⟩ := analyseTemplate_lines loaded ended
      rw [ended, masked]
      refine ⟨_, rfl, ?_, rfl⟩
      simp [Signal.logged, Standing.events, lines, isSource]
    · next reserved failed =>
      obtain rfl := Except.ok.inj done
      rw [failed, analyseTemplate_reserved loaded failed]
      refine ⟨_, rfl, ?_, rfl⟩
      simp [leaveOut, Signal.logged, Standing.events, isSource]
    · cases done
  · next fault malformed =>
    obtain rfl := Except.ok.inj done
    rw [malformed]
    exact ⟨_, rfl, leaveOut_shows _ _⟩
  · cases done

theorem examine_standing {tree : FileTree} {root : Path} {helper : Text} {path : String} {examined : Examined}
    (done : (examine tree root helper path).result = .ok examined) :
    ∃ found, standing tree root helper path = .ok found ∧
      Shows (examine tree root helper path) path examined found := by
  unfold examine at done ⊢
  unfold standing
  -- Both definitions ask for the same file, so that its bytes are taken out of both at once.
  generalize tree.inside root path >>= tree.read = found at done ⊢
  cases found with
  | error fault =>
    cases fault with
    | refused refusal written =>
      obtain rfl := Except.ok.inj done
      exact ⟨_, rfl, leaveOut_shows _ _⟩
    | _ => cases done
  | ok bytes =>
    dsimp only at done ⊢
    cases decoded : Encoding.decode? bytes with
    | none =>
      rw [decoded] at done
      obtain rfl := Except.ok.inj done
      exact ⟨_, rfl, leaveOut_shows _ _⟩
    | some contents =>
      rw [decoded] at done
      exact examineText_standing done

/-! ### Whole themes -/

/-- What a log may show of a theme: how its templates stand, and its locales. -/
structure View where
  templates : List (String × Standing)
  locales : List String
deriving DecidableEq, Repr

/-- The events for reading a theme that looks like this. -/
def View.events (view : View) : List Event :=
  .plain "discovered" [("templates", count view.templates.length)] ::
    (view.templates.flatMap fun (path, found) => found.events path) ++
    [.plain "theme_read" [("templates", count (view.templates.countP fun (_, found) => found.isAnalysed)),
      ("failures", count (view.templates.countP fun (_, found) => !found.isAnalysed)),
      ("locales", count view.locales.length)]]

/-- Examines a template, and tells how it stands in the files as they are then. -/
def look (root : Path) (helper : Text) (path : String) : Run (String × Standing) := do
  let found ← Run.ofResult (standing (← get).tree root helper path)
  let _ ← Run.attempt (examineRun root helper path)
  return (path, found)

/-- Does what reading a theme does, and tells what the theme looks like meanwhile. -/
def survey (settings : Settings) : Run View := do
  let root ← Run.ofFiles ((← get).tree.resolve settings.root)
  let paths ← Run.ofFiles (discover (← get).tree root settings.scan)
  Run.event "discovered" [("templates", count paths.length)]
  let templates ← paths.mapM (look root settings.helper)
  let catalogs ← Run.ofResult (readCatalogs (← get).tree root settings.directory)
  return ⟨templates, Members.names catalogs⟩

variable {log : Path} {stamp : Stamp} {held : ByteArray} {session : Session}

theorem examineRun_logs (logs : session.Logs log stamp held) (root : Path) (helper : Text) (path : String) :
    Ends (examineRun root helper path) session
      (fun examined after => after.Logs log stamp held ∧
        (examine session.tree root helper path).result = .ok examined ∧
        after.events = session.events ++ (examine session.tree root helper path).signals.map Signal.logged)
      fun _ _ => True := by
  refine .get_bind ((Run.emits_logs logs _).bind ?_)
  rintro _ after ⟨logs', events⟩
  cases result : (examine session.tree root helper path).result with
  | ok examined => exact .pure ⟨logs', rfl, events⟩
  | error trouble => exact .throw trivial

/-- An examination that ends well is a look at a template, and the log shows how the template stands. -/
theorem look_run (logs : session.Logs log stamp held) {root : Path} {helper : Text} {path : String}
    {examined : Examined} {after : Session}
    (ran : (Run.attempt (examineRun root helper path)).run.run session = (.ok (.ok examined), after)) :
    ∃ found, (look root helper path).run.run session = (.ok (path, found), after) ∧ after.Logs log stamp held ∧
      after.events = session.events ++ found.events path ∧ examined.analysed?.isSome = found.isAnalysed := by
  have attempted : Ends (Run.attempt (examineRun root helper path)) session
      (fun result after => (examineRun root helper path).run.run session = (result, after)) fun _ _ => True :=
    Run.attempt_ends ⟨fun _ _ ran => ran, fun _ _ ran => ran⟩
  have ran' := attempted.onOk _ _ ran
  obtain ⟨logs', done, events⟩ := (examineRun_logs logs root helper path).onOk examined after ran'
  obtain ⟨found, stands, shows⟩ := examine_standing done
  refine ⟨found, ?_, logs', shows.events ▸ events, shows.analysed⟩
  rw [look, run_get_bind, run_bind_ok (Run.ofResult_run stands session), run_bind_ok ran]
  rfl

/-- Examinations that all end well are looks at the templates, and the log shows how they stand. -/
theorem examineAll_looks (logs : session.Logs log stamp held) (root : Path) (helper : Text) (paths : List String) :
    Ends (paths.mapM fun path => Run.attempt (examineRun root helper path)) session
      (fun results after => ∀ examined : List Examined, results = examined.map Except.ok → ∃ templates,
        (paths.mapM (look root helper)).run.run session = (.ok templates, after) ∧ after.Logs log stamp held ∧
          after.events = session.events ++ (templates.flatMap fun (path, found) => found.events path) ∧
          Members.names templates = paths ∧
          (examined.map fun found => found.analysed?.isSome) = templates.map fun (_, found) => found.isAnalysed)
      fun _ _ => True := by
  induction paths generalizing session with
  | nil =>
    refine .pure fun examined noneLeft => ?_
    obtain rfl := List.map_eq_nil_iff.mp noneLeft.symm
    exact ⟨[], rfl, logs, (List.append_nil _).symm, rfl, rfl⟩
  | cons path rest ih =>
    rw [List.mapM_cons]
    refine (Ends.any _ _).ran.bind ?_
    rintro (trouble | examined) between ⟨ran, -⟩
    · -- An examination in trouble is not among those that end well.
      exact (Ends.any _ _).bind fun _ _ _ => .pure fun examined same => by cases examined <;> cases same
    · obtain ⟨found, looked, logs', events, isAnalysed⟩ := look_run logs ran
      refine (ih logs').bind fun results after later => .pure fun all same => ?_
      obtain ⟨first, others, rfl, here, behind⟩ := List.map_eq_cons_iff.mp same.symm
      obtain rfl := Except.ok.inj here
      obtain ⟨templates, looks, logs'', events', rfl, areAnalysed⟩ := later others behind.symm
      refine ⟨(path, found) :: templates, ?_, logs'', ?_, rfl, ?_⟩
      · rw [List.mapM_cons]
        exact (run_bind_ok looked _).trans (run_bind_ok looks _)
      · rw [events', events, List.append_assoc]
        rfl
      · rw [List.map_cons, List.map_cons, isAnalysed, areAnalysed]

theorem foldl_add_counts {examined : List Examined} {templates : List (String × Standing)}
    (same : (examined.map fun found => found.analysed?.isSome) = templates.map fun (_, found) => found.isAnalysed)
    (root : Path) :
    (examined.foldl add ⟨root, [], [], .empty, []⟩).templates.length =
        templates.countP (fun (_, found) => found.isAnalysed) ∧
      (examined.foldl add ⟨root, [], [], .empty, []⟩).failures.length =
        templates.countP fun (_, found) => !found.isAnalysed := by
  have isFailed (found : Examined) : found.failed?.isSome = !found.analysed?.isSome := by cases found <;> rfl
  have counted (p : Bool → Bool) : (examined.countP fun found => p found.analysed?.isSome) =
      templates.countP fun (_, found) => p found.isAnalysed := by
    simpa only [List.countP_map, Function.comp_def] using congrArg (List.countP p) same
  obtain ⟨-, analysed, -⟩ := foldl_add examined ⟨root, [], [], .empty, []⟩
  rw [analysed, foldl_add_failures, List.nil_append, List.nil_append, List.length_map,
    List.length_filterMap_eq_countP, List.length_filterMap_eq_countP]
  refine ⟨counted id, ?_⟩
  simp only [isFailed]
  exact counted not

/-- A theme that is read with a log looks in some way, and the log shows this and nothing else. -/
theorem read_survey (logs : session.Logs log stamp held) (settings : Settings) :
    Ends (read settings) session
      (fun _ after => after.Logs log stamp held ∧ ∃ view now,
        (survey settings).run.run session = (.ok view, now) ∧ after.events = session.events ++ view.events)
      fun _ _ => True := by
  unfold read survey
  refine .get_bind (Run.ofFiles_bind (fun root resolved => ?_) fun _ _ => trivial)
  refine .get_bind (Run.ofFiles_bind (fun paths discovered => ?_) fun _ _ => trivial)
  refine (Run.event_logs logs _ _).ran.bind ?_
  rintro _ began ⟨told, logs', -, events⟩
  refine (examineAll_looks logs' root settings.helper paths).bind ?_
  rintro results reached looks
  refine ((Run.ofResults_ends results reached).mono (fun _ _ holds => holds) fun _ _ _ => trivial).bind ?_
  rintro examined now ⟨rfl, same⟩
  obtain ⟨templates, looked, logs'', events', rfl, areAnalysed⟩ := looks examined same
  refine .get_bind (Run.ofResult_bind (fun catalogs known => ?_) fun _ _ => trivial)
  refine (Run.event_logs logs'' _ _).bind ?_
  rintro _ after ⟨logs3, -, events3⟩
  refine .pure ⟨logs3, ⟨templates, Members.names catalogs⟩, now, ?_, ?_⟩
  · rw [run_get_bind, run_bind_ok (Run.ofFiles_run resolved session), run_get_bind,
      run_bind_ok (Run.ofFiles_run discovered session), run_bind_ok told, run_bind_ok looked, run_get_bind,
      run_bind_ok (Run.ofResult_run known now)]
    rfl
  · obtain ⟨analysed, failed⟩ := foldl_add_counts areAnalysed root
    rw [events3, events', events, analysed, failed, View.events, Members.names, Members.names, List.length_map,
      List.length_map, List.append_assoc, List.append_assoc]
    rfl

end Theme

end Phrasebook
