import Phrasebook.Proofs.Edit.Alone
import Phrasebook.Proofs.Theme.Discovery
import Phrasebook.Proofs.Theme.Reading

/-!
# Templates do not influence each other

Where nothing is recorded, a theme is made of what its templates come to one by one, in the order of their
paths: `read_separately` says so of the templates and failures, of the texts and keys found, and of the new
text of every template.
-/

namespace Phrasebook

open Files Record

/-! ### Steps that record nothing -/

/-- A session with the given files and without recorders. -/
structure Silent (tree : FileTree) (session : Session) : Prop where
  files : session.tree = tree
  recorders : session.recorders = []

theorem Run.emit_silent {tree : FileTree} {session : Session} (silent : Silent tree session) (signal : Signal) :
    Ends (Run.emit signal) session (fun _ after => Silent tree after) fun _ _ => False := by
  refine .modify_bind (.get_bind ?_)
  dsimp only
  rw [silent.recorders]
  exact .pure ⟨silent.files, rfl⟩

theorem Run.event_silent {tree : FileTree} {session : Session} (silent : Silent tree session) (name : String)
    (details : List (String × Json)) :
    Ends (Run.event name details) session (fun _ after => Silent tree after) fun _ _ => False :=
  Run.emit_silent silent _

namespace Theme

open Extract

/-! ### One template -/

/-- The path of a template. -/
def Examined.path : Examined → String
  | .analysed template _ => template.source
  | .failed failure => failure.path

theorem examineText_failed {path : String} {contents helper : Text} {failure : Failure}
    (examined : (examineText path contents helper).result = .ok (.failed failure)) : failure.path = path := by
  unfold examineText at examined
  split at examined
  · next template loaded =>
    unfold analyse at examined
    dsimp only at examined
    split at examined
    · cases examined
    · next reserved _ =>
      obtain rfl := Examined.failed.inj (Except.ok.inj examined)
      exact (load_eq loaded).1
    · cases examined
  · obtain rfl := Examined.failed.inj (Except.ok.inj examined)
    rfl
  · cases examined

theorem examine_path {tree : FileTree} {root : Path} {helper : Text} {path : String} {examined : Examined}
    (done : (examine tree root helper path).result = .ok examined) : examined.path = path := by
  cases examined with
  | analysed template findings => exact (examine_analysed done).1
  | failed failure =>
    unfold examine at done
    split at done
    · obtain rfl := Examined.failed.inj (Except.ok.inj done)
      rfl
    · cases done
    · split at done
      · obtain rfl := Examined.failed.inj (Except.ok.inj done)
        rfl
      · exact examineText_failed done

theorem examineRun_silent {tree : FileTree} {session : Session} (silent : Silent tree session) (root : Path)
    (helper : Text) (path : String) : Ends (examineRun root helper path) session
      (fun examined after => Silent tree after ∧ (examine tree root helper path).result = .ok examined)
      fun trouble after => Silent tree after ∧ (examine tree root helper path).result = .error trouble := by
  refine .get_bind ?_
  rw [silent.files]
  refine ((Ends.forM (Silent tree) silent fun signal _ _ holds => Run.emit_silent holds signal).mono
    (fun _ _ holds => holds) fun _ _ => False.elim).bind fun _ after holds => ?_
  cases result : (examine tree root helper path).result with
  | ok examined => exact .pure ⟨holds, rfl⟩
  | error trouble => exact .throw ⟨holds, rfl⟩

/-! ### All templates -/

theorem analysed_sublist (examined : List Examined) :
    ((examined.filterMap Examined.analysed?).map fun pair => pair.1.source).Sublist (examined.map Examined.path) := by
  induction examined with
  | nil => exact .slnil
  | cons first rest ih =>
    cases first with
    | analysed template findings => exact ih.cons_cons template.source
    | failed failure => exact ih.cons failure.path

theorem failed_sublist (examined : List Examined) :
    ((examined.filterMap Examined.failed?).map Failure.path).Sublist (examined.map Examined.path) := by
  induction examined with
  | nil => exact .slnil
  | cons first rest ih =>
    cases first with
    | analysed template findings => exact ih.cons template.source
    | failed failure => exact ih.cons_cons failure.path

/-- The theme that is made of the given parts. -/
def ofParts (root : Path) (examined : List Examined) (catalogs : Catalogs) : Theme :=
  { examined.foldl add ⟨root, [], [], .empty, []⟩ with catalogs }

section Parts

variable (root : Path) (examined : List Examined) (catalogs : Catalogs)

theorem ofParts_root : (ofParts root examined catalogs).root = root := (foldl_add examined _).1

theorem ofParts_templates :
    (ofParts root examined catalogs).templates = (examined.filterMap Examined.analysed?).map Prod.fst :=
  (foldl_add examined _).2.1

theorem ofParts_findings :
    (ofParts root examined catalogs).findings = mergeAll ((examined.filterMap Examined.analysed?).map Prod.snd) :=
  (foldl_add examined _).2.2

theorem ofParts_failures :
    (ofParts root examined catalogs).failures = examined.filterMap Examined.failed? := foldl_add_failures examined _

end Parts

/-- A theme that is made of what its templates come to, each examined by itself. -/
structure Assembled (tree : FileTree) (helper : Text) (paths : List String) (analysed : List (Template × Findings))
    (theme : Theme) : Prop where
  templates : theme.templates = analysed.map Prod.fst
  findings : theme.findings = mergeAll (analysed.map Prod.snd)
  examined : ∀ pair ∈ analysed,
    (examine tree theme.root helper pair.1.source).result = .ok (.analysed pair.1 pair.2)
  failed : ∀ failure ∈ theme.failures,
    (examine tree theme.root helper failure.path).result = .ok (.failed failure)
  once : ∀ path ∈ paths, Xor (path ∈ theme.templates.map Template.source) (path ∈ theme.failures.map Failure.path)
  templatesOrder : (theme.templates.map Template.source).Sublist paths
  failuresOrder : (theme.failures.map Failure.path).Sublist paths

variable {tree : FileTree} {root : Path} {helper : Text} {paths : List String} {examined : List Examined}

/-- The templates at the paths come to what is given. -/
def ExaminedAll (tree : FileTree) (root : Path) (helper : Text) (paths : List String) (examined : List Examined) :
    Prop :=
  (paths.map fun path => (examine tree root helper path).result) = examined.map .ok

theorem ExaminedAll.results (each : ExaminedAll tree root helper paths examined) :
    examined.map Examined.path = paths ∧
      ∀ found ∈ examined, (examine tree root helper found.path).result = .ok found := by
  unfold ExaminedAll at each
  induction examined generalizing paths with
  | nil => exact ⟨(List.map_eq_nil_iff.mp each).symm, List.forall_mem_nil _⟩
  | cons found rest ih =>
    obtain ⟨path, later, rfl, here, following⟩ := List.map_eq_cons_iff.mp each
    obtain rfl := examine_path here
    obtain ⟨isPaths, results⟩ := ih following
    exact ⟨congrArg _ isPaths, List.forall_mem_cons.mpr ⟨here, results⟩⟩

theorem ExaminedAll.of_isSome (each : ∀ path ∈ paths, (examine tree root helper path).result.toOption.isSome = true) :
    ExaminedAll tree root helper paths
      (paths.filterMap fun path => (examine tree root helper path).result.toOption) := by
  unfold ExaminedAll
  induction paths with
  | nil => rfl
  | cons path rest ih =>
    obtain ⟨found, here⟩ := Option.isSome_iff_exists.mp (each path List.mem_cons_self)
    rw [List.map_cons, List.filterMap_cons_some (f := fun path => (examine tree root helper path).result.toOption) here,
      List.map_cons, ok_of_toOption here, ih fun other isIn => each other (List.mem_cons_of_mem path isIn)]

theorem mem_analysed {pair : Template × Findings} :
    pair ∈ examined.filterMap Examined.analysed? ↔ .analysed pair.1 pair.2 ∈ examined := by
  rw [List.mem_filterMap]
  constructor
  · rintro ⟨found, isIn, isPair⟩
    cases found with
    | analysed template findings => exact Option.some.inj isPair ▸ isIn
    | failed failure => cases isPair
  · exact fun isIn => ⟨_, isIn, rfl⟩

theorem mem_failed {failure : Failure} :
    failure ∈ examined.filterMap Examined.failed? ↔ .failed failure ∈ examined := by
  rw [List.mem_filterMap]
  constructor
  · rintro ⟨found, isIn, isFailure⟩
    cases found with
    | analysed template findings => cases isFailure
    | failed failure => exact Option.some.inj isFailure ▸ isIn
  · exact fun isIn => ⟨_, isIn, rfl⟩

/-- A path has one result. -/
theorem ExaminedAll.unique (each : ExaminedAll tree root helper paths examined) {found other : Examined}
    (isIn : found ∈ examined) (isIn' : other ∈ examined) (same : found.path = other.path) : found = other := by
  have here := each.results.2 found isIn
  rw [same, each.results.2 other isIn'] at here
  exact (Except.ok.inj here).symm

theorem ExaminedAll.mem_sources (each : ExaminedAll tree root helper paths examined) {found : Examined}
    (isIn : found ∈ examined) :
    found.path ∈ ((examined.filterMap Examined.analysed?).map Prod.fst).map Template.source ↔
      ∃ template findings, found = .analysed template findings := by
  rw [List.map_map, List.mem_map]
  constructor
  · rintro ⟨pair, isPair, same⟩
    exact ⟨pair.1, pair.2, each.unique isIn (mem_analysed.mp isPair) same.symm⟩
  · rintro ⟨template, findings, rfl⟩
    exact ⟨(template, findings), mem_analysed.mpr isIn, rfl⟩

theorem ExaminedAll.mem_failures (each : ExaminedAll tree root helper paths examined) {found : Examined}
    (isIn : found ∈ examined) :
    found.path ∈ (examined.filterMap Examined.failed?).map Failure.path ↔ ∃ failure, found = .failed failure := by
  rw [List.mem_map]
  constructor
  · rintro ⟨failure, isFailure, same⟩
    exact ⟨failure, each.unique isIn (mem_failed.mp isFailure) same.symm⟩
  · rintro ⟨failure, rfl⟩
    exact ⟨failure, mem_failed.mpr isIn, rfl⟩

theorem ExaminedAll.assembled (each : ExaminedAll tree root helper paths examined) (catalogs : Catalogs) :
    Assembled tree helper paths (examined.filterMap Examined.analysed?) (ofParts root examined catalogs) := by
  obtain ⟨isPaths, results⟩ := each.results
  constructor
  · exact ofParts_templates root examined catalogs
  · exact ofParts_findings root examined catalogs
  · intro pair isPair
    rw [ofParts_root]
    exact results (.analysed pair.1 pair.2) (mem_analysed.mp isPair)
  · intro failure isFailure
    rw [ofParts_failures] at isFailure
    rw [ofParts_root]
    exact results (.failed failure) (mem_failed.mp isFailure)
  · intro path isPath
    obtain ⟨found, isIn, rfl⟩ := List.mem_map.mp (isPaths ▸ isPath)
    rw [ofParts_templates, ofParts_failures, each.mem_sources isIn, each.mem_failures isIn]
    cases found with
    | analysed template findings => exact .inl ⟨⟨_, _, rfl⟩, nofun⟩
    | failed failure => exact .inr ⟨⟨_, rfl⟩, nofun⟩
  · rw [ofParts_templates, List.map_map, ← isPaths]
    exact analysed_sublist examined
  · rw [ofParts_failures, ← isPaths]
    exact failed_sublist examined

/-! ### Whole themes -/

theorem examineAll_silent {session : Session} (silent : Silent tree session) (root : Path) (helper : Text)
    (paths : List String) (stop : Trouble → Session → Prop) :
    Ends (paths.mapM fun path => Run.attempt (examineRun root helper path)) session
      (fun results after => Silent tree after ∧
        results = paths.map fun path => (examine tree root helper path).result) stop := by
  refine (Ends.mapM (Silent tree) (fun _ path result => (examine tree root helper path).result = result) silent
    fun path _ before holds => ?_).mono (fun results _ holds => ⟨holds.1, ?_⟩) fun _ _ stopped => stopped
  · exact Run.attempt_ends ((examineRun_silent holds root helper path).mono
      (fun _ _ holds => ⟨holds.1, holds.2, fun _ _ known => known⟩)
      fun _ _ holds => ⟨holds.1, holds.2, fun _ _ known => known⟩)
  · have each := List.forall₂_map_left_iff.mpr holds.2.1
    rw [List.forall₂_eq_eq_eq] at each
    exact each.symm

/-- What a theme is made of. -/
structure Parts (tree : FileTree) (settings : Settings) (root : Path) (paths : List String) (examined : List Examined)
    (catalogs : Catalogs) : Prop where
  resolved : tree.resolve settings.root = .ok root
  discovered : discover tree root settings.scan = .ok paths
  each : ExaminedAll tree root settings.helper paths examined
  known : readCatalogs tree root settings.directory = .ok catalogs

/-- Where nothing is recorded, a theme is made of its parts. -/
theorem read_parts {session : Session} (silent : Silent tree session) (settings : Settings) :
    Ends (read settings) session
      (fun theme after => Silent tree after ∧ ∃ root paths examined catalogs,
        Parts tree settings root paths examined catalogs ∧ theme = ofParts root examined catalogs)
      fun _ _ => True := by
  unfold read
  refine .get_bind (Run.ofFiles_bind (fun root resolved => ?_) fun _ _ => trivial)
  refine .get_bind (Run.ofFiles_bind (fun paths discovered => ?_) fun _ _ => trivial)
  rw [silent.files] at resolved discovered
  refine ((Run.event_silent silent _ _).mono (fun _ _ holds => holds) fun _ _ _ => trivial).bind ?_
  rintro _ began silent
  refine (examineAll_silent silent root settings.helper paths _).bind ?_
  rintro results now ⟨silent, isResults⟩
  refine ((Run.ofResults_ends results now).mono (fun _ _ holds => holds) fun _ _ _ => trivial).bind ?_
  rintro examined _ ⟨rfl, same⟩
  refine .get_bind (Run.ofResult_bind (fun catalogs known => ?_) fun _ _ => trivial)
  rw [silent.files] at known
  refine ((Run.event_silent silent _ _).mono (fun _ _ holds => holds) fun _ _ _ => trivial).bind fun _ _ silent => ?_
  exact .pure ⟨silent, root, paths, examined, catalogs, ⟨resolved, discovered, isResults.symm.trans same, known⟩, rfl⟩

/-- A theme has its parts only once. -/
theorem Parts.unique {settings : Settings} {root' : Path} {paths' : List String} {examined' : List Examined}
    {catalogs catalogs' : Catalogs} (parts : Parts tree settings root paths examined catalogs)
    (parts' : Parts tree settings root' paths' examined' catalogs') :
    ofParts root examined catalogs = ofParts root' examined' catalogs' := by
  obtain rfl := Except.ok.inj (parts.resolved.symm.trans parts'.resolved)
  obtain rfl := Except.ok.inj (parts.discovered.symm.trans parts'.discovered)
  obtain rfl := Except.ok.inj (parts.known.symm.trans parts'.known)
  have same : examined.map Except.ok = examined'.map Except.ok := parts.each.symm.trans parts'.each
  rw [List.map_injective_iff.mpr (fun _ _ => Except.ok.inj) same]

/-- Where nothing is recorded, a theme with parts is read. -/
theorem Parts.read {session : Session} {settings : Settings} {catalogs : Catalogs} (silent : Silent tree session)
    (parts : Parts tree settings root paths examined catalogs) :
    Ends (read settings) session (fun theme _ => theme = ofParts root examined catalogs) fun _ _ => False := by
  have resolved := parts.resolved
  have discovered := parts.discovered
  rw [← silent.files] at resolved discovered
  unfold Theme.read
  refine .get_bind (.after_run (Run.ofFiles_run resolved session) ?_)
  refine .get_bind (.after_run (Run.ofFiles_run discovered session) ?_)
  refine (Run.event_silent silent _ _).bind fun _ began silent => ?_
  refine (examineAll_silent silent root settings.helper paths _).bind ?_
  rintro results now ⟨silent, isResults⟩
  obtain rfl : results = examined.map .ok := isResults.trans parts.each
  refine ((Run.ofResults_ends _ now).mono (fun _ _ holds => holds) ?_).bind ?_
  · rintro trouble _ ⟨-, isIn⟩
    obtain ⟨_, -, differs⟩ := List.mem_map.mp isIn
    cases differs
  · rintro all _ ⟨rfl, same⟩
    obtain rfl := List.map_injective_iff.mpr (fun _ _ => Except.ok.inj) same
    have known := parts.known
    rw [← silent.files] at known
    refine .get_bind (.after_run (Run.ofResult_run known _) ?_)
    exact (Run.event_silent silent _ _).bind fun _ _ _ => .pure rfl

/-- A theme is read as if every template were the only one: each path is that of a template or of a failure,
in the order of the paths; the findings are those of the templates, merged; and every template is rendered as
by itself. -/
theorem read_separately {settings : Settings} {session after : Session} {theme : Theme}
    (named : session.tree.isNamed = true) (silent : session.recorders = [])
    (done : (read settings).run.run session = (.ok theme, after)) :
    ∃ (paths : List String) (analysed : List (Template × Findings)),
      session.tree.resolve settings.root = .ok theme.root ∧
      discover session.tree theme.root settings.scan = .ok paths ∧ paths.Pairwise (· < ·) ∧
      Assembled session.tree settings.helper paths analysed theme ∧
      (∀ pair ∈ analysed, Analysed settings.helper pair.1 pair.2) ∧
      MergedFrom (analysed.map Prod.snd) theme.findings ∧
      ∀ all helper rendered, renderChanges theme.templates (theme.findings.texts.changes all) helper = .ok rendered →
        ∀ pair ∈ analysed, ∃ alone, renderChanges [pair.1] (pair.2.texts.changes all) helper = .ok alone ∧
          Members.get? rendered pair.1.source = Members.get? alone pair.1.source := by
  obtain ⟨-, root, paths, examined, catalogs, parts, rfl⟩ := (read_parts ⟨rfl, silent⟩ settings).onOk theme after done
  have assembled := parts.each.assembled catalogs
  have ascending := discover_ascending named parts.discovered
  rw [ofParts_root]
  refine ⟨paths, _, parts.resolved, parts.discovered, ascending, assembled, ?_⟩
  generalize examined.filterMap Examined.analysed? = analysed at assembled
  have each : ∀ pair ∈ analysed, Analysed settings.helper pair.1 pair.2 :=
    fun pair isPair => (examine_analysed (assembled.examined pair isPair)).2.1
  have distinct : (analysed.map fun pair => pair.1.source).Nodup := by
    have sources := assembled.templatesOrder.nodup (ascending.imp fun before => before.ne)
    rwa [assembled.templates, List.map_map] at sources
  refine ⟨each, ?_, ?_⟩
  · rw [assembled.findings]
    exact mergedFrom_analysed each
  · intro all helper rendered whole pair isPair
    rw [assembled.templates, assembled.findings] at whole
    exact renderChanges_alone helper each distinct isPair whole

/-- Two templates share a text, and one between them cannot be read. -/
theorem read_separately_shared :
    ∃ (tree : FileTree) (theme : Theme) (after : Session), tree.isNamed = true ∧
      (read (.default ["theme"] 1)).run.run { tree } = (.ok theme, after) ∧
      theme.templates.map Template.source = ["a.hbs", "c.hbs"] ∧ theme.failures.map Failure.path = ["b.hbs"] ∧
      ∃ analysed : List (Template × Findings), theme.templates = analysed.map Prod.fst ∧
        MergedFrom (analysed.map Prod.snd) theme.findings ∧
        ∀ pair ∈ analysed, ∃ alone, renderChanges [pair.1] (pair.2.texts.changes false) ['t'] = .ok alone ∧
          (Members.get? alone pair.1.source).isSome := by
  obtain ⟨tree, isTree⟩ : ∃ tree : FileTree, .directory [("theme", .directory [
      ("a.hbs", .file (Encoding.encode "<p>Hi</p>".toList)),
      ("b.hbs", .file (Encoding.encode ("Hi".toList ++ Template.tagged "#if x"))),
      ("c.hbs", .file (Encoding.encode ("Hi".toList ++ Template.tagged "t 'k'")))])] = tree := ⟨_, rfl⟩
  obtain ⟨examined, isExamined⟩ : ∃ examined, (["a.hbs", "b.hbs", "c.hbs"].filterMap fun path =>
      (examine tree ["theme"] ['t'] path).result.toOption) = examined := ⟨_, rfl⟩
  have resolved : tree.resolve ["theme"] = .ok ["theme"] := by
    rw [← isTree]
    decide +kernel
  have discovered : discover tree ["theme"] (Settings.default ["theme"] 1).scan = .ok ["a.hbs", "b.hbs", "c.hbs"] := by
    revert resolved
    rw [← isTree]
    exact fun resolved => discover_sorted resolved rfl (by decide +kernel) (by decide)
  have each : ExaminedAll tree ["theme"] ['t'] ["a.hbs", "b.hbs", "c.hbs"] examined := by
    rw [← isExamined]
    refine .of_isSome ?_
    rw [← isTree]
    decide +kernel
  have catalogs : readCatalogs tree ["theme"] "locales" = .ok [] := by
    have noCatalogs : (readCatalogs tree ["theme"] "locales").toOption.map List.isEmpty = some true := by
      rw [← isTree]
      decide +kernel
    obtain ⟨catalogs, known, empty⟩ := Option.map_eq_some_iff.mp noCatalogs
    exact List.isEmpty_iff.mp empty ▸ ok_of_toOption known
  have parts : Parts tree (.default ["theme"] 1) ["theme"] ["a.hbs", "b.hbs", "c.hbs"] examined [] :=
    ⟨resolved, discovered, each, catalogs⟩
  have silent : Silent tree { tree } := ⟨rfl, rfl⟩
  obtain ⟨_, after, ran, rfl⟩ := (parts.read silent).exists_run
  have theme : let theme := ofParts ["theme"] examined []
      (theme.templates.map Template.source = ["a.hbs", "c.hbs"] ∧ theme.failures.map Failure.path = ["b.hbs"]) ∧
        (renderChanges theme.templates (theme.findings.texts.changes false) ['t']).toOption.map Members.names =
          some ["a.hbs", "c.hbs"] := by
    rw [← isExamined, ← isTree]
    decide +kernel
  have named : tree.isNamed = true := by
    rw [← isTree]
    decide +kernel
  obtain ⟨⟨sources, failures⟩, rendered⟩ := theme
  obtain ⟨rendered, isRendered, names⟩ := Option.map_eq_some_iff.mp rendered
  obtain ⟨_, analysed, -, -, -, assembled, -, merged, separate⟩ := read_separately named rfl ran
  refine ⟨tree, _, after, named, ran, sources, failures, analysed, assembled.templates, merged, fun pair isPair => ?_⟩
  obtain ⟨alone, single, same⟩ := separate false ['t'] rendered (ok_of_toOption isRendered) pair isPair
  refine ⟨alone, single, same ▸ ?_⟩
  have isSource : pair.1.source ∈ Members.names rendered := by
    rw [names, ← sources, assembled.templates, List.map_map]
    exact List.mem_map.mpr ⟨pair, isPair, rfl⟩
  obtain ⟨⟨_, contents⟩, isIn, isSource⟩ := List.mem_map.mp isSource
  have distinct : (Members.names rendered).Nodup := names ▸ by decide
  rw [← isSource, Members.get?_of_mem distinct isIn]
  rfl

end Theme

end Phrasebook
