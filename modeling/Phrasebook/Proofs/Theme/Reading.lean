import Phrasebook.Proofs.Extract.Merged
import Phrasebook.Proofs.Session.Recording
import Phrasebook.Theme.Basic

/-!
# What reading a theme comes to

A theme that was read holds the templates that were analysed, each still in its file, and catalogs that
remember their layout. Reading does nothing to a session but record; if it ends in trouble, the trouble
comes from a recorder, from one template or from a catalog.
-/

namespace Phrasebook.Theme

open Files Record Extract
open FileTree (Grown)

/-! ### Templates -/

theorem examineText_analysed {path : String} {contents helper : Text} {template : Template} {findings : Findings}
    (examined : (examineText path contents helper).result = .ok (.analysed template findings)) :
    template.source = path ∧ Analysed helper template findings := by
  unfold examineText at examined
  split at examined
  · next template' loaded =>
    unfold analyse at examined
    dsimp only at examined
    split at examined
    · next found visits done =>
      obtain ⟨rfl, rfl⟩ := Examined.analysed.inj (Except.ok.inj examined)
      exact ⟨(load_eq loaded).1, Analysed.of_load loaded done⟩
    · cases examined
    · cases examined
  · cases examined
  · cases examined

theorem examine_analysed {tree : FileTree} {root : Path} {helper : Text} {path : String} {template : Template}
    {findings : Findings} (examined : (examine tree root helper path).result = .ok (.analysed template findings)) :
    template.source = path ∧ Analysed helper template findings ∧ tree.Holds root path := by
  unfold examine at examined
  split at examined
  · cases examined
  · cases examined
  · next bytes found =>
    obtain ⟨place, within, read⟩ := bind_ok found
    split at examined
    · cases examined
    · obtain ⟨isSource, analysed⟩ := examineText_analysed examined
      exact ⟨isSource, analysed, place, bytes, within, read⟩

theorem examineRun_ends (root : Path) (helper : Text) (path : String) (session : Session) :
    Ends (examineRun root helper path) session
      (fun examined after => session.Recorded after ∧ ∀ template findings, examined = .analysed template findings →
        template.source = path ∧ Analysed helper template findings ∧ after.tree.Holds root path)
      fun trouble after => session.Recorded after ∧
        ((∃ fault, trouble = .files fault) ∨ (examine session.tree root helper path).result = .error trouble) := by
  refine .get_bind (Ends.bind (Ends.forM session.Recorded (.refl session) fun signal _ before recorded =>
    (Run.emit_ends signal before).mono (fun _ after holds => recorded.trans holds.1) ?_) ?_)
  · rintro trouble after ⟨recorded', fault, same, -⟩
    exact ⟨recorded.trans recorded', .inl ⟨fault, same⟩⟩
  · intro _ after recorded
    cases result : (examine session.tree root helper path).result with
    | error trouble => exact .throw ⟨recorded, .inr rfl⟩
    | ok examined =>
      refine .pure ⟨recorded, fun template findings isAnalysed => ?_⟩
      obtain ⟨isSource, analysed, holds⟩ := examine_analysed (isAnalysed ▸ result)
      exact ⟨isSource, analysed, holds.mono recorded.grown⟩

/-! ### Catalogs -/

/-- A catalog stands under its own locale, and it has the layout of a text. -/
def Kept (entry : String × Catalog) : Prop :=
  entry.2.locale = entry.1 ∧ ∃ contents, entry.2.format = some (.detect contents)

theorem readCatalog_kept {tree : FileTree} {directory : Path} {catalogs result : Catalogs} {name : String}
    (known : ∀ entry ∈ catalogs, Kept entry) (read : readCatalog tree directory catalogs name = .ok result) :
    ∀ entry ∈ result, Kept entry := by
  unfold readCatalog at read
  split at read
  · cases read
  · split at read
    · cases read
    · dsimp only at read
      split at read
      · cases read
      · next catalog parsed =>
        obtain rfl := Except.ok.inj read
        intro entry isIn
        rcases Members.mem_put isIn with isKnown | rfl
        · exact known entry isKnown
        · unfold Catalog.parse at parsed
          split at parsed
          · obtain rfl := Except.ok.inj parsed
            exact ⟨rfl, _, rfl⟩
          all_goals cases parsed

theorem readIfFile_kept {tree : FileTree} {directory : Path} {catalogs result : Catalogs} {name : String}
    (known : ∀ entry ∈ catalogs, Kept entry) (read : readIfFile tree directory catalogs name = .ok result) :
    ∀ entry ∈ result, Kept entry := by
  unfold readIfFile at read
  split at read
  · cases read
  · exact Except.ok.inj read ▸ known
  · exact readCatalog_kept known read

theorem readAll_kept {tree : FileTree} {directory : Path} {names : List String} {catalogs result : Catalogs}
    (known : ∀ entry ∈ catalogs, Kept entry) (read : names.foldlM (readIfFile tree directory) catalogs = .ok result) :
    ∀ entry ∈ result, Kept entry := by
  induction names generalizing catalogs with
  | nil => exact Except.ok.inj read ▸ known
  | cons name rest ih =>
    rw [List.foldlM_cons] at read
    obtain ⟨next, first, later⟩ := bind_ok read
    exact ih (readIfFile_kept known first) later

theorem readCatalogs_kept {tree : FileTree} {root : Path} {directory : String} {result : Catalogs}
    (read : readCatalogs tree root directory = .ok result) : ∀ entry ∈ result, Kept entry := by
  unfold readCatalogs at read
  split at read
  · cases read
  · split at read
    · cases read
    · exact readAll_kept (List.forall_mem_nil _) read
    · exact Except.ok.inj read ▸ List.forall_mem_nil _

/-! ### Whole themes -/

/-- The template with its findings, if it was analysed. -/
def Examined.analysed? : Examined → Option (Template × Findings)
  | .analysed template findings => some (template, findings)
  | .failed _ => none

/-- The failure of a template that was left out. -/
def Examined.failed? : Examined → Option Failure
  | .analysed _ _ => none
  | .failed failure => some failure

/-- What the templates of a theme come to. -/
theorem foldl_add (examined : List Examined) (theme : Theme) :
    (examined.foldl add theme).root = theme.root ∧ (examined.foldl add theme).templates =
      theme.templates ++ (examined.filterMap Examined.analysed?).map Prod.fst ∧
    (examined.foldl add theme).findings =
      ((examined.filterMap Examined.analysed?).map Prod.snd).foldl Findings.merge theme.findings := by
  induction examined generalizing theme with
  | nil => exact ⟨rfl, (List.append_nil _).symm, rfl⟩
  | cons first rest ih =>
    obtain ⟨isRoot, templates, findings⟩ := ih (theme.add first)
    rw [List.foldl_cons, isRoot, templates, findings]
    cases first with
    | analysed template found => exact ⟨rfl, List.append_assoc _ _ _, rfl⟩
    | failed failure => exact ⟨rfl, rfl, rfl⟩

theorem foldl_add_failures (examined : List Examined) (theme : Theme) :
    (examined.foldl add theme).failures = theme.failures ++ examined.filterMap Examined.failed? := by
  induction examined generalizing theme with
  | nil => exact (List.append_nil _).symm
  | cons first rest ih =>
    rw [List.foldl_cons, ih]
    cases first with
    | analysed template findings => rfl
    | failed failure => exact List.append_assoc _ _ _

theorem analysed_sources {helper : Text} {tree : FileTree} {root : Path} {paths : List String}
    {examined : List Examined} (each : List.Forall₂ (fun path examined => ∀ template findings,
      examined = .analysed template findings →
        template.source = path ∧ Analysed helper template findings ∧ tree.Holds root path) paths examined) :
    (∀ pair ∈ examined.filterMap Examined.analysed?,
      Analysed helper pair.1 pair.2 ∧ tree.Holds root pair.1.source) ∧
      ((examined.filterMap Examined.analysed?).map fun pair => pair.1.source).Sublist paths := by
  induction each with
  | nil => exact ⟨List.forall_mem_nil _, .slnil⟩
  | @cons path first paths rest fits later ih =>
    cases first with
    | failed failure => exact ⟨ih.1, ih.2.cons path⟩
    | analysed template findings =>
      obtain ⟨rfl, analysed, holds⟩ := fits template findings rfl
      exact ⟨List.forall_mem_cons.mpr ⟨⟨analysed, holds⟩, ih.1⟩, ih.2.cons_cons _⟩

/-- The templates that were found in a tree that was seen. -/
def Found (settings : Settings) (seen : FileTree → Prop) (root : Path) (paths : List String) : Prop :=
  ∃ tree, seen tree ∧ tree.resolve settings.root = .ok root ∧ discover tree root settings.scan = .ok paths

/-- Why a theme cannot be read: an operation on files fails, or a template or a catalog in one of the
trees that were seen holds something that cannot be read. -/
inductive Unread (settings : Settings) (seen : FileTree → Prop) : Trouble → Prop where
  | files (fault : Files.Fault) : Unread settings seen (.files fault)
  | template {root : Path} {paths : List String} {path : String} {tree : FileTree} {trouble : Trouble}
      (found : Found settings seen root paths) (isTemplate : path ∈ paths) (isSeen : seen tree)
      (examined : (examine tree root settings.helper path).result = .error trouble) :
      Unread settings seen trouble
  | catalogs {root : Path} {paths : List String} {tree : FileTree} {trouble : Trouble}
      (found : Found settings seen root paths) (isSeen : seen tree)
      (read : readCatalogs tree root settings.directory = .error trouble) : Unread settings seen trouble

/-- A theme as it is after it was read. -/
structure Read (settings : Settings) (before after : Session) (theme : Theme) : Prop where
  recorded : before.Recorded after
  isOpen : after.Open
  templates : ∃ paths, Found settings (before.Saw after) theme.root paths ∧ ∃ analysed : List (Template × Findings),
    theme.templates = analysed.map Prod.fst ∧ theme.findings = mergeAll (analysed.map Prod.snd) ∧
    (∀ pair ∈ analysed, Analysed settings.helper pair.1 pair.2) ∧
    (analysed.map fun pair => pair.1.source).Sublist paths
  holds : ∀ template ∈ theme.templates, after.tree.Holds theme.root template.source
  catalogs : ∃ tree, before.Saw after tree ∧ Grown after.Records tree after.tree ∧
    readCatalogs tree theme.root settings.directory = .ok theme.catalogs

theorem Found.mono {settings : Settings} {seen wider : FileTree → Prop} {root : Path} {paths : List String}
    (found : Found settings seen root paths) (wide : ∀ tree, seen tree → wider tree) :
    Found settings wider root paths := by
  obtain ⟨tree, isSeen, both⟩ := found
  exact ⟨tree, wide tree isSeen, both⟩

theorem Unread.mono {settings : Settings} {seen wider : FileTree → Prop} {trouble : Trouble}
    (unread : Unread settings seen trouble) (wide : ∀ tree, seen tree → wider tree) :
    Unread settings wider trouble := by
  cases unread with
  | files fault => exact .files fault
  | template found isTemplate isSeen examined =>
    exact .template (found.mono wide) isTemplate (wide _ isSeen) examined
  | catalogs found isSeen read => exact .catalogs (found.mono wide) (wide _ isSeen) read

/-- What became of the template at a path, as it is true in some state of a run and later on. -/
structure Settled (settings : Settings) (root : Path) (session state : Session) (path : String)
    (result : Except Trouble Examined) : Prop where
  analysed : ∀ examined, result = .ok examined → ∀ template findings, examined = .analysed template findings →
    template.source = path ∧ Analysed settings.helper template findings ∧ state.tree.Holds root path
  unread : ∀ trouble, result = .error trouble → Unread settings (session.Saw state) trouble

theorem Settled.mono {settings : Settings} {root : Path} {session before after : Session} {path : String}
    {result : Except Trouble Examined} (settled : Settled settings root session before path result)
    (recorded : before.Recorded after) : Settled settings root session after path result where
  analysed examined same template findings isAnalysed := by
    obtain ⟨isSource, analysed, holds⟩ := settled.analysed examined same template findings isAnalysed
    exact ⟨isSource, analysed, holds.mono recorded.grown⟩
  unread trouble same := (settled.unread trouble same).mono fun _ saw => saw.mono recorded

theorem Settled.of_mem {settings : Settings} {root : Path} {session state : Session} {paths : List String}
    {results : List (Except Trouble Examined)} {result : Except Trouble Examined}
    (each : List.Forall₂ (Settled settings root session state) paths results) (isIn : result ∈ results) :
    ∃ path, Settled settings root session state path result := by
  induction each with
  | nil => exact absurd isIn List.not_mem_nil
  | cons here later ih =>
    rcases List.mem_cons.mp isIn with rfl | isLater
    · exact ⟨_, here⟩
    · exact ih isLater

theorem examineAll_ends {settings : Settings} {session began : Session} {root : Path} {paths : List String}
    (found : Found settings (session.Saw session) root paths) (recorded : session.Recorded began)
    (stop : Trouble → Session → Prop) :
    Ends (paths.mapM fun path => Run.attempt (examineRun root settings.helper path)) began
      (fun results after => session.Recorded after ∧
        List.Forall₂ (Settled settings root session after) paths results) stop := by
  refine (Ends.mapM session.Recorded (Settled settings root session) recorded ?_).mono
    (fun _ _ holds => ⟨holds.1, holds.2.1⟩) fun _ _ stopped => stopped
  intro path isTemplate before recorded
  refine Run.attempt_ends ((examineRun_ends root settings.helper path before).mono ?_ ?_)
  · rintro examined after ⟨next, analysed⟩
    refine ⟨recorded.trans next, ⟨fun _ same => ?_, fun trouble same => (by cases same)⟩,
      fun _ _ settled => settled.mono next⟩
    obtain rfl := Except.ok.inj same
    exact analysed
  · rintro trouble after ⟨next, why⟩
    refine ⟨recorded.trans next, ⟨fun examined same => (by cases same), fun _ same => ?_⟩,
      fun _ _ settled => settled.mono next⟩
    obtain rfl := Except.error.inj same
    rcases why with ⟨fault, rfl⟩ | examined
    · exact .files fault
    · exact .template (found.mono fun _ saw => saw.mono (recorded.trans next)) isTemplate
        (recorded.saw.mono next) examined

/-- Reading a theme does nothing to a session but record. -/
theorem read_ends (settings : Settings) (session : Session) :
    Ends (read settings) session (fun theme after => theme.Read settings session after)
      fun trouble after => session.Recorded after ∧ Unread settings (session.Saw after) trouble := by
  have event {before : Session} (recorded : session.Recorded before) (name : String)
      (details : List (String × Json)) :
      Ends (Run.event name details) before (fun _ after => before.Recorded after ∧ after.Open)
        fun trouble after => session.Recorded after ∧ Unread settings (session.Saw after) trouble := by
    refine (Run.event_ends name details before).mono (fun _ _ holds => holds) ?_
    rintro trouble after ⟨recorded', fault, rfl, -⟩
    exact ⟨recorded.trans recorded', .files fault⟩
  unfold read
  refine .get_bind (Run.ofFiles_bind (fun root resolved => ?_) fun fault _ => ⟨.refl session, .files fault⟩)
  refine .get_bind (Run.ofFiles_bind (fun paths discovered => ?_) fun fault _ => ⟨.refl session, .files fault⟩)
  have found : Found settings (session.Saw session) root paths :=
    ⟨session.tree, .refl _ _, resolved, discovered⟩
  refine (event (.refl session) _ _).bind ?_
  rintro _ began ⟨recorded, -⟩
  refine (examineAll_ends found recorded _).bind ?_
  rintro results now ⟨recorded, each⟩
  -- All templates are examined before the first of their faults stops the run.
  have found : Found settings (session.Saw now) root paths := found.mono fun _ saw => saw.mono recorded
  refine ((Run.ofResults_ends results now).mono (fun _ _ holds => holds) ?_).bind ?_
  · rintro trouble _ ⟨rfl, isIn⟩
    obtain ⟨path, settled⟩ := Settled.of_mem each isIn
    exact ⟨recorded, settled.unread trouble rfl⟩
  rintro examined now ⟨rfl, rfl⟩
  obtain ⟨isRoot, templates, findings⟩ := foldl_add examined ⟨root, [], [], .empty, []⟩
  rw [List.forall₂_map_right_iff] at each
  obtain ⟨analysed, sources⟩ := analysed_sources (each.imp fun path result settled => settled.analysed result rfl)
  refine .get_bind (Run.ofResult_bind (fun catalogs read => ?_) fun trouble failed =>
    ⟨recorded, .catalogs found recorded.saw failed⟩)
  refine (event recorded _ _).bind ?_
  rintro _ after ⟨recorded', isOpen⟩
  refine .pure ⟨recorded.trans recorded', isOpen, ⟨paths, ?_, _, templates, findings,
    fun pair isIn => (analysed pair isIn).1, sources⟩, fun template isIn => ?_,
    now.tree, recorded.saw.mono recorded', recorded'.grown, ?_⟩
  · rw [isRoot]
    exact found.mono fun _ saw => saw.mono recorded'
  · rw [templates] at isIn
    obtain ⟨pair, isPair, rfl⟩ := List.mem_map.mp isIn
    rw [isRoot]
    exact (analysed pair isPair).2.mono recorded'.grown
  · rw [isRoot]
    exact read

end Phrasebook.Theme
