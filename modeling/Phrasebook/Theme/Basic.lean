import Phrasebook.Catalog.Status
import Phrasebook.Extract.Analysis
import Phrasebook.Session
import Phrasebook.Settings.Load

/-!
Reading a theme: its templates are found and analysed one by one, and its catalogs are read. A
template that cannot be read is left out; `examine` tells what becomes of a single template.
-/

namespace Phrasebook

open Files Record

structure Theme.Failure where
  path : String
  message : String
  line : Option Int
  column : Option Int
deriving DecidableEq, Repr

def Theme.Failure.describe (failure : Failure) : String :=
  match failure.line with
  | none => s!"{failure.path}: {failure.message}"
  | some line => s!"{failure.path}:{line}:{failure.column.getD 0 + 1}: {failure.message}"

structure Theme where
  root : Path
  templates : List Template
  catalogs : Catalogs
  findings : Extract.Findings
  failures : List Theme.Failure

namespace Theme

/-! ### Templates -/

inductive Examined where
  | analysed (template : Template) (findings : Extract.Findings)
  | failed (failure : Failure)

/-- What becomes of a template, or the trouble with it, and the signals given on the way. -/
structure Examination where
  signals : List Signal
  result : Except Trouble Examined

def leaveOut (reason : String) (failure : Failure) : Examination where
  signals := [.event {
    name := "template_failed"
    path := some failure.path
    ok := false
    details := some [("reason".toList, .json (.text reason))] }]
  result := .ok (.failed failure)

def analyse (template : Template) (helper : Text) : Examination :=
  let outcome := Extract.analyseTemplate template helper Extract.defaultAims
  let masked := outcome.masked.map (Signal.masked template.source)
  match outcome.result with
  | .ok (findings, _) =>
    ⟨masked ++ [.event { name := "template_analyzed", path := some template.source }],
      .ok (.analysed template findings)⟩
  | .error (.reserved reserved) =>
    let rest := leaveOut "reserved" ⟨template.source, Mask.Reserved.message,
      some reserved.position.line, some reserved.position.column⟩
    ⟨masked ++ rest.signals, rest.result⟩
  | .error fault => ⟨masked, .error (.analysis fault)⟩

def examineText (path : String) (contents helper : Text) : Examination :=
  match Template.load path contents with
  | .ok template => analyse template helper
  | .error (.malformed fault) =>
    leaveOut "syntax" ⟨path, fault.cause.message, some fault.position.line,
      some fault.position.column⟩
  | .error (.longInteger digits) => ⟨[], .error (.longInteger digits)⟩

def examine (tree : FileTree) (root : Path) (helper : Text) (path : String) : Examination :=
  match tree.inside root path >>= tree.read with
  | .error (.refused refusal _) =>
    leaveOut "unreadable" ⟨path, s!"Cannot read file ({refusal.message}).", none, none⟩
  | .error fault => ⟨[], .error (.files fault)⟩
  | .ok bytes =>
    match Encoding.decode? bytes with
    | none => leaveOut "encoding" ⟨path, "File is not valid UTF-8.", none, none⟩
    | some contents => examineText path contents helper

def examineRun (root : Path) (helper : Text) (path : String) : Run Examined := do
  let examination := examine (← get).tree root helper path
  examination.signals.forM Run.emit
  Run.ofResult examination.result

/-! ### Catalogs -/

def catalogEnding : Text := ".json".toList

def readCatalog (tree : FileTree) (directory : Path) (catalogs : Catalogs) (name : String) :
    Except Trouble Catalogs :=
  match tree.read (directory ++ [name]) with
  | .error fault => .error (.files fault)
  | .ok bytes =>
    match Encoding.decode? bytes with
    | none => .error (.catalog (.unreadable name "file is not valid UTF-8."))
    | some contents =>
      let locale := String.ofList (Path.stem name.toList)
      match Catalog.parse locale (Text.points contents) name with
      | .error fault => .error (.catalog fault)
      | .ok catalog => .ok (Members.put catalogs locale catalog)

def readIfFile (tree : FileTree) (directory : Path) (catalogs : Catalogs) (name : String) :
    Except Trouble Catalogs :=
  match tree.isFile (directory ++ [name]) with
  | .error fault => .error (.files fault)
  | .ok false => .ok catalogs
  | .ok true => readCatalog tree directory catalogs name

/-- Reads the catalogs in a directory of a theme, in ascending order of their names. A directory
that is not there has no catalogs. -/
def readCatalogs (tree : FileTree) (root : Path) (directory : String) : Except Trouble Catalogs :=
  match tree.inside root directory with
  | .error fault => .error (.files fault)
  | .ok place =>
    match tree.get? place with
    | .error fault => .error (.files fault)
    | .ok (some (.directory entries)) =>
      let names := (Members.names entries).filter fun name => catalogEnding.isSuffixOf name.toList
      (names.mergeSort fun a b => decide (a ≤ b)).foldlM (readIfFile tree place) []
    | .ok _ => .ok []

/-! ### Themes -/

def add (theme : Theme) : Examined → Theme
  | .analysed template findings =>
    { theme with
      templates := theme.templates ++ [template]
      findings := theme.findings.merge findings }
  | .failed failure => { theme with failures := theme.failures ++ [failure] }

/-- Reads a theme. All templates are examined, also behind one with trouble. -/
def read (settings : Settings) : Run Theme := do
  let root ← Run.ofFiles ((← get).tree.resolve settings.root)
  let paths ← Run.ofFiles (discover (← get).tree root settings.scan)
  Run.event "discovered" [("templates", count paths.length)]
  let examined ← paths.mapM fun path => Run.attempt (examineRun root settings.helper path)
  let theme := (← examined.mapM Run.ofResult).foldl add ⟨root, [], [], .empty, []⟩
  let catalogs ← Run.ofResult (readCatalogs (← get).tree root settings.directory)
  Run.event "theme_read" [("templates", count theme.templates.length),
    ("failures", count theme.failures.length), ("locales", count catalogs.length)]
  return { theme with catalogs }

end Theme

end Phrasebook
