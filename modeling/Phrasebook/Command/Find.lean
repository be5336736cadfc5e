import Phrasebook.Command.Environment

/-!
The command that lists the texts of a theme that no key stands for yet, or puts them into calls of
the helper.
-/

namespace Phrasebook.Command

structure FindOptions where
  update : Bool
  fail : Bool
  json : Bool
  verbose : Bool
  /-- Texts without a letter count too. -/
  specialCharacters : Bool
deriving DecidableEq, Repr

def FindOptions.ofFlags (flags : List String) : FindOptions where
  update := flags.contains "update"
  fail := flags.contains "fail"
  json := flags.contains "json"
  verbose := flags.contains "verbose"
  specialCharacters := flags.contains "special-characters"

def reportStyle : Json.Style := Json.indentedStyle [' ', ' ']

def listTexts (options : FindOptions) (environment : Environment) (theme : Theme)
    (texts : List Text) : Run Unit :=
  if options.json then
    Run.printPoints (Json.write reportStyle (.array (texts.map fun text => .string text.points)))
  else texts.forM fun text => do
    Run.print s!"\"{String.ofList text}\""
    if options.verbose then
      let places := (Members.get? theme.findings.texts text).getD []
      places.forM fun place =>
        Run.print s!" - {environment.label}/{place.source}:{place.span.start.shown}"
      Run.print ""

def tellChanges (options : FindOptions) (environment : Environment)
    (changes : List (String × ChangeSet)) (rendered : List (String × Text)) : Run Unit :=
  rendered.forM fun (path, _) => do
    let label := s!"{environment.label}/{path}"
    match options.verbose, Members.get? changes path with
    | true, some set => (set.describe label environment.settings.helper).forM Run.print
    | _, _ => Run.print s!"Updating {label}"

/-- Puts texts into calls of the helper, and adds them to all catalogs. Nothing is printed or
written if one of the templates cannot be changed. -/
def updateTexts (options : FindOptions) (environment : Environment) (theme : Theme)
    (texts : List Text) : Run Nat := do
  let changes := theme.findings.texts.changes options.specialCharacters
  match renderChanges theme.templates changes environment.settings.helper with
  | .error fault => throw (.edit fault)
  | .ok rendered =>
    tellChanges options environment changes rendered
    let written ← Run.withWrites do
      submitTemplates theme.root rendered
      updateCatalogs environment ⟨false, options.verbose⟩ theme.catalogs
        (theme.catalogs.map fun (locale, _) => (locale, ⟨texts.map Text.points, []⟩))
    Run.event "files_written" [("files", Record.count written.length)]
    return 0

def find (flags : List String) (environment : Environment) : Run Nat := do
  let options := FindOptions.ofFlags flags
  if options.update && options.fail then
    Run.complain "Cannot use --update and --fail together"
    return 1
  let theme ← Theme.read environment.settings
  environment.reportFailures theme
  let texts := theme.findings.texts.translatable options.specialCharacters
  if options.update then updateTexts options environment theme texts
  else
    listTexts options environment theme texts
    return if options.fail && !texts.isEmpty then 1 else 0

end Phrasebook.Command
