import Phrasebook.Command.Find

/-!
The command that compares the catalogs of a theme with the keys that are expected of them, or brings
them up to date.
-/

namespace Phrasebook.Command

structure StatusOptions where
  /-- Locales without differences are reported too. -/
  all : Bool
  verbose : Bool
  json : Bool
  fail : Bool
  /-- Keys that nothing expects make the command fail too. -/
  strict : Bool
  update : Bool
deriving DecidableEq, Repr

def StatusOptions.ofFlags (flags : List String) : StatusOptions where
  all := flags.contains "all"
  verbose := flags.contains "verbose"
  json := flags.contains "json"
  fail := flags.contains "fail"
  strict := flags.contains "strict"
  update := flags.contains "update"

namespace StatusOptions

def conflict? (options : StatusOptions) : Option String :=
  if options.strict && !options.fail then some "--strict can only be used with --fail"
  else if options.update && options.fail then some "Cannot use --update and --fail together"
  else none

def code (options : StatusOptions) (report : StatusReport) : Nat :=
  if options.strict then if report.hasExtra || report.hasMissing then 1 else 0
  else if options.fail then if report.hasMissing then 1 else 0
  else 0

end StatusOptions

def printJson (report : StatusReport) : Run Unit :=
  Run.printPoints (Json.write reportStyle report.toJson)

def printKeys (small large : String) (keys : List CodePoints) : Run Unit :=
  if keys.isEmpty then Run.print s!"  No {small} strings"
  else do
    Run.print s!"  {large} strings:"
    keys.forM fun key => Run.printPoints (CodePoints.ofString "    * " ++ key)

/-- Prints a report, the locale with the most differences first. -/
def printReport (options : StatusOptions) (environment : Environment) (report : StatusReport) :
    Run Unit :=
  report.ranked.forM fun status => do
    Run.print (s!"{environment.catalogLabel status.locale}: " ++
      s!"+{status.diff.extra.length}/-{status.diff.missing.length}")
    if options.verbose then
      printKeys "extra" "Extra" status.diff.extra
      printKeys "missing" "Missing" status.diff.missing
      Run.print ""

def updateReported (options : StatusOptions) (environment : Environment) (theme : Theme)
    (report : StatusReport) : Run Nat := do
  let _ ← Run.withWrites (updateCatalogs environment ⟨options.json, options.verbose⟩ theme.catalogs
    (report.map fun status => (status.locale, status.diff)))
  return 0

def status (flags : List String) (environment : Environment) : Run Nat := do
  let options := StatusOptions.ofFlags flags
  match options.conflict? with
  | some conflict => do
    Run.complain conflict
    return 1
  | none => do
    let base := environment.settings.baseLocale
    let theme ← Theme.read environment.settings
    environment.reportFailures theme
    let collected := (Members.names theme.findings.keys).map Text.points
    match expectedKeys collected theme.catalogs base with
    | .error missing => do
      Run.complain s!"missing base locale {environment.catalogLabel missing.locale}"
      return 1
    | .ok expected => do
      let report := StatusReport.build expected theme.catalogs base options.all
      Run.event "status_computed" [
        ("base_locale", match base with
          | some locale => .text locale
          | none => .null),
        ("locales", Record.count report.length),
        ("has_missing", .bool report.hasMissing),
        ("has_extra", .bool report.hasExtra)]
      if options.update then
        if options.json then printJson report
        updateReported options environment theme report
      else
        if options.json then printJson report
        else printReport options environment report
        return options.code report

end Phrasebook.Command
