import Phrasebook.Theme.Basic

/-!
What commands have in common: the settings they run with, the names under which files are shown, and
the update of catalogs.
-/

namespace Phrasebook.Command

open Files

structure Environment where
  settings : Settings
  /-- The path of the theme as it is shown. -/
  label : String

namespace Environment

def catalogLabel (environment : Environment) (locale : String) : String :=
  s!"{environment.label}/{environment.settings.directory}/{Catalog.fileName locale}"

def reportFailures (environment : Environment) (theme : Theme) : Run Unit :=
  theme.failures.forM fun failure =>
    Run.complain s!"skipped {environment.label}/{failure.describe}"

end Environment

/-- The path of a theme as it is shown: with slashes, and without those at its end. -/
def themeLabel (written : String) : String :=
  let path := written.toList.map fun c => if c = '\\' then '/' else c
  match (path.reverse.dropWhile (· = '/')).reverse with
  | [] => written
  | shown => String.ofList shown

/-! ### Writing -/

def submitTemplates (root : Path) (rendered : List (String × Text)) : Run Unit :=
  rendered.forM fun (path, contents) => do
    Run.submit (← Run.ofFiles ((← get).tree.inside root path)) (.ok (Text.points contents))

def submitCatalogs (root : Path) (directory : String) (catalogs : List Catalog) : Run Unit :=
  catalogs.forM fun catalog => do
    let path := s!"{directory}/{Catalog.fileName catalog.locale}"
    Run.submit (← Run.ofFiles ((← get).tree.inside root path)) catalog.serialize

structure Telling where
  quiet : Bool
  verbose : Bool
deriving DecidableEq, Repr

def changeLine (change : String) (key : CodePoints) : CodePoints :=
  CodePoints.ofString s!"  - {change} \"" ++ key ++ [.char '"']

def updateCatalog (environment : Environment) (telling : Telling) (catalog : Catalog)
    (locale : String) (diff : KeyDiff) : Run Catalog := do
  unless telling.quiet do
    Run.print s!"Updating {environment.catalogLabel locale}"
  let update := catalog.update diff
  if telling.verbose && !telling.quiet then
    update.added.forM fun key => Run.printPoints (changeLine "Add" key)
    update.removed.forM fun key => Run.printPoints (changeLine "Remove" key)
    Run.print ""
  return update.catalog

/-- Updates the catalogs of some locales, tells about it, and asks for them to be written. Locales
without a catalog are passed by. -/
def updateCatalogs (environment : Environment) (telling : Telling) (catalogs : Catalogs)
    (changes : List (String × KeyDiff)) : Run Unit := do
  let updated ← changes.filterMapM fun (locale, diff) =>
    match Members.get? catalogs locale with
    | none => pure none
    | some catalog => some <$> updateCatalog environment telling catalog locale diff
  Run.event "locales_scheduled"
    [("locales", .array (updated.map fun catalog => .text catalog.locale))]
  submitCatalogs environment.settings.root environment.settings.directory updated

end Phrasebook.Command
