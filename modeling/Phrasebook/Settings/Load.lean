import Phrasebook.Settings.Check

/-!
Loading settings. `Settings.merge` starts from given settings, takes the values of a settings file
and then those given by hand; `Settings.load` starts from the defaults and reads the file of a
theme.
-/

namespace Phrasebook.Settings

open Files

/-! ### Merging -/

def takeFile (tree : FileTree) (base : Settings) (payload : Table) : Except Fault Settings := do
  let scan ← tableOf payload "scan"
  let locales ← tableOf payload "locales"
  let helper ← tableOf payload "helper"
  let run ← tableOf payload "run"
  let logging ← tableOf payload "logging"
  let present {β : Type} (table : Table) (name : String) (known : β)
      (check : Value → Except Fault β) : Except Fault β :=
    match Members.get? table name.toList with
    | none => .ok known
    | some value => check value
  let extensions ← present scan "include_extensions" base.scan.extensions
    (extensions "scan.include_extensions")
  let excluded ← present scan "exclude_globs" base.scan.excluded (texts "scan.exclude_globs")
  let directory ← present locales "directory" base.directory (directoryOf "locales.directory")
  let baseLocale ← localeOr base.baseLocale "locales.base_locale" (valueOf locales "base_locale")
  let helper ← helperOr base.helper "helper.name" (valueOf helper "name")
  let workers ← workersOr base.workers "run.workers" (valueOf run "workers")
  let auditLog ← pathOr tree base.root base.auditLog "logging.audit_log"
    (valueOf logging "audit_log")
  let debugDirectory ← pathOr tree base.root base.debugDirectory "logging.debug_dir"
    (valueOf logging "debug_dir")
  .ok { base with
    scan := ⟨extensions, excluded⟩
    directory, baseLocale, helper, workers, auditLog, debugDirectory }

def takeOverrides (tree : FileTree) (here : Path) (base : Settings) (overrides : Overrides) :
    Except Fault Settings := do
  let place (known : Option Path) : Option String → Except Fault (Option Path)
    | none => .ok known
    | some written => do .ok (some (← placeOf tree here written))
  let baseLocale ← localeOr base.baseLocale "overrides.base_locale" overrides.baseLocale
  let helper ← helperOr base.helper "overrides.helper_name" overrides.helper
  let workers ← workersOr base.workers "overrides.workers" overrides.workers
  let auditLog ← place base.auditLog overrides.auditLog
  let debugDirectory ← place base.debugDirectory overrides.debugDirectory
  .ok { base with baseLocale, helper, workers, auditLog, debugDirectory }

def merge (tree : FileTree) (here : Path) (base : Settings) (payload : Table)
    (overrides : Overrides) : Except Fault Settings := do
  takeOverrides tree here (← takeFile tree base payload) overrides

/-! ### Loading -/

/-- The values of the settings file in a directory; none if there is no such file. -/
def readFile (tree : FileTree) (root : Path) : Except Fault Table :=
  let path := root ++ [fileName]
  match tree.get? path with
  | .error fault => .error (.files fault)
  | .ok none => .ok []
  | .ok (some _) =>
    match tree.read path with
    | .error fault => .error (.files fault)
    | .ok bytes =>
      match Encoding.decode bytes with
      | .error fault => .error (.encoding fault)
      | .ok contents =>
        match Toml.read contents with
        | .ok table => .ok table
        | .error fault => .error (.malformed contents fault)

def load (tree : FileTree) (here : Path) (processors : Nat) (directory : List String)
    (overrides : Overrides) : Except Fault Settings := do
  match tree.resolve directory with
  | .error fault => .error (.files fault)
  | .ok root => merge tree here (default root processors) (← readFile tree root) overrides

end Phrasebook.Settings
