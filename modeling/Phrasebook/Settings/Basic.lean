import Phrasebook.Files.Encoding
import Phrasebook.Theme.Discovery
import Phrasebook.Toml.Document

/-!
The settings of a theme, their defaults, and the complaints about values that are refused.
-/

namespace Phrasebook

open Files

structure Settings where
  /-- The directory of the theme. -/
  root : Path
  scan : Theme.Scan
  /-- The directory of the catalogs, inside of the theme. -/
  directory : String
  /-- The locale whose catalog says which keys are expected. -/
  baseLocale : Option String
  /-- The name of the helper that looks up texts. -/
  helper : Text
  /-- How many files are worked on at the same time. -/
  workers : Nat
  /-- The file that a log of the run is appended to. -/
  auditLog : Option Path
  /-- The directory that masked templates are written to. -/
  debugDirectory : Option Path
deriving DecidableEq, Repr

namespace Settings

def fileName : String := "gt3.toml"

def maxWorkers : Nat := 64

def ignoredNames : List String :=
  ["node_modules", "bower_components", ".DS_Store", ".git", ".svn", "Thumbs.db", ".yarn-cache"]

def defaultGlobs : List Text :=
  (ignoredNames.map fun name => s!"**/{name}/**".toList) ++
    ["**/.DS_Store".toList, "**/Thumbs.db".toList]

def defaultWorkers (processors : Nat) : Nat := min 32 (processors + 4)

def default (root : Path) (processors : Nat) : Settings where
  root := root
  scan := ⟨[".hbs".toList], defaultGlobs⟩
  directory := "locales"
  baseLocale := none
  helper := ['t']
  workers := defaultWorkers processors
  auditLog := none
  debugDirectory := none

/-- Settings given by hand. The paths are relative to the working directory. -/
structure Overrides where
  baseLocale : Value := .null
  helper : Value := .null
  workers : Value := .null
  auditLog : Option String := none
  debugDirectory : Option String := none

inductive Flaw where
  | notTable
  | notList
  | notTexts
  | noPoint
  | emptyText
  | outsideTheme
  | notLocale
  | notHelper
  | notPositive
  | tooLarge
deriving DecidableEq, Repr

def Flaw.message (name : String) : Flaw → String
  | .notTable => s!"Config section '{name}' must be a table."
  | .notList => s!"Config field '{name}' must be a list of strings."
  | .notTexts => s!"Config field '{name}' must contain only strings."
  | .noPoint => s!"Config field '{name}' entries must start with '.'."
  | .emptyText => s!"Config field '{name}' must be a non-empty string."
  | .outsideTheme => s!"Config field '{name}' must be a path inside the theme."
  | .notLocale => s!"Config field '{name}' must be a locale code such as 'en'."
  | .notHelper => s!"Config field '{name}' must be a bare helper name such as 't'."
  | .notPositive => s!"Config field '{name}' must be a positive integer."
  | .tooLarge => s!"Config field '{name}' must be <= {maxWorkers}."

inductive Fault where
  /-- The value of a setting is refused. -/
  | invalid (name : String) (flaw : Flaw)
  /-- The settings file is no TOML document; `contents` is its text. -/
  | malformed (contents : Text) (fault : Toml.Fault)
  /-- The settings file holds no text. -/
  | encoding (fault : Encoding.Fault)
  | files (fault : Files.Fault)

def Fault.message : Fault → String
  | .invalid name flaw => flaw.message name
  | .malformed contents fault => fault.message contents
  | .encoding fault => fault.message
  | .files fault => fault.message

def Fault.escaping? : Fault → Option Files.Fault
  | .files .nullCharacter => none
  | .files fault => some fault
  | _ => none

end Settings

end Phrasebook
