import Phrasebook.Settings.Basic

/-!
Checks of single values. A check takes the name of the setting for its complaint, and some take the
value that counts if nothing is given.
-/

namespace Phrasebook.Settings

open Files

def tableOf (payload : Table) (name : String) : Except Fault Table :=
  match Members.get? payload name.toList with
  | none => .ok []
  | some (.table members) => .ok members
  | some _ => .error (.invalid name .notTable)

def valueOf (table : Table) (name : String) : Value :=
  (Members.get? table name.toList).getD .null

def texts (name : String) : Value → Except Fault (List Text)
  | .array items => items.mapM fun
    | .string text => .ok text
    | _ => .error (.invalid name .notTexts)
  | _ => .error (.invalid name .notList)

def extensions (name : String) (value : Value) : Except Fault (List Text) := do
  let endings := (← texts name value).map Text.lower
  if endings.all fun text => ['.'].isPrefixOf text then .ok endings
  else .error (.invalid name .noPoint)

def directoryOf (name : String) : Value → Except Fault String
  | .string text =>
    if text.strip = [] then .error (.invalid name .emptyText)
    else
      let path := Text.trim '/' (text.map fun c => if c = '\\' then '/' else c)
      if path = [] ∨ up.toList ∈ Text.split '/' path then .error (.invalid name .outsideTheme)
      else .ok (String.ofList path)
  | _ => .error (.invalid name .emptyText)

/-- A text without the newline that may end it. -/
def chomp (text : Text) : Text := if text.getLast? = some '\n' then text.dropLast else text

/-- Whether a text consists of at least one of the given characters. A newline may end it. -/
def consistsOf (isAllowed : Char → Bool) (text : Text) : Bool :=
  chomp text ≠ [] && (chomp text).all isAllowed

def isLocaleChar (c : Char) : Bool := c.isAlphanum || c = '_' || c = '-'

def helperStops : Text := "!\"#%&'()*+,./;<=>@[\\]^\x60\x7b|\x7d~".toList

def isHelperChar (c : Char) : Bool := !Text.isBlank c && !helperStops.contains c

/-- The code of a locale, or `known` if nothing is given. -/
def localeOr (known : Option String) (name : String) : Value → Except Fault (Option String)
  | .null => .ok known
  | .string text =>
    if consistsOf isLocaleChar text then .ok (some (String.ofList text))
    else .error (.invalid name .notLocale)
  | _ => .error (.invalid name .notLocale)

def helperOr (known : Text) (name : String) : Value → Except Fault Text
  | .null => .ok known
  | .string text =>
    if consistsOf isHelperChar text then .ok text else .error (.invalid name .notHelper)
  | _ => .error (.invalid name .notHelper)

def workersOr (known : Nat) (name : String) : Value → Except Fault Nat
  | .null => .ok known
  | .int n =>
    if n < 1 then .error (.invalid name .notPositive)
    else if n > maxWorkers then .error (.invalid name .tooLarge)
    else .ok n.toNat
  | _ => .error (.invalid name .notPositive)

def placeOf (tree : FileTree) (base : Path) (written : String) : Except Fault Path :=
  match tree.resolve (Path.startingAt base written) with
  | .ok place => .ok place
  | .error fault => .error (.files fault)

def pathOr (tree : FileTree) (root : Path) (known : Option Path) (name : String) :
    Value → Except Fault (Option Path)
  | .null => .ok known
  | .string text =>
    if text.strip = [] then .error (.invalid name .emptyText)
    else do .ok (some (← placeOf tree root (String.ofList text)))
  | _ => .error (.invalid name .emptyText)

end Phrasebook.Settings
