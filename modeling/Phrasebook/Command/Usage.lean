import Phrasebook.Json.Value
import Phrasebook.Text.Digit
import Phrasebook.Text.Quoted

/-!
Reading the words of a command line. Words that start with a hyphen are options, which may be
shortened as long as it stays clear which one is meant; all others are operands. Behind two hyphens
alone there are operands only. An option takes its value from the next word, or from behind an
equals sign.
-/

namespace Phrasebook.Usage

inductive Takes where
  | nothing
  | text
  | number
  /-- The option asks for help, which ends the reading. -/
  | help
deriving DecidableEq, Repr

structure Rule where
  names : List String
  takes : Takes
deriving DecidableEq, Repr

def Rule.shown (rule : Rule) : String := "/".intercalate rule.names

/-- The first name of an option, under which its value is kept. -/
def Rule.name (rule : Rule) : String := rule.names.headD ""

inductive Fault where
  | ambiguous (word : String) (found : List String)
  | missingValue (rule : Rule)
  | unusedValue (rule : Rule) (value : String)
  | notNumber (rule : Rule) (value : String)
  | missingOperand (name : String)
  | unknownCommand (name : String) (known : List String)
  | unrecognised (words : List String)
deriving DecidableEq, Repr

def Fault.message : Fault → String
  | .ambiguous word found => s!"ambiguous option: {word} could match " ++ ", ".intercalate found
  | .missingValue rule => s!"argument {rule.shown}: expected one argument"
  | .unusedValue rule value =>
    s!"argument {rule.shown}: ignored explicit argument {showText value.toList}"
  | .notNumber rule value => s!"argument {rule.shown}: invalid int value: {showText value.toList}"
  | .missingOperand name => s!"the following arguments are required: {name}"
  | .unknownCommand name known =>
    s!"argument command: invalid choice: {showText name.toList} (choose from " ++
      ", ".intercalate (known.map fun name => showText name.toList) ++ ")"
  | .unrecognised words => "unrecognized arguments: " ++ " ".intercalate words

inductive Stop where
  | help
  | fault (fault : Fault)
deriving DecidableEq, Repr

/-! ### Words -/

def separator : String := "--"

inductive Word where
  | operand (text : String)
  /-- Two hyphens alone. -/
  | separator
  /-- An option under one of its names, perhaps with a value behind it. -/
  | option (rule : Rule) (name : Text) (value : Option Text)
  | unknown (text : String)
deriving DecidableEq, Repr

def namesOf (rules : List Rule) : List (Text × Rule) :=
  rules.flatMap fun rule => rule.names.map fun name => (name.toList, rule)

def cutValue (word : Text) : Text × Option Text :=
  let name := word.takeWhile (· ≠ '=')
  (name, if name.length < word.length then some (word.drop (name.length + 1)) else none)

def isNegative (word : Text) : Bool :=
  let word := if word.getLast? = some '\n' then word.dropLast else word
  let isDigit (c : Char) : Bool := (Text.digit? c).isSome
  match word with
  | '-' :: rest =>
    let behind := rest.dropWhile isDigit
    match behind with
    | [] => rest ≠ []
    | '.' :: digits => digits ≠ [] && digits.all isDigit
    | _ => false
  | _ => false

/-- The options that a shortened word can stand for, with the value behind it. A single hyphen and a
letter may have the value directly behind them. -/
def candidates (rules : List Rule) (word : Text) : List (Rule × Text × Option Text) :=
  match word with
  | '-' :: '-' :: _ =>
    let (start, value) := cutValue word
    (namesOf rules).filterMap fun (name, rule) =>
      if start.isPrefixOf name then some (rule, name, value) else none
  | _ =>
    (namesOf rules).filterMap fun (name, rule) =>
      if name = word.take 2 then some (rule, name, some (word.drop 2))
      else if word.isPrefixOf name then some (rule, name, none)
      else none

def classify (rules : List Rule) (text : String) : Except Fault Word :=
  let word := text.toList
  if word.head? ≠ some '-' then .ok (.operand text)
  else
    match Members.get? (namesOf rules) word with
    | some rule => .ok (.option rule word none)
    | none =>
      if word.length = 1 then .ok (.operand text)
      else
        let (name, value) := cutValue word
        match value, Members.get? (namesOf rules) name with
        | some value, some rule => .ok (.option rule name (some value))
        | _, _ =>
          match candidates rules word with
          | [(rule, name, value)] => .ok (.option rule name value)
          | [] =>
            if isNegative word || word.contains ' ' then .ok (.operand text)
            else .ok (.unknown text)
          | several => .error (.ambiguous text (several.map fun (_, name, _) => String.ofList name))

def classifyAll (rules : List Rule) : List String → Except Fault (List Word)
  | [] => .ok []
  | word :: rest =>
    if word = separator then .ok (.separator :: rest.map .operand)
    else do .ok ((← classify rules word) :: (← classifyAll rules rest))

/-! ### Command lines -/

inductive Setting where
  | on
  | text (value : String)
  | number (value : Int)
  /-- Two hyphens alone behind an equals sign are taken for a separator, and no value is left. -/
  | lost
deriving DecidableEq, Repr

/-- What was read: the operand, the values of options by their first names, and the words that mean
nothing. -/
structure Line where
  operand : Option String
  settings : List (String × Setting)
  extras : List String
deriving DecidableEq, Repr

def settingOf (rule : Rule) (value : String) : Except Stop Setting :=
  if value = separator then .ok .lost
  else if rule.takes = .number then
    match Text.int? value.toList with
    | some n => .ok (.number n)
    | none => .error (.fault (.notNumber rule value))
  else .ok (.text value)

/-- An option without a value behind it that takes none. Letters behind a single hyphen and a letter
are further options of this kind. -/
def bundled (rules : List Rule) (rule : Rule) : Text → Except Stop (List (String × Setting))
  | [] => if rule.takes = .help then .error .help else .ok [(rule.name, .on)]
  | c :: rest =>
    match Members.get? (namesOf rules) ['-', c] with
    | some next => do
      let more ← bundled rules next rest
      if rule.takes = .help then .error .help else .ok ((rule.name, .on) :: more)
    | none => .error (.fault (.unusedValue rule (String.ofList (c :: rest))))

def flagged (rules : List Rule) (rule : Rule) (name : Text) :
    Option Text → Except Stop (List (String × Setting))
  | none => bundled rules rule []
  | some value =>
    if name.drop 1 |>.head? |>.any (· ≠ '-') then
      if value = [] then .error (.fault (.unusedValue rule "")) else bundled rules rule value
    else .error (.fault (.unusedValue rule (String.ofList value)))

/-- Reads words from the left. The first operand counts, and further ones mean nothing. -/
def readWords (rules : List Rule) (line : Line) : List Word → Except Stop Line
  | [] => .ok line
  | .unknown text :: rest => readWords rules { line with extras := line.extras ++ [text] } rest
  | .option rule name value :: rest =>
    if rule.takes = .nothing ∨ rule.takes = .help then do
      let settings ← flagged rules rule name value
      readWords rules { line with settings := line.settings ++ settings } rest
    else
      match value, rest with
      | some value, rest => do
        let setting ← settingOf rule (String.ofList value)
        readWords rules { line with settings := line.settings ++ [(rule.name, setting)] } rest
      | none, .operand text :: rest => do
        let setting ← settingOf rule text
        readWords rules { line with settings := line.settings ++ [(rule.name, setting)] } rest
      | none, _ => .error (.fault (.missingValue rule))
  | .separator :: .operand text :: rest =>
    match line.operand with
    | none => readWords rules { line with operand := some text } rest
    | some _ => readWords rules { line with extras := line.extras ++ [separator, text] } rest
  | .separator :: rest => readWords rules { line with extras := line.extras ++ [separator] } rest
  | .operand text :: .separator :: rest =>
    match line.operand with
    | none => readWords rules { line with operand := some text } rest
    | some _ => readWords rules { line with extras := line.extras ++ [text, separator] } rest
  | .operand text :: rest =>
    match line.operand with
    | none => readWords rules { line with operand := some text } rest
    | some _ => readWords rules { line with extras := line.extras ++ [text] } rest

def read (rules : List Rule) (operand : String) (words : List String) : Except Stop Line :=
  match classifyAll rules words with
  | .error fault => .error (.fault fault)
  | .ok words =>
    match readWords rules ⟨none, [], []⟩ words with
    | .error stop => .error stop
    | .ok line =>
      if line.operand.isNone then .error (.fault (.missingOperand operand)) else .ok line

/-- Reads a command line up to its first operand. The words from there on belong to that operand,
also a separator in front of it. -/
def readFirst (rules : List Rule) (extras : List String) :
    List String → Except Stop (List String × List String)
  | [] => .ok (extras, [])
  | text :: rest =>
    if text = separator then
      match rest with
      | [] => .ok (extras ++ [text], [])
      | _ :: _ => .ok (extras, text :: rest)
    else
      match classify rules text with
      | .error fault => .error (.fault fault)
      | .ok (.operand _) => .ok (extras, text :: rest)
      | .ok (.option rule name value) => do
        let _ ← flagged rules rule name value
        readFirst rules extras rest
      | .ok _ => readFirst rules (extras ++ [text]) rest

def Line.setting? (line : Line) (name : String) : Option Setting :=
  Members.get? line.settings.reverse name

end Phrasebook.Usage
