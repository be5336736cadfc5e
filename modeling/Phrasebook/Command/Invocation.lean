import Phrasebook.Command.Usage
import Phrasebook.Settings.Basic

/-!
The command line of the program: a command, the path of a theme, settings given by hand, and flags.
-/

namespace Phrasebook.Command

open Usage (Rule Fault Stop Line)

def programName : String := "gt3"

structure Invocation where
  command : String
  theme : String
  overrides : Settings.Overrides
  /-- The flags that are set, without their hyphens. -/
  flags : List String

/-- Why there is no invocation, and the name of the program or command that says so. -/
structure Rejection where
  speaker : String
  stop : Stop
deriving DecidableEq, Repr

def helpRule : Rule := ⟨["-h", "--help"], .help⟩

def commonRules : List Rule :=
  [helpRule, ⟨["--workers"], .number⟩, ⟨["--helper"], .text⟩, ⟨["--audit-log"], .text⟩,
    ⟨["--debug-dir"], .text⟩]

def flagRule (name : String) : Rule := ⟨["--" ++ name], .nothing⟩

def commandRules : List (String × List Rule) :=
  [("find", ["special-characters", "update", "fail", "json", "verbose"].map flagRule),
    ("status", ["all", "verbose", "json", "fail", "strict", "update"].map flagRule ++
      [⟨["--base-locale", "--base-lang"], .text⟩])]

/-- The value given for an option. A value that was lost is an empty list. -/
def valueOf (line : Line) (name : String) : Settings.Value :=
  match line.setting? name with
  | some (.text value) => .string value.toList
  | some (.number n) => .int n
  | some .lost => .array []
  | some .on => .bool true
  | none => .null

/-- The path given for an option. A value that was lost shows as a pair of brackets. -/
def pathOf (line : Line) (name : String) : Option String :=
  match line.setting? name with
  | some (.text value) => some value
  | some .lost => some "[]"
  | _ => none

def overridesOf (line : Line) : Settings.Overrides where
  baseLocale := valueOf line "--base-locale"
  helper := valueOf line "--helper"
  workers := valueOf line "--workers"
  auditLog := pathOf line "--audit-log"
  debugDirectory := pathOf line "--debug-dir"

def flagsOf (line : Line) : List String :=
  line.settings.filterMap fun (name, setting) =>
    if setting = .on then some (String.ofList (name.toList.drop 2)) else none

/-- Reads a command line. Words that mean nothing are refused at the end, those in front of the
command first. -/
def Invocation.read (words : List String) : Except Rejection Invocation :=
  match Usage.readFirst [helpRule] [] words with
  | .error stop => .error ⟨programName, stop⟩
  | .ok (_, []) => .error ⟨programName, .fault (.missingOperand "command")⟩
  | .ok (extras, command :: rest) =>
    match Members.get? commandRules command with
    | none =>
      .error ⟨programName, .fault (.unknownCommand command (Members.names commandRules))⟩
    | some rules =>
      match Usage.read (commonRules ++ rules) "theme" rest with
      | .error stop => .error ⟨s!"{programName} {command}", stop⟩
      | .ok line =>
        match extras ++ line.extras with
        | [] => .ok ⟨command, line.operand.getD "", overridesOf line, flagsOf line⟩
        | unknown => .error ⟨programName, .fault (.unrecognised unknown)⟩

def Rejection.message (rejection : Rejection) : String :=
  match rejection.stop with
  | .help => ""
  | .fault fault => s!"{rejection.speaker}: error: {fault.message}"

end Phrasebook.Command
