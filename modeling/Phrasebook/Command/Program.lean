import Phrasebook.Command.Invocation
import Phrasebook.Command.Registry
import Phrasebook.Command.Status

/-!
The program as a whole: it reads a command line, loads the settings of a theme, opens the recorders,
and runs a command.
-/

namespace Phrasebook.Command

open Files Record

/-- A handler takes the flags that are set and what it runs with, and gives an exit code. -/
abbrev Handler := List String → Environment → Run Nat

def builtin : Registry Handler := (Registry.empty.register "find" find).register "status" status

structure Machine where
  /-- The working directory. -/
  here : Path
  processors : Nat
  stamp : Stamp
  system : System

inductive Ending where
  | exit (code : Nat)
  /-- The command line is refused. -/
  | rejected (rejection : Rejection)
  /-- Trouble that nothing is reported about. -/
  | broken (trouble : Trouble)
deriving DecidableEq

def recordersOf (settings : Settings) (stamp : Stamp) : List Recorder :=
  (settings.auditLog.map fun path => Recorder.log path stamp).toList ++
    (settings.debugDirectory.map Recorder.masks).toList

def openRecorders (recorders : List Recorder) : Run Unit := do
  let system := (← get).system
  recorders.forM fun recorder => Run.operate (recorder.prepare system.disk)
  modify fun session => { session with recorders }

def runCommand (invocation : Invocation) (environment : Environment) : Run Nat := do
  match builtin.dispatch invocation.command with
  | .error unknown => do
    Run.complain unknown.message
    return Trouble.inputCode
  | .ok handler =>
    match ← Run.attempt (handler invocation.flags environment) with
    | .ok code => return code
    | .error trouble =>
      match trouble.report? with
      | some (message, code) => do
        Run.complain message
        return code
      | none => throw trouble

/-- Runs a command between the events that mark its start and its end. -/
def runRecorded (invocation : Invocation) (environment : Environment) (stamp : Stamp) :
    Run Nat := do
  let command : Json := .text invocation.command
  openRecorders (recordersOf environment.settings stamp)
  Run.event "command_started" [("command", command)]
  let code ← runCommand invocation environment
  Run.emit (.event {
    name := "command_finished"
    ok := code = 0
    details := some [("command".toList, .json command), ("exit_code".toList, .json (.int code))] })
  return code

def runInvocation (machine : Machine) (invocation : Invocation) : Run Nat := do
  let directory := Path.startingAt machine.here invocation.theme
  let tree := (← get).tree
  match ← Run.ofFiles (tree.reached (Path.tidy invocation.theme) directory) with
  | some (.directory _) =>
    match Settings.load tree machine.here machine.processors directory invocation.overrides with
    | .ok settings =>
      runRecorded invocation ⟨settings, themeLabel invocation.theme⟩ machine.stamp
    | .error fault =>
      match fault.escaping? with
      | some fault => throw (.files fault)
      | none => do
        Run.complain fault.message
        return Trouble.inputCode
  | _ => do
    Run.complain s!"theme directory not found: {invocation.theme}"
    return Trouble.inputCode

def run (machine : Machine) (words : List String) (tree : FileTree) : Ending × Session :=
  let session : Session := { tree, system := machine.system }
  match Invocation.read words with
  | .error rejection => (.rejected rejection, session)
  | .ok invocation =>
    match (runInvocation machine invocation).run.run session with
    | (.ok code, session) => (.exit code, session)
    | (.error trouble, session) => (.broken trouble, session)

end Phrasebook.Command
