import Phrasebook.Record.Recorder
import Phrasebook.Trouble

/-!
Sessions. A session holds the files, what was printed, and what was recorded during a run; a `Run`
is a step that changes the session and may end in trouble. What a run did before trouble came up
stays done.
-/

namespace Phrasebook

open Files Record

/-- A write that is still to be done: where, and what, unless that cannot be made. -/
structure Write where
  target : Path
  contents : Except Violation CodePoints

structure System where
  disk : Disk
  /-- Why the output cannot show a line. -/
  objection? : CodePoints → Option String

def System.sound : System where
  disk := .sound
  objection? line :=
    match Encoding.encodePoints line with
    | .ok _ => none
    | .error fault => some fault.message

structure Session where
  tree : FileTree
  system : System := .sound
  recorders : List Recorder := []
  /-- All signals, in the order in which they were given. -/
  signals : List Signal := []
  /-- The lines printed for the user. -/
  out : List CodePoints := []
  /-- The lines printed about errors. -/
  err : List String := []
  /-- The writes that are still to be done, in the order in which they were asked for. -/
  pending : List Write := []

abbrev Run := ExceptT Trouble (StateM Session)

namespace Run

def printPoints (line : CodePoints) : Run Unit := do
  match (← get).system.objection? line with
  | none => modify fun session => { session with out := session.out ++ [line] }
  | some objection => throw (.unprintable objection)

def print (line : String) : Run Unit := printPoints (.ofString line)

def complain (message : String) : Run Unit :=
  modify fun session => { session with err := session.err ++ [s!"Error: {message}"] }

def ofResult {β : Type} : Except Trouble β → Run β
  | .ok value => pure value
  | .error trouble => throw trouble

def ofFiles {β : Type} : Except Fault β → Run β
  | .ok value => pure value
  | .error fault => throw (.files fault)

def operate (operation : FileOperation Unit) : Run Unit := do
  let (result, tree) := operation.run.run (← get).tree
  modify fun session => { session with tree }
  ofFiles result

def emit (signal : Signal) : Run Unit := do
  modify fun session => { session with signals := session.signals ++ [signal] }
  let session ← get
  session.recorders.forM fun recorder => operate (recorder.record session.system.disk signal)

def event (name : String) (details : List (String × Json)) : Run Unit :=
  let details := details.map fun (name, value) => (name.toList, Detail.json value)
  emit (.event { name, details := some details })

/-- Goes on after trouble with the trouble as the result. -/
def attempt {β : Type} (run : Run β) : Run (Except Trouble β) := ExceptT.mk do
  return .ok (← run.run)

def submit (target : Path) (contents : Except Violation CodePoints) : Run Unit :=
  modify fun session => { session with pending := session.pending ++ [⟨target, contents⟩] }

/-- Does a write. A file is opened, and so emptied, before it shows that its new text has no bytes. -/
def perform (write : Write) : Run Path := do
  match write.contents with
  | .error violation => throw (.catalogFormat violation)
  | .ok contents =>
    let disk := (← get).system.disk
    match Encoding.encodePoints contents with
    | .ok bytes =>
      operate (.write disk write.target bytes)
      return write.target
    | .error fault => do
      operate (.write disk write.target .empty)
      throw (.unencodable fault)

/-- Takes a step that asks for writes, and then does them, each whether or not another one fails,
and also if the step itself ends in trouble. The first trouble counts. -/
def withWrites (run : Run Unit) : Run (List Path) := do
  let asked ← attempt run
  let writes := (← get).pending
  modify fun session => { session with pending := [] }
  let done ← writes.mapM fun write => attempt (perform write)
  match asked with
  | .error trouble => throw trouble
  | .ok () => done.mapM ofResult

end Run

end Phrasebook
