import Phrasebook.Command.Program
import Phrasebook.Record.Clock
import Std.Time.DateTime.Timestamp

/-!
The command line. The files that a command can see are read into a tree, the command runs on the
tree, and the files that it changed are written back.
-/

namespace Phrasebook.CommandLine

open Files Record

/-- Reads what stands at a path into a tree, and what its links lead to. -/
partial def capture (tree : FileTree) (path : Path) : IO FileTree := do
  let file := (← IO.FS.realPath "/") / Path.joined path
  match ← file.symlinkMetadata.toBaseIO with
  | .error _ => return tree
  | .ok data =>
    match data.type with
    | .file => return tree.put path (.file (← IO.FS.readBinFile file))
    | .dir =>
      let mut known := match tree.find path with
        | .ok (.directory _) => tree
        | _ => tree.put path .empty
      for entry in ← file.readDir do
        known ← capture known (path ++ [entry.fileName])
      return known
    | .symlink =>
      match ← (IO.FS.realPath file).toBaseIO with
      | .error _ => return tree.put path (.link (Path.text path))
      | .ok target =>
        let known := tree.put path (.link target.toString)
        let place := Path.parts target.toString
        match known.find place with
        | .ok _ => return known
        | .error _ => capture known place
    | .other => return tree

def captureTheme (here : Path) (theme : String) : IO FileTree := do
  let start := FileTree.empty.put here .empty
  match ← (IO.FS.realPath theme).toBaseIO with
  | .error _ => return start
  | .ok target =>
    let place := Path.parts target.toString
    let named := Path.normal (Path.startingAt here theme)
    let tree ← capture start place
    return if named = place then tree else tree.put named (.link target.toString)

/-- Reads the places that records go to into a tree. -/
def captureRecords (tree : FileTree) (machine : Command.Machine) (invocation : Command.Invocation) :
    IO FileTree := do
  let directory := Path.startingAt machine.here invocation.theme
  match Settings.load tree machine.here machine.processors directory invocation.overrides with
  | .error _ => return tree
  | .ok settings =>
    (settings.auditLog.toList ++ settings.debugDirectory.toList).foldlM capture tree

def writeBack (before after : FileTree) : IO Unit := do
  for (path, bytes) in before.changes after do
    match bytes with
    | none => IO.FS.removeFile (Path.text path)
    | some bytes =>
      IO.FS.createDirAll (Path.text path.dropLast)
      IO.FS.writeBinFile (Path.text path) bytes

/-- The machine that the program runs on. Files are worked on one after the other. -/
def machine : IO Command.Machine := do
  let here := Path.parts (← IO.currentDir).toString
  let now ← Std.Time.Timestamp.now
  let time := timeText now.toMillisecondsSinceUnixEpoch.val.toNat
  let run ← (List.range 32).mapM fun _ => do
    return Nat.digitChar (← IO.rand 0 15)
  return ⟨here, 1, ⟨String.ofList run, time⟩, .sound⟩

def runWords (words : List String) : IO UInt32 := do
  let machine ← machine
  let tree ← match Command.Invocation.read words with
    | .error _ => pure FileTree.empty
    | .ok invocation => do
      captureRecords (← captureTheme machine.here invocation.theme) machine invocation
  let (ending, session) := Command.run machine words tree
  session.out.forM fun line => IO.println (String.ofList (line.filterMap CodePoint.char?))
  session.err.forM IO.eprintln
  writeBack tree session.tree
  match ending with
  | .exit code => return code.toUInt32
  | .rejected rejection =>
    if rejection.stop = .help then return 0
    IO.eprintln rejection.message
    return 2
  | .broken trouble =>
    IO.eprintln trouble.message
    return 1

end Phrasebook.CommandLine

def main (words : List String) : IO UInt32 := Phrasebook.CommandLine.runWords words
