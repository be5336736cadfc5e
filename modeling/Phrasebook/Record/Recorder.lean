import Phrasebook.Files.Encoding
import Phrasebook.Files.Resolve
import Phrasebook.Json.Writer
import Phrasebook.Record.Signal
import Phrasebook.Text.Position

/-!
Recorders. A log gets one line of JSON for every signal, and a directory of masks gets the masked
templates.
-/

namespace Phrasebook.Record

open Files

structure Stamp where
  /-- The name of the run. -/
  run : String
  time : String
deriving DecidableEq, Repr

inductive Recorder where
  | log (path : Path) (stamp : Stamp)
  | masks (directory : Path)
deriving DecidableEq, Repr

/-- The event that a log shows for a signal. Of a masked template only the number of lines is told.
-/
def Signal.logged : Signal → Event
  | .event happened => happened
  | .masked source lines =>
    { name := "masked_source", path := some source,
      details := some [("lines".toList, .json (.int lines.length))] }

/-- The line of a log for an event. It is in ASCII, so every code point in it is a character. -/
def logLine (stamp : Stamp) (event : Event) : Text :=
  let details := sortedByName (sanitise (event.details.getD []))
  let members : List (String × Json) := [
    ("detail", .object (details.map fun (name, value) => (name.points, value))),
    ("event", .text event.name),
    ("ok", .bool event.ok),
    ("path", match event.path with
      | some path => .text path
      | none => .null),
    ("run_id", .text stamp.run),
    ("timestamp", .text stamp.time)]
  let line := Json.write Json.lineStyle
    (.object (members.map fun (name, value) => (CodePoints.ofString name, value)))
  line.filterMap CodePoint.char? ++ ['\n']

namespace Recorder

def prepare (disk : Disk) : Recorder → FileOperation Unit
  | .log path _ => FileOperation.makeDirectories disk path.dropLast
  | .masks _ => return ()

def record (disk : Disk) (signal : Signal) : Recorder → FileOperation Unit
  | .log path stamp =>
    FileOperation.append disk path (Encoding.encode (logLine stamp signal.logged))
  | .masks directory =>
    match signal with
    | .event _ => return ()
    | .masked source lines => do
      let target ← FileOperation.ofResult ((← get).inside directory source)
      FileOperation.makeDirectories disk target.dropLast
      FileOperation.write disk target (Encoding.encode (Text.ofLines lines))

end Recorder

end Phrasebook.Record
