import Phrasebook.Proofs.Files.Encoding
import Phrasebook.Proofs.Session.Writing

/-!
# What a log holds

A session that keeps a log writes a line for every signal behind what the log held before. The one way in
which a log comes to hold anything else is a masked template that is written in its place.
-/

namespace Phrasebook

open Files Record
open FileTree (Grown)

namespace Session

/-- The events that a log shows. -/
def events (session : Session) : List Event := session.signals.map Signal.logged

/-- A masked template was written where a log stands. -/
def Masked (session : Session) (log : Path) : Prop :=
  ∃ directory place, .masks directory ∈ session.recorders ∧ session.tree.locate log = .ok place ∧
    (Recorder.masks directory).Reaches session.tree session.signals place

variable {log : Path} {stamp : Stamp} {held : ByteArray} {before after session : Session} {touched : Path → Prop}

theorem Masked.mono (masked : before.Masked log) (grown : Grown touched before.tree after.tree)
    (recorders : after.recorders = before.recorders) (signals : before.signals ⊆ after.signals) : after.Masked log := by
  obtain ⟨directory, place, isIn, located, reaches⟩ := masked
  exact ⟨directory, place, recorders ▸ isIn, grown.locate located, reaches.mono grown signals⟩

/-- What a log holds after it held `held` and some events were signalled. -/
def logged (stamp : Stamp) (held : ByteArray) (events : List Event) : ByteArray :=
  held ++ Encoding.encode (events.map (logLine stamp)).flatten

theorem logged_concat (stamp : Stamp) (held : ByteArray) (events : List Event) (event : Event) :
    logged stamp held (events ++ [event]) = logged stamp held events ++ Encoding.encode (logLine stamp event) := by
  simp [logged, Encoding.encode_append, ByteArray.append_assoc]

/-- A session keeps a log, which held `held` before the first signal. -/
structure Logs (log : Path) (stamp : Stamp) (held : ByteArray) (session : Session) : Prop where
  recorders : ∃ directories, session.recorders = .log log stamp :: List.map .masks directories
  holds : session.tree.contents log = logged stamp held session.events ∨ session.Masked log

theorem Logs.told (logs : before.Logs log stamp held) (told : before.Told after) : after.Logs log stamp held := by
  obtain ⟨out, err, rfl⟩ := told
  exact ⟨logs.recorders, logs.holds⟩

/-- The log of a session can be read, and holds what it has to. -/
def Written (log : Path) (stamp : Stamp) (held : ByteArray) (session : Session) : Prop :=
  ∃ bytes, session.tree.read log = .ok bytes ∧ (bytes = logged stamp held session.events ∨ session.Masked log)

theorem Written.holds (written : session.Written log stamp held) :
    session.tree.contents log = logged stamp held session.events ∨ session.Masked log := by
  obtain ⟨bytes, read, either⟩ := written
  refine either.imp_left fun same => ?_
  rw [FileTree.contents, read, same]
  rfl

end Session

open Session (logged Logs Written)

variable {log : Path} {stamp : Stamp} {held : ByteArray} {session : Session}

/-! ### Recorders -/

theorem Session.Logs.recordLog (logs : session.Logs log stamp held) (signal : Signal) :
    Ends (Run.operate (Recorder.record session.system.disk signal (.log log stamp)))
      { session with signals := session.signals ++ [signal] }
      (fun _ after => after.recorders = session.recorders ∧ after.signals = session.signals ++ [signal] ∧
        after.Written log stamp held) fun _ _ => True := by
  unfold Recorder.record
  refine Run.operate_ends ((FileOperation.append_ends _ log _).mono (fun _ now written => ?_) fun _ _ _ => trivial)
  rw [FileTree.append_write] at written
  obtain ⟨grown, read⟩ := FileTree.write_grown written
  refine ⟨rfl, rfl, _, read, ?_⟩
  rcases logs.holds with same | masked
  · left
    rw [Session.events, List.map_append, List.map_singleton, Session.logged_concat]
    exact congrArg (· ++ _) same
  · exact .inr (masked.mono grown rfl (List.subset_append_left _ _))

theorem Session.Written.recordMask {directory : Path} {signal : Signal} (disk : Disk) (written : session.Written log stamp held)
    (isIn : .masks directory ∈ session.recorders) (given : signal ∈ session.signals) :
    Ends (Run.operate (Recorder.record disk signal (.masks directory))) session
      (fun _ after => after.recorders = session.recorders ∧ after.signals = session.signals ∧
        after.Written log stamp held) fun _ _ => True := by
  refine Run.operate_ends (((Recorder.masks directory).record_ends disk signal session.tree).mono ?_ fun _ _ _ => trivial)
  rintro _ tree ⟨grown, -⟩
  obtain ⟨bytes, read, either⟩ := written
  obtain ⟨bytes', place, located, read', kept⟩ := grown.read read
  refine ⟨rfl, rfl, bytes', read', ?_⟩
  rcases either with same | masked
  · rcases kept with reaches | rfl
    · exact .inr ⟨directory, place, isIn, grown.locate located,
        reaches.mono (.refl (fun _ => False) tree) (by simpa using given)⟩
    · exact .inl same
  · exact .inr (masked.mono grown rfl (List.Subset.refl _))

/-- A signal is written into the log, behind those before it. -/
theorem Run.emit_logs (logs : session.Logs log stamp held) (signal : Signal) :
    Ends (Run.emit signal) session
      (fun _ after => after.Logs log stamp held ∧ after.Written log stamp held ∧
        after.signals = session.signals ++ [signal]) fun _ _ => True := by
  obtain ⟨directories, recorders⟩ := logs.recorders
  have first := logs.recordLog signal
  refine .modify_bind (.get_bind ?_)
  dsimp only
  rw [recorders] at first ⊢
  refine first.bind ?_
  rintro _ between ⟨same, signals, written⟩
  refine ((Ends.forM (fun state => state.recorders = .log log stamp :: List.map .masks directories ∧
    state.signals = session.signals ++ [signal] ∧ state.Written log stamp held) ⟨same, signals, written⟩ ?_).mono ?_
      fun _ _ stopped => stopped)
  · rintro recorder isIn before ⟨same, signals, written⟩
    obtain ⟨directory, isDirectory, rfl⟩ := List.mem_map.mp isIn
    refine (written.recordMask _ (by rw [same]; exact List.mem_cons_of_mem _ isIn)
      (by rw [signals]; exact List.mem_concat_self)).mono ?_ fun _ _ stopped => stopped
    rintro _ after ⟨same', signals', written'⟩
    exact ⟨same'.trans same, signals'.trans signals, written'⟩
  · rintro _ after ⟨same, signals, written⟩
    exact ⟨⟨⟨directories, same⟩, written.holds⟩, written, signals⟩

theorem Run.emits_logs (logs : session.Logs log stamp held) (signals : List Signal) :
    Ends (signals.forM Run.emit) session
      (fun _ after => after.Logs log stamp held ∧ after.events = session.events ++ signals.map Signal.logged)
      fun _ _ => True := by
  induction signals generalizing session with
  | nil => exact .pure ⟨logs, (List.append_nil _).symm⟩
  | cons signal rest ih =>
    refine (Run.emit_logs logs signal).bind ?_
    rintro _ between ⟨logs', -, signals⟩
    refine (ih logs').mono ?_ fun _ _ stopped => stopped
    rintro _ after ⟨logs'', events⟩
    refine ⟨logs'', ?_⟩
    rw [events, Session.events, signals, List.map_append, List.append_assoc]
    rfl

/-- The event of the given name with the given details. -/
def Record.Event.plain (name : String) (details : List (String × Json)) : Event :=
  { name, details := some (details.map fun (name, value) => (name.toList, Detail.json value)) }

theorem Run.event_logs (logs : session.Logs log stamp held) (name : String) (details : List (String × Json)) :
    Ends (Run.event name details) session
      (fun _ after => after.Logs log stamp held ∧ after.Written log stamp held ∧
        after.events = session.events ++ [.plain name details]) fun _ _ => True := by
  refine (Run.emit_logs logs _).mono ?_ fun _ _ stopped => stopped
  rintro _ after ⟨logs', written, signals⟩
  refine ⟨logs', written, ?_⟩
  rw [Session.events, signals, List.map_append]
  rfl

end Phrasebook
