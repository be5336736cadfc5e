import Phrasebook.Proofs.Files.Writes
import Phrasebook.Proofs.Session.Steps

/-!
# What recorders write

A log is written at the place of its path, and a directory of masks at the places where masked templates
were signalled. Steps that do nothing but record leave all other places as they are. Once every log has
been written an event can only fail because the system takes no more.
-/

namespace Phrasebook

open Files Record
open FileTree (Grown)

/-- An operation on a file is not done, or not to its end. -/
inductive Files.Fault.IsRefused : Fault → Prop where
  | refused (refusal : Refusal) (written : String) : IsRefused (.refused refusal written)
  | interrupted (outage : Outage) : IsRefused (.interrupted outage)

/-- The system does not take bytes for a file, or not all of them. -/
inductive Disk.Denies (disk : Disk) : Fault → Prop where
  | refused {tree : FileTree} {path : Path} {bytes : ByteArray} {outage : Outage} (written : String)
    (refuses : disk.reception tree path bytes = .refused outage) : disk.Denies (.refused (.system outage) written)
  | interrupted {tree : FileTree} {path : Path} {bytes : ByteArray} {kept : Nat} {outage : Outage}
    (interrupts : disk.reception tree path bytes = .interrupted kept outage) : disk.Denies (.interrupted outage)

theorem Disk.Denies.isRefused {disk : Disk} {fault : Fault} (denied : disk.Denies fault) : fault.IsRefused := by
  cases denied with
  | refused written refuses => exact .refused _ written
  | interrupted interrupts => exact .interrupted _

namespace FileTree

theorem reached_fault {tree : FileTree} {written : String} {names : List String} {fault : Fault}
    (failed : tree.reached written names = .error fault) : fault.IsRefused := by
  unfold reached at failed
  split at failed
  · exact Except.error.inj failed ▸ .refused _ _
  · split at failed
    · cases failed
    · exact Except.error.inj failed ▸ .refused _ _
    · cases failed

theorem read_fault {tree : FileTree} {path : Path} {fault : Fault} (failed : tree.read path = .error fault) :
    fault.IsRefused := by
  unfold read at failed
  split at failed
  · exact Except.error.inj failed ▸ .refused _ _
  · split at failed
    · cases failed
    · exact Except.error.inj failed ▸ .refused _ _
    · exact Except.error.inj failed ▸ .refused _ _

end FileTree

namespace FileOperation

variable {β : Type} {tree : FileTree}

theorem ofResult_bind {α : Type} {result : Except Fault α} {next : α → FileOperation β} {ok : β → FileTree → Prop}
    {stop : Fault → FileTree → Prop} (onOk : ∀ value, result = .ok value → Ends (next value) tree ok stop)
    (onStop : ∀ fault, result = .error fault → stop fault tree) : Ends (ofResult result >>= next) tree ok stop := by
  cases result with
  | ok value => exact ⟨(onOk value rfl).onOk, (onOk value rfl).onError⟩
  | error fault => exact .of_error rfl (onStop fault rfl)

theorem change_ends {update : FileTree → Except Fault FileTree} {ok : PUnit → FileTree → Prop}
    {stop : Fault → FileTree → Prop} (onOk : ∀ now, update tree = .ok now → ok ⟨⟩ now)
    (onStop : ∀ fault, update tree = .error fault → stop fault tree) : Ends (change update) tree ok stop := by
  exact .get_bind (ofResult_bind (fun now updated => .set (onOk now updated)) onStop)

/-- How the storing of bytes stops: the file cannot be written, the system does not take them, or it
takes only a part of them. -/
inductive Unstored (disk : Disk) (update : ByteArray → FileTree → Except Fault FileTree) (tree : FileTree) :
    Fault → FileTree → Prop where
  | failed {part : ByteArray} {fault : Fault} (failed : update part tree = .error fault) :
    Unstored disk update tree fault tree
  | untaken {fault : Fault} (denied : disk.Denies fault) : Unstored disk update tree fault tree
  | partly {part : ByteArray} {fault : Fault} {after : FileTree} (stored : update part tree = .ok after)
      (denied : disk.Denies fault) : Unstored disk update tree fault after

theorem store_ends (disk : Disk) (path : Path) (bytes : ByteArray)
    (update : ByteArray → FileTree → Except Fault FileTree) :
    Ends (store disk path bytes update) tree (fun _ after => update bytes tree = .ok after)
      fun fault after => Unstored disk update tree fault after := by
  refine .get_bind ?_
  split
  · exact change_ends (fun _ stored => stored) fun _ failed => .failed failed
  · next outage refuses => exact .throw (.untaken (.refused _ refuses))
  · next kept outage interrupts =>
    have partly : Ends (change (update (bytes.extract 0 kept))) tree (fun _ after => ∃ part, update part tree = .ok after)
        (Unstored disk update tree) :=
      change_ends (fun _ stored => ⟨_, stored⟩) fun _ failed => .failed failed
    refine partly.bind ?_
    rintro _ after ⟨part, stored⟩
    exact .throw (.partly stored (.interrupted interrupts))

theorem write_ends (disk : Disk) (path : Path) (bytes : ByteArray) :
    Ends (write disk path bytes) tree (fun _ after => tree.write path bytes = .ok after)
      fun fault after => Unstored disk (fun bytes tree => tree.write path bytes) tree fault after :=
  store_ends disk path bytes fun bytes tree => tree.write path bytes

theorem append_ends (disk : Disk) (path : Path) (bytes : ByteArray) :
    Ends (append disk path bytes) tree (fun _ after => tree.append path bytes = .ok after)
      fun fault after => Unstored disk (fun bytes tree => tree.append path bytes) tree fault after :=
  store_ends disk path bytes fun bytes tree => tree.append path bytes

theorem makeDirectory_ends (disk : Disk) (path : Path) :
    Ends (makeDirectory disk path) tree (fun _ after => Grown (fun _ => False) tree after)
      fun fault after => after = tree ∧ fault.IsRefused := by
  refine .get_bind (ofResult_bind (fun present _ => ?_) fun fault failed => ⟨rfl, FileTree.reached_fault failed⟩)
  split
  · exact .pure (.refl _ _)
  · split
    · exact .throw ⟨rfl, .refused _ _⟩
    · next parent located =>
      dsimp only
      split
      · exact .throw ⟨rfl, .refused _ _⟩
      · next missing =>
        split
        · exact .set (FileTree.make_grown located missing)
        · exact .throw ⟨rfl, .refused _ _⟩
      · exact .throw ⟨rfl, .refused _ _⟩

/-- Making directories touches no file, and fails only because an operation is refused. -/
theorem makeDirectories_ends (disk : Disk) (path : Path) :
    Ends (makeDirectories disk path) tree (fun _ after => Grown (fun _ => False) tree after)
      fun fault after => Grown (fun _ => False) tree after ∧ fault.IsRefused := by
  have one (path : Path) (before : FileTree) (grown : Grown (fun _ => False) tree before) :
      Ends (makeDirectory disk path) before (fun _ after => Grown (fun _ => False) tree after)
        fun fault after => Grown (fun _ => False) tree after ∧ fault.IsRefused :=
    (makeDirectory_ends disk path).mono (fun _ _ => grown.trans) fun fault after stopped =>
      ⟨stopped.1 ▸ grown, stopped.2⟩
  refine .get_bind ?_
  split
  · exact .forM _ (.refl _ _) fun n _ => one _
  · exact one path _ (.refl _ _)

end FileOperation

namespace Record.Recorder

/-- The places at which a recorder writes when it is given some signals. -/
def Reaches (tree : FileTree) (signals : List Signal) (place : Path) : Recorder → Prop
  | .log path _ => tree.locate path = .ok place
  | .masks directory => ∃ source lines target, .masked source lines ∈ signals ∧
      tree.inside directory source = .ok target ∧ tree.locate target = .ok place

/-- A log is ready once it can be read. -/
def Ready (tree : FileTree) : Recorder → Prop
  | .log path _ => ∃ bytes, tree.read path = .ok bytes
  | .masks _ => True

variable {recorder : Recorder} {touched : Path → Prop} {before after : FileTree} {place : Path}

theorem Reaches.mono {first second : List Signal} (reaches : recorder.Reaches before first place)
    (grown : Grown touched before after) (more : ∀ signal ∈ first, signal ∈ second) :
    recorder.Reaches after second place := by
  cases recorder with
  | log path stamp => exact grown.locate reaches
  | masks directory =>
    obtain ⟨source, lines, target, isIn, within, located⟩ := reaches
    exact ⟨source, lines, target, more _ isIn, grown.inside within (grown.locate located), grown.locate located⟩

theorem Ready.mono (ready : recorder.Ready before) (grown : Grown touched before after) : recorder.Ready after := by
  cases recorder with
  | log path stamp =>
    obtain ⟨bytes, read⟩ := ready
    obtain ⟨bytes', -, -, read', -⟩ := grown.read read
    exact ⟨bytes', read'⟩
  | masks directory => trivial

/-- What a recorder does with a signal. An event is only refused by a log that is not ready, or by the
system. -/
theorem record_ends (recorder : Recorder) (disk : Disk) (signal : Signal) (tree : FileTree) :
    Ends (recorder.record disk signal) tree
      (fun _ after => Grown (recorder.Reaches after [signal]) tree after ∧ recorder.Ready after)
      fun fault after => Grown (recorder.Reaches after [signal]) tree after ∧
        ∀ event, signal = .event event → fault.IsRefused ∧ (recorder.Ready tree → disk.Denies fault) := by
  cases recorder with
  | log path stamp =>
    have appended {bytes : ByteArray} {after : FileTree} (stored : tree.append path bytes = .ok after) :
        Grown (Reaches after [signal] · (.log path stamp)) tree after ∧ Ready after (.log path stamp) := by
      rw [FileTree.append_write] at stored
      obtain ⟨grown, read⟩ := FileTree.write_grown stored
      exact ⟨grown, _, read⟩
    refine (FileOperation.append_ends disk path _).mono (fun _ after stored => appended stored) ?_
    rintro fault after (failed | denied | ⟨stored, denied⟩)
    · rw [FileTree.append_write] at failed
      obtain ⟨refusal, rfl⟩ := FileTree.write_fault failed
      refine ⟨.refl _ _, fun event isEvent => ⟨.refused _ _, ?_⟩⟩
      rintro ⟨bytes, read⟩
      obtain ⟨now, written⟩ := FileTree.write_of_read read _
      cases failed.symm.trans written
    · exact ⟨.refl _ _, fun event isEvent => ⟨denied.isRefused, fun _ => denied⟩⟩
    · exact ⟨(appended stored).1, fun event isEvent => ⟨denied.isRefused, fun _ => denied⟩⟩
  | masks directory =>
    unfold record
    cases signal with
    | event event => exact .pure ⟨.refl _ _, trivial⟩
    | masked source lines =>
      have noEvent (fault : Fault) (event : Event) (isEvent : Signal.masked source lines = .event event) :
          fault.IsRefused ∧ (Ready tree (.masks directory) → disk.Denies fault) := by cases isEvent
      have making (between : FileTree) (made : Grown (fun _ => False) tree between) :
          Grown (Reaches between [.masked source lines] · (.masks directory)) tree between :=
        made.mono fun _ => False.elim
      refine .get_bind (FileOperation.ofResult_bind (fun target within => ?_)
        fun fault _ => ⟨.refl _ _, noEvent fault⟩)
      refine Ends.bind ((FileOperation.makeDirectories_ends disk target.dropLast).mono (fun _ _ made => made)
        fun fault between stopped => ⟨making between stopped.1, noEvent fault⟩) ?_
      intro _ between made
      have masked {bytes : ByteArray} {now : FileTree} (written : between.write target bytes = .ok now) :
          Grown (Reaches now [.masked source lines] · (.masks directory)) tree now := by
        obtain ⟨grown, read⟩ := FileTree.write_grown written
        obtain ⟨-, place, located, -⟩ := FileTree.read_ok_iff.mp read
        have whole : Grown (fun place => now.locate target = .ok place) tree now :=
          (made.mono fun _ => False.elim).trans grown
        have within' : now.inside directory source = .ok target := whole.inside within located
        exact whole.mono fun place here => ⟨source, lines, target, List.mem_singleton_self _, within', here⟩
      refine (FileOperation.write_ends disk target _).mono (fun _ now written => ⟨masked written, trivial⟩) ?_
      rintro fault now (failed | outage | ⟨written, outage⟩)
      · exact ⟨making between made, noEvent fault⟩
      · exact ⟨making between made, noEvent fault⟩
      · exact ⟨masked written, noEvent fault⟩

end Record.Recorder

namespace Session

/-- The places at which the recorders of a session write. -/
def Records (session : Session) (place : Path) : Prop :=
  ∃ recorder ∈ session.recorders, recorder.Reaches session.tree session.signals place

/-- Every log can be read. -/
def Open (session : Session) : Prop := ∀ recorder ∈ session.recorders, recorder.Ready session.tree

/-- What becomes of a session when nothing but signals is recorded. -/
structure Recorded (before after : Session) : Prop where
  system : after.system = before.system
  recorders : after.recorders = before.recorders
  pending : after.pending = before.pending
  signals : before.signals ⊆ after.signals
  grown : Grown after.Records before.tree after.tree

/-- The trees that were there on the way from one session to another. -/
def Saw (before after : Session) (tree : FileTree) : Prop := Grown after.Records before.tree tree

variable {before middle after session : Session} {touched : Path → Prop} {place : Path}

theorem Records.mono (records : before.Records place) (grown : Grown touched before.tree after.tree)
    (recorders : after.recorders = before.recorders) (signals : before.signals ⊆ after.signals) :
    after.Records place := by
  obtain ⟨recorder, isIn, reaches⟩ := records
  exact ⟨recorder, recorders ▸ isIn, reaches.mono grown signals⟩

theorem Open.mono (isOpen : before.Open) (grown : Grown touched before.tree after.tree)
    (recorders : after.recorders = before.recorders) : after.Open :=
  fun recorder isIn => (isOpen recorder (recorders ▸ isIn)).mono grown

namespace Recorded

theorem refl (session : Session) : session.Recorded session :=
  ⟨rfl, rfl, rfl, List.Subset.refl _, .refl _ _⟩

theorem trans (first : before.Recorded middle) (second : middle.Recorded after) : before.Recorded after where
  system := second.system.trans first.system
  recorders := second.recorders.trans first.recorders
  pending := second.pending.trans first.pending
  signals := List.Subset.trans first.signals second.signals
  grown := (first.grown.mono fun _ records =>
    records.mono second.grown second.recorders second.signals).trans second.grown

theorem isOpen (recorded : before.Recorded after) (isOpen : before.Open) : after.Open :=
  isOpen.mono recorded.grown recorded.recorders

theorem saw (recorded : before.Recorded after) : before.Saw after after.tree := recorded.grown

end Recorded

theorem Saw.mono {tree : FileTree} (saw : before.Saw middle tree) (recorded : middle.Recorded after) :
    before.Saw after tree :=
  FileTree.Grown.mono saw fun _ records => records.mono recorded.grown recorded.recorders recorded.signals

end Session

namespace Run

variable {β γ : Type} {session : Session} {ok : β → Session → Prop} {stop : Trouble → Session → Prop}

theorem ofResult_run {result : Except Trouble γ} {value : γ} (same : result = .ok value) (session : Session) :
    (ofResult result).run.run session = (.ok value, session) := by
  subst same
  rfl

theorem ofFiles_run {result : Except Fault γ} {value : γ} (same : result = .ok value) (session : Session) :
    (ofFiles result).run.run session = (.ok value, session) := by
  subst same
  rfl

theorem ofResult_bind {result : Except Trouble γ} {next : γ → Run β}
    (onOk : ∀ value, result = .ok value → Ends (next value) session ok stop)
    (onStop : ∀ trouble, result = .error trouble → stop trouble session) :
    Ends (ofResult result >>= next) session ok stop := by
  cases result with
  | ok value => exact ⟨(onOk value rfl).onOk, (onOk value rfl).onError⟩
  | error trouble => exact .of_error rfl (onStop trouble rfl)

theorem ofFiles_bind {result : Except Fault γ} {next : γ → Run β}
    (onOk : ∀ value, result = .ok value → Ends (next value) session ok stop)
    (onStop : ∀ fault, result = .error fault → stop (.files fault) session) :
    Ends (ofFiles result >>= next) session ok stop := by
  cases result with
  | ok value => exact ⟨(onOk value rfl).onOk, (onOk value rfl).onError⟩
  | error fault => exact .of_error rfl (onStop fault rfl)

theorem operate_ends {operation : FileOperation Unit} {ok : Unit → Session → Prop}
    (ends : Ends operation session.tree (fun value tree => ok value { session with tree })
      fun fault tree => stop (.files fault) { session with tree }) : Ends (operate operation) session ok stop := by
  rcases ran : operation.run.run session.tree with ⟨result, tree⟩
  refine .get_bind ?_
  rw [ran]
  cases result with
  | ok value => exact .of_ok rfl (ends.onOk value tree ran)
  | error fault => exact .of_error rfl (ends.onError fault tree ran)

theorem attempt_ends {run : Run β} {ok : Except Trouble β → Session → Prop}
    (ends : Ends run session (fun value => ok (.ok value)) fun trouble => ok (.error trouble)) :
    Ends (attempt run) session ok stop := by
  rcases ran : run.run.run session with ⟨result, after⟩
  refine @Ends.of_ok _ _ _ _ _ _ _ result after ?_ ?_
  · show (run.run >>= fun result => pure (Except.ok result) : StateM Session _).run session = _
    rw [StateT.run_bind, ran]
    rfl
  · cases result with
    | ok value => exact ends.onOk value after ran
    | error trouble => exact ends.onError trouble after ran

/-- Taking several results stops at one that is trouble, and changes nothing. -/
theorem ofResults_ends (results : List (Except Trouble β)) (session : Session) :
    Ends (results.mapM ofResult) session (fun values after => after = session ∧ results = values.map .ok)
      fun trouble after => after = session ∧ .error trouble ∈ results := by
  induction results with
  | nil => exact .pure ⟨rfl, rfl⟩
  | cons result rest ih =>
    rw [List.mapM_cons]
    refine ofResult_bind (fun value same => ?_) fun trouble same => ⟨rfl, same ▸ List.mem_cons_self⟩
    refine (ih.mono (fun _ _ holds => holds) fun trouble after stopped =>
      ⟨stopped.1, List.mem_cons_of_mem _ stopped.2⟩).bind ?_
    rintro values _ ⟨rfl, rfl⟩
    exact .pure ⟨rfl, by rw [same, List.map_cons]⟩

/-- What becomes of a signal. -/
theorem emit_ends (signal : Signal) (session : Session) :
    Ends (emit signal) session (fun _ after => session.Recorded after ∧ after.Open)
      fun trouble after => session.Recorded after ∧ ∃ fault, trouble = .files fault ∧
        ∀ event, signal = .event event → fault.IsRefused ∧ (session.Open → session.system.disk.Denies fault) := by
  -- Every recorder writes at places that it reaches, and leaves those of the others ready.
  have one (recorder : Recorder) (isIn : recorder ∈ session.recorders) (before : Session)
      (sofar : session.Recorded before ∧ signal ∈ before.signals) :
      Ends (operate (recorder.record session.system.disk signal)) before
        (fun _ after => (session.Recorded after ∧ signal ∈ after.signals) ∧ recorder.Ready after.tree ∧
          ∀ other : Recorder, other.Ready before.tree → other.Ready after.tree)
        fun trouble after => session.Recorded after ∧ ∃ fault, trouble = .files fault ∧
          ∀ event, signal = .event event → fault.IsRefused ∧ (session.Open → session.system.disk.Denies fault) := by
    obtain ⟨recorded, given⟩ := sofar
    have moved (tree : FileTree)
        (grown : Grown (recorder.Reaches tree [signal]) before.tree tree) :
        session.Recorded { before with tree } := by
      refine recorded.trans ⟨rfl, rfl, rfl, List.Subset.refl _, grown.mono fun place reaches => ?_⟩
      exact ⟨recorder, recorded.recorders ▸ isIn, reaches.mono (.refl (fun _ => False) tree) (by simpa using given)⟩
    refine operate_ends ((recorder.record_ends session.system.disk signal before.tree).mono ?_ ?_)
    · rintro _ tree ⟨grown, ready⟩
      exact ⟨⟨moved tree grown, given⟩, ready, fun other known => known.mono grown⟩
    · rintro fault tree ⟨grown, onEvent⟩
      refine ⟨moved tree grown, fault, rfl, fun event isEvent => ⟨(onEvent event isEvent).1, fun isOpen => ?_⟩⟩
      exact (onEvent event isEvent).2 ((isOpen recorder isIn).mono recorded.grown)
  refine .modify_bind (.get_bind ?_)
  have started : session.Recorded { session with signals := session.signals ++ [signal] } :=
    ⟨rfl, rfl, rfl, List.subset_append_left _ _, .refl _ _⟩
  refine (Ends.forM_fits (fun state => session.Recorded state ∧ signal ∈ state.signals)
    (fun state recorder => recorder.Ready state.tree) ⟨started, List.mem_concat_self⟩ one).mono ?_
      fun _ _ stopped => stopped
  rintro _ after ⟨⟨recorded, -⟩, ready, -⟩
  exact ⟨recorded, fun recorder isIn => ready recorder (recorded.recorders ▸ isIn)⟩

/-- What becomes of an event. Once all logs can be read, only the system refuses it. -/
theorem event_ends (name : String) (details : List (String × Json)) (session : Session) :
    Ends (event name details) session (fun _ after => session.Recorded after ∧ after.Open)
      fun trouble after => session.Recorded after ∧ ∃ fault, trouble = .files fault ∧ fault.IsRefused ∧
        (session.Open → session.system.disk.Denies fault) := by
  refine (emit_ends _ session).mono (fun _ _ holds => holds) ?_
  rintro trouble after ⟨recorded, fault, same, onEvent⟩
  exact ⟨recorded, fault, same, onEvent _ rfl⟩

end Run

end Phrasebook
