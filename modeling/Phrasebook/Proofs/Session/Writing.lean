import Phrasebook.Proofs.Session.Recording

/-!
# Printing and writing

A step that prints changes nothing else. Of writes that were asked for, those whose contents are known and
whose files can be read fail only because something is not taken: by the system, or as no text. Whatever a
step does, files stay files and links stay links.
-/

namespace Phrasebook

open Files Record
open FileTree (Grown)

/-! ### Trouble with what is given out -/

/-- The output cannot show a line. -/
inductive System.Objects (system : System) : Trouble → Prop where
  | line {line : CodePoints} {objection : String} (objects : system.objection? line = some objection) :
      system.Objects (.unprintable objection)

/-- Something that a run gives out is not taken: bytes by the system, a string by the files, or a line by the
output. -/
inductive System.Hinders (system : System) : Trouble → Prop where
  | denied {fault : Fault} (denied : system.disk.Denies fault) : system.Hinders (.files fault)
  | unencodable (fault : Encoding.Unencodable) : system.Hinders (.unencodable fault)
  | line {trouble : Trouble} (objects : system.Objects trouble) : system.Hinders trouble

theorem System.Hinders.unreported {system : System} {trouble : Trouble} (hinders : system.Hinders trouble) :
    trouble.report? = none := by
  cases hinders with
  | denied denied => cases denied <;> rfl
  | unencodable fault => rfl
  | line objects => cases objects; rfl

/-! ### Single writes -/

/-- The trouble in which a write can end. If its file can be read, only the system refuses it. -/
inductive Write.Stops (system : System) (write : Write) (tree : FileTree) : Trouble → Prop where
  | format {violation : Violation} (unknown : write.contents = .error violation) :
      write.Stops system tree (.catalogFormat violation)
  | files {fault : Fault} (onReadable : ∀ bytes, tree.read write.target = .ok bytes → system.disk.Denies fault) :
      write.Stops system tree (.files fault)
  | unencodable {contents : CodePoints} {fault : Encoding.Unencodable} (known : write.contents = .ok contents)
      (unencodable : Encoding.encodePoints contents = .error fault) : write.Stops system tree (.unencodable fault)

/-- A write that can be done: what it writes is known, and its file can be read. -/
def Write.Feasible (tree : FileTree) (write : Write) : Prop :=
  ∃ contents bytes, write.contents = .ok contents ∧ tree.read write.target = .ok bytes

theorem Write.Feasible.mono {touched : Path → Prop} {before after : FileTree} {write : Write}
    (feasible : write.Feasible before) (grown : Grown touched before after) : write.Feasible after := by
  obtain ⟨contents, bytes, isKnown, read⟩ := feasible
  obtain ⟨bytes', -, -, read', -⟩ := grown.read read
  exact ⟨contents, bytes', isKnown, read'⟩

theorem Write.Stops.hinders {system : System} {tree : FileTree} {write : Write} {trouble : Trouble}
    (stops : write.Stops system tree trouble) (feasible : write.Feasible tree) : system.Hinders trouble := by
  obtain ⟨contents, bytes, isKnown, read⟩ := feasible
  cases stops with
  | format unknown => cases unknown.symm.trans isKnown
  | files onReadable => exact .denied (onReadable bytes read)
  | unencodable known unencodable => exact .unencodable _

/-- If the contents of a write have no bytes, this is a reason to stop. -/
def Write.Covered (stops : System → Trouble → Prop) (write : Write) : Prop :=
  ∀ contents fault, write.contents = .ok contents → Encoding.encodePoints contents = .error fault →
    ∀ system, stops system (.unencodable fault)

/-- Trouble with files, with the layout of catalogs, or with the output is a reason to stop. -/
structure Trouble.Allowed (stops : System → Trouble → Prop) : Prop where
  files (system : System) (fault : Fault) : stops system (.files fault)
  format (system : System) (violation : Violation) : stops system (.catalogFormat violation)
  objects {system : System} {trouble : Trouble} : system.Objects trouble → stops system trouble

theorem Write.Stops.allowed {stops : System → Trouble → Prop} {system : System} {tree : FileTree} {write : Write}
    {trouble : Trouble} (stopped : write.Stops system tree trouble) (allowed : Trouble.Allowed stops)
    (covered : write.Covered stops) : stops system trouble := by
  cases stopped with
  | format unknown => exact allowed.format system _
  | files onReadable => exact allowed.files system _
  | unencodable known unencodable => exact covered _ _ known unencodable system

namespace Session

variable {before middle after session : Session}

/-! ### Printing -/

/-- Nothing but what was printed differs. -/
def Told (before after : Session) : Prop := ∃ out err, after = { before with out, err }

theorem Told.refl (session : Session) : session.Told session := ⟨_, _, rfl⟩

theorem Told.trans (first : before.Told middle) (second : middle.Told after) : before.Told after := by
  obtain ⟨out, err, rfl⟩ := first
  obtain ⟨out', err', rfl⟩ := second
  exact ⟨out', err', rfl⟩

theorem Told.recorded (told : before.Told after) : before.Recorded after := by
  obtain ⟨out, err, rfl⟩ := told
  exact ⟨rfl, rfl, rfl, List.Subset.refl _, .refl _ _⟩

theorem Told.system (told : before.Told after) : after.system = before.system := told.recorded.system

/-- Steps that print, and stop only at a line that the output cannot show. -/
def talking : Regime Trouble Session where
  moves := Told
  stops session := session.system.Objects
  refl := Told.refl
  trans := Told.trans
  back told objects := told.system ▸ objects

/-! ### Moving on -/

/-- What every step does to a session at most, once recorders are open. -/
structure Moved (before after : Session) : Prop where
  system : after.system = before.system
  recorders : after.recorders = before.recorders
  signals : before.signals ⊆ after.signals
  grown : Grown (fun _ => True) before.tree after.tree

theorem Moved.refl (session : Session) : session.Moved session := ⟨rfl, rfl, List.Subset.refl _, .refl _ _⟩

theorem Moved.trans (first : before.Moved middle) (second : middle.Moved after) : before.Moved after :=
  ⟨second.system.trans first.system, second.recorders.trans first.recorders,
    List.Subset.trans first.signals second.signals, first.grown.trans second.grown⟩

theorem Recorded.moved (recorded : before.Recorded after) : before.Moved after :=
  ⟨recorded.system, recorded.recorders, recorded.signals, recorded.grown.mono fun _ _ => trivial⟩

theorem Moved.isOpen (moved : before.Moved after) (isOpen : before.Open) : after.Open :=
  isOpen.mono moved.grown moved.recorders

theorem Saw.moved {tree : FileTree} (saw : before.Saw middle tree) (moved : middle.Moved after) :
    before.Saw after tree :=
  FileTree.Grown.mono saw fun _ records => records.mono moved.grown moved.recorders moved.signals

/-- Nothing but the files differs. -/
def Stored (before after : Session) : Prop :=
  ∃ tree, after = { before with tree } ∧ Grown (fun _ => True) before.tree tree

theorem Stored.moved (stored : before.Stored after) : before.Moved after := by
  obtain ⟨tree, rfl, grown⟩ := stored
  exact ⟨rfl, rfl, List.Subset.refl _, grown⟩

theorem Stored.pending (stored : before.Stored after) : after.pending = before.pending := by
  obtain ⟨tree, rfl, -⟩ := stored
  rfl

/-- If the contents of a write that was asked for have no bytes, this is a reason to stop. -/
def Covered (stops : System → Trouble → Prop) (session : Session) : Prop :=
  ∀ write ∈ session.pending, write.Covered stops

theorem Covered.of_idle {stops : System → Trouble → Prop} (idle : session.pending = []) : session.Covered stops :=
  fun write isIn => by simp [idle] at isIn

/-- Steps that stop for the given reasons only, if the writes asked for before do not stop them. -/
def moving (stops : System → Trouble → Prop) : Regime Trouble Session where
  moves before after := before.Moved after ∧ (before.Covered stops → after.Covered stops)
  stops session trouble := session.Covered stops → stops session.system trouble
  refl session := ⟨.refl session, id⟩
  trans first second := ⟨first.1.trans second.1, second.2 ∘ first.2⟩
  back moved stopped covered := moved.1.system ▸ stopped (moved.2 covered)

theorem Recorded.moving (recorded : before.Recorded after) (stops : System → Trouble → Prop) :
    (moving stops).moves before after :=
  ⟨recorded.moved, fun covered write isIn => covered write (recorded.pending ▸ isIn)⟩

/-! ### Writes that are still to be done -/

/-- All logs can be read, and all writes that were asked for can be done. -/
structure Poised (session : Session) : Prop where
  isOpen : session.Open
  feasible : ∀ write ∈ session.pending, write.Feasible session.tree

theorem Poised.recorded (poised : before.Poised) (recorded : before.Recorded after) : after.Poised :=
  ⟨recorded.isOpen poised.isOpen, fun write isIn =>
    (poised.feasible write (recorded.pending ▸ isIn)).mono recorded.grown⟩

end Session

namespace Run

variable {α β : Type} {session : Session} {stops : System → Trouble → Prop} {stop : Trouble → Session → Prop}

/-! ### Steps that print -/

theorem printPoints_talks (line : CodePoints) : Session.talking.Keeps (printPoints line) := by
  intro session
  refine .get_bind ?_
  split
  · exact .modify ⟨_, session.err, rfl⟩
  · next objection objects => exact .throw ⟨.refl session, .line objects⟩

theorem print_talks (line : String) : Session.talking.Keeps (print line) := printPoints_talks _

theorem complain_ends (message : String) (session : Session) (stop : Trouble → Session → Prop) :
    Ends (complain message) session (fun _ after => session.Told after) stop :=
  .modify ⟨session.out, _, rfl⟩

theorem complain_bind {message : String} {next : Unit → Run β} {ok : β → Session → Prop}
    (on : ∀ between, session.Told between → Ends (next ()) between ok stop) :
    Ends (complain message >>= next) session ok stop :=
  (complain_ends message session stop).bind fun _ => on

theorem talks_bind {first : Run α} {next : α → Run β} {ok : β → Session → Prop}
    (talks : Session.talking.Keeps first)
    (onStop : ∀ trouble after, session.Told after → session.system.Objects trouble → stop trouble after)
    (on : ∀ value between, session.Told between → Ends (next value) between ok stop) :
    Ends (first >>= next) session ok stop :=
  ((talks session).mono (fun _ _ told => told) fun trouble after stopped =>
    onStop trouble after stopped.1 stopped.2).bind on

/-! ### Steps that move a session -/

section Moving

variable (allowed : Trouble.Allowed stops)
include allowed

theorem talks_moves {step : Run β} (talks : Session.talking.Keeps step) : (Session.moving stops).Keeps step :=
  fun session => (talks session).mono (fun _ _ told => told.recorded.moving stops)
    fun _ _ stopped => ⟨stopped.1.recorded.moving stops, fun _ => allowed.objects stopped.2⟩

theorem ofFiles_moves (result : Except Fault β) : (Session.moving stops).Keeps (ofFiles result) := by
  cases result with
  | ok value => exact .pure value
  | error fault => exact .throw fun session _ => allowed.files session.system fault

theorem event_moves (name : String) (details : List (String × Json)) :
    (Session.moving stops).Keeps (event name details) := by
  intro session
  refine (event_ends name details session).mono (fun _ _ holds => holds.1.moving stops) ?_
  rintro trouble after ⟨recorded, fault, rfl, -⟩
  exact ⟨recorded.moving stops, fun _ => allowed.files session.system fault⟩

end Moving

theorem complain_moves (message : String) : (Session.moving stops).Keeps (complain message) :=
  fun session => (complain_ends message session _).mono (fun _ _ told => told.recorded.moving stops)
    fun _ _ stopped => stopped

theorem submit_moves {target : Path} {contents : Except Violation CodePoints}
    (covered : Write.Covered stops ⟨target, contents⟩) : (Session.moving stops).Keeps (submit target contents) := by
  refine .modify fun session => ⟨⟨rfl, rfl, List.Subset.refl _, .refl _ _⟩, fun before write isIn => ?_⟩
  rcases List.mem_append.mp isIn with old | new
  · exact before write old
  · exact List.mem_singleton.mp new ▸ covered

/-! ### Writes -/

theorem write_ends (target : Path) (bytes : ByteArray) (session : Session) :
    Ends (operate (.write session.system.disk target bytes)) session (fun _ after => session.Stored after)
      fun trouble after => session.Stored after ∧ ∃ fault, trouble = .files fault ∧
        ∀ present, session.tree.read target = .ok present → session.system.disk.Denies fault := by
  have stored {part : ByteArray} {tree : FileTree} (written : session.tree.write target part = .ok tree) :
      session.Stored { session with tree } :=
    ⟨tree, rfl, (FileTree.write_grown written).1.mono fun _ _ => trivial⟩
  refine operate_ends ((FileOperation.write_ends _ target bytes).mono (fun _ _ written => stored written) ?_)
  rintro fault tree (failed | denied | ⟨written, denied⟩)
  · refine ⟨⟨_, rfl, .refl _ _⟩, fault, rfl, fun present read => ?_⟩
    obtain ⟨now, written⟩ := FileTree.write_of_read read _
    cases failed.symm.trans written
  · exact ⟨⟨_, rfl, .refl _ _⟩, fault, rfl, fun _ _ => denied⟩
  · exact ⟨stored written, fault, rfl, fun _ _ => denied⟩

theorem perform_ends (write : Write) (session : Session) :
    Ends (perform write) session (fun _ after => session.Stored after)
      fun trouble after => session.Stored after ∧ write.Stops session.system session.tree trouble := by
  have same : session.Stored session := ⟨_, rfl, .refl _ _⟩
  have storing (bytes : ByteArray) : Ends (operate (.write session.system.disk write.target bytes)) session
      (fun _ after => session.Stored after)
      fun trouble after => session.Stored after ∧ write.Stops session.system session.tree trouble := by
    refine (write_ends write.target bytes session).mono (fun _ _ stored => stored) ?_
    rintro trouble after ⟨stored, fault, rfl, onReadable⟩
    exact ⟨stored, .files onReadable⟩
  unfold perform
  split
  · next violation unknown => exact .throw ⟨same, .format unknown⟩
  · next contents known =>
    refine .get_bind ?_
    split
    · next bytes encoded => exact (storing bytes).bind fun _ _ stored => .pure stored
    · next fault unencodable =>
      exact (storing .empty).bind fun _ _ stored => .throw ⟨stored, .unencodable known unencodable⟩

/-- Writes that are done move a session on, whether they fail or not. -/
theorem performAll_ends (writes : List Write) (idle : session.pending = []) {bad : Trouble → Prop}
    (does : ∀ write ∈ writes, ∀ tree, Grown (fun _ => True) session.tree tree →
      ∀ trouble, write.Stops session.system tree trouble → bad trouble) :
    Ends (writes.mapM fun write => attempt (perform write)) session
      (fun results after => after.pending = [] ∧ session.Moved after ∧
        ∀ trouble, .error trouble ∈ results → bad trouble) stop := by
  refine (Ends.mapM (fun after => after.pending = [] ∧ session.Moved after)
    (fun _ _ result => ∀ trouble, result = .error trouble → bad trouble) ⟨idle, .refl session⟩ ?_).mono ?_
      fun _ _ stopped => stopped
  · rintro write isIn before ⟨isIdle, moved⟩
    have kept {after : Session} (stored : before.Stored after) : after.pending = [] ∧ session.Moved after :=
      ⟨stored.pending.trans isIdle, moved.trans stored.moved⟩
    refine attempt_ends ((perform_ends write before).mono
      (fun _ _ stored => ⟨kept stored, fun _ same => (by cases same), fun _ _ known => known⟩) ?_)
    rintro trouble after ⟨stored, stopped⟩
    refine ⟨kept stored, ?_, fun _ _ known => known⟩
    rintro _ ⟨⟩
    exact does write isIn before.tree moved.grown trouble (moved.system ▸ stopped)
  · rintro results after ⟨⟨isIdle, moved⟩, each, -⟩
    refine ⟨isIdle, moved, fun trouble failed => ?_⟩
    clear isIdle moved does
    induction each with
    | nil => cases failed
    | cons here _ ih => exact (List.mem_cons.mp failed).elim (fun same => here trouble same.symm) ih

/-- A step that asks for writes, with the writes themselves: `ready` is what the step brings about, and `bad`
the trouble in which it or one of the writes can end. -/
theorem withWrites_rule {step : Run Unit} {ready : Session → Prop} {bad : Trouble → Prop}
    (asks : Ends step session (fun _ mid => session.Moved mid ∧ ready mid)
      fun trouble mid => session.Moved mid ∧ bad trouble)
    (does : ∀ mid, ready mid → ∀ write ∈ mid.pending, ∀ tree, Grown (fun _ => True) mid.tree tree →
      ∀ trouble, write.Stops session.system tree trouble → bad trouble) :
    Ends (withWrites step) session
      (fun _ after => after.pending = [] ∧ session.Moved after ∧ ∃ mid, ready mid ∧ mid.Moved after)
      fun trouble after => after.pending = [] ∧ session.Moved after ∧ bad trouble := by
  have asked : Ends (attempt step) session
      (fun asked mid => session.Moved mid ∧ (asked = .ok () ∧ ready mid ∨ ∃ trouble, asked = .error trouble ∧ bad trouble))
      (fun trouble after => after.pending = [] ∧ session.Moved after ∧ bad trouble) :=
    attempt_ends (asks.mono (fun _ _ holds => ⟨holds.1, .inl ⟨rfl, holds.2⟩⟩)
      fun trouble _ stopped => ⟨stopped.1, .inr ⟨trouble, rfl, stopped.2⟩⟩)
  refine asked.bind ?_
  rintro _ between ⟨moved, ⟨rfl, isReady⟩ | ⟨trouble, rfl, isBad⟩⟩
  all_goals
    refine .get_bind (.modify_bind ?_)
    have emptied : between.Moved { between with pending := [] } := ⟨rfl, rfl, List.Subset.refl _, .refl _ _⟩
  · refine (@performAll_ends { between with pending := [] } _ between.pending rfl bad
      (moved.system ▸ does between isReady)).bind ?_
    rintro results after ⟨idle, since, each⟩
    have since := emptied.trans since
    refine (ofResults_ends results after).mono
      (fun _ _ holds => holds.1 ▸ ⟨idle, moved.trans since, between, isReady, since⟩) ?_
    rintro trouble _ ⟨rfl, failed⟩
    exact ⟨idle, moved.trans since, each trouble failed⟩
  · -- The trouble of the step itself counts, whatever becomes of the writes.
    refine (@performAll_ends { between with pending := [] } _ between.pending rfl (fun _ => True)
      fun _ _ _ _ _ _ => trivial).bind ?_
    rintro results after ⟨idle, since, -⟩
    exact .throw ⟨idle, moved.trans (emptied.trans since), isBad⟩

theorem withWrites_moves {step : Run Unit} (allowed : Trouble.Allowed stops)
    (keeps : (Session.moving stops).Keeps step) : (Session.moving stops).Keeps (withWrites step) := by
  intro session
  have asks : Ends step session
      (fun _ mid => session.Moved mid ∧ (session.Covered stops → mid.Covered stops))
      fun trouble mid => session.Moved mid ∧ (session.Covered stops → stops session.system trouble) :=
    (keeps session).mono (fun _ _ moves => moves) fun _ _ stopped => ⟨stopped.1.1, stopped.2⟩
  refine (withWrites_rule asks fun mid ready write isIn tree _ trouble stopped covered =>
    stopped.allowed allowed (ready covered write isIn)).mono ?_ ?_
  · rintro _ after ⟨idle, moved, -⟩
    exact ⟨moved, fun _ => .of_idle idle⟩
  · rintro trouble after ⟨idle, moved, reason⟩
    exact ⟨⟨moved, fun _ => .of_idle idle⟩, reason⟩

/-- If all that a step asks for can be done, it is done, unless something is not taken. -/
theorem withWrites_ends {step : Run Unit}
    (asks : Ends step session (fun _ mid => session.Moved mid ∧ mid.Poised)
      fun trouble mid => session.Moved mid ∧ session.system.Hinders trouble) :
    Ends (withWrites step) session (fun _ after => session.Moved after ∧ after.Open)
      fun trouble after => session.Moved after ∧ session.system.Hinders trouble := by
  refine (withWrites_rule asks fun mid poised write isIn tree grown trouble stopped =>
    stopped.hinders ((poised.feasible write isIn).mono grown)).mono ?_ fun _ _ stopped => stopped.2
  rintro _ after ⟨-, moved, mid, poised, since⟩
  exact ⟨moved, since.isOpen poised.isOpen⟩

end Run

end Phrasebook
