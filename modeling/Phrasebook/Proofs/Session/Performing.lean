import Phrasebook.Proofs.Files.Skeleton
import Phrasebook.Proofs.Session.Writing

/-!
# Writes that were done

Writes to files that are there, no two to the same one, leave a tree in which these files hold what was to be written
and nothing else differs.
-/

namespace Phrasebook

open Files
open FileTree (Rewritten)

/-- A file with its new bytes is what a write makes. -/
def Write.Makes (write : Write) (file : Path × ByteArray) : Prop :=
  file.1 = write.target ∧ ∃ contents, write.contents = .ok contents ∧ Encoding.encodePoints contents = .ok file.2

/-- A write to a file that stands at the place that it names. -/
def Write.Lands (tree : FileTree) (write : Write) : Prop := tree.locate write.target = .ok write.target ∧
  ∃ bytes, tree.find write.target = .ok (.file bytes)

/-- Writes were done, and nothing else. -/
def Performed (writes : List Write) (before after : FileTree) : Prop :=
  ∃ files, List.Forall₂ Write.Makes writes files ∧ Rewritten files before after

variable {writes : List Write} {before after : FileTree}

theorem names_of_makes {files : List (Path × ByteArray)} (each : List.Forall₂ Write.Makes writes files) :
    Members.names files = writes.map Write.target := by
  induction each with
  | nil => rfl
  | cons makes _ ih => exact congrArg₂ _ makes.1 ih

namespace Performed

theorem alike (performed : Performed writes before after) : after.skeleton = before.skeleton := by
  obtain ⟨files, -, rewritten⟩ := performed
  exact rewritten.alike

/-- What was written is read. -/
theorem read_written (performed : Performed writes before after) {write : Write} (isWrite : write ∈ writes)
    (located : before.locate write.target = .ok write.target) {present : ByteArray}
    (read : before.read write.target = .ok present) {contents : CodePoints} (known : write.contents = .ok contents) :
    ∃ bytes, Encoding.encodePoints contents = .ok bytes ∧ after.read write.target = .ok bytes := by
  obtain ⟨files, each, rewritten⟩ := performed
  obtain ⟨⟨place, bytes⟩, isFile, target, contents', known', encoded⟩ : ∃ file ∈ files, write.Makes file := by
    clear rewritten
    induction each with
    | nil => cases isWrite
    | cons makes _ ih =>
      rcases List.mem_cons.mp isWrite with rfl | later
      · exact ⟨_, List.mem_cons_self, makes⟩
      · obtain ⟨file, isFile, makes⟩ := ih later
        exact ⟨file, List.mem_cons_of_mem _ isFile, makes⟩
  obtain rfl := Except.ok.inj (known.symm.trans known')
  dsimp only at target
  subst target
  exact ⟨bytes, encoded, rewritten.read_written isFile located read⟩

/-- Elsewhere the same is read, or refused. -/
theorem read_kept (performed : Performed writes before after) {path : Path}
    (apart : ∀ place, before.locate path = .ok place → ∀ write ∈ writes, write.target ≠ place) :
    after.read path = before.read path := by
  obtain ⟨files, each, rewritten⟩ := performed
  refine rewritten.read_kept fun place located isFile => ?_
  rw [names_of_makes each] at isFile
  obtain ⟨write, isWrite, same⟩ := List.mem_map.mp isFile
  exact apart place located write isWrite same

end Performed

namespace Run

variable {session : Session} {files : List (Path × ByteArray)} {origin : FileTree}

/-- A write that is done rewrites its file. -/
theorem perform_rewrites {write : Write} (rewritten : Rewritten files origin session.tree) (lands : write.Lands origin)
    (fresh : write.target ∉ Members.names files) :
    Ends (perform write) session
      (fun _ after => ∃ file, write.Makes file ∧ Rewritten (files ++ [file]) origin after.tree) fun _ _ => True := by
  obtain ⟨located, present, stands⟩ := lands
  have there := rewritten.kept _ _ fresh stands
  have found := FileTree.locate_ok_iff.mp ((FileTree.locate_alike rewritten.alike _).trans located)
  unfold perform
  split
  · exact .throw trivial
  · next contents known =>
    refine .get_bind ?_
    split
    · next bytes encoded =>
      refine Ends.bind (operate_ends ((FileOperation.write_ends _ _ bytes).mono (fun _ now written => ?_)
        fun _ _ _ => trivial)) fun _ _ done => .pure done
      obtain ⟨-, place, rfl, vacant | ⟨found', -⟩⟩ := FileTree.write_ok written
      · cases vacant.symm.trans found
      · obtain rfl := FileTree.Lead.found.inj (found'.symm.trans found)
        exact ⟨(_, _), ⟨rfl, contents, known, encoded⟩, rewritten.put fresh there bytes⟩
    · exact (Ends.any _ _).bind fun _ _ _ => .throw trivial

/-- If all writes are done, their files are rewritten. -/
theorem performAll_rewrites (rewritten : Rewritten files origin session.tree) (lands : ∀ write ∈ writes, write.Lands origin)
    (distinct : (Members.names files ++ writes.map Write.target).Nodup) :
    Ends (writes.mapM fun write => attempt (perform write)) session
      (fun results after => (∀ result ∈ results, ∃ path, result = .ok path) →
        ∃ more, List.Forall₂ Write.Makes writes more ∧ Rewritten (files ++ more) origin after.tree) fun _ _ => True := by
  induction writes generalizing files session with
  | nil => exact .pure fun _ => ⟨[], .nil, by rwa [List.append_nil]⟩
  | cons write rest ih =>
    obtain ⟨landsHere, lands⟩ := List.forall_mem_cons.mp lands
    have fresh : write.target ∉ Members.names files := fun isIn =>
      (List.nodup_append.mp distinct).2.2 _ isIn _ List.mem_cons_self rfl
    rw [List.mapM_cons]
    have first : Ends (attempt (perform write)) session (fun result mid => ∀ path, result = .ok path →
        ∃ file, write.Makes file ∧ Rewritten (files ++ [file]) origin mid.tree) fun _ _ => True :=
      attempt_ends ((perform_rewrites rewritten landsHere fresh).mono (fun _ _ done _ _ => done) fun _ _ _ _ same => (by cases same))
    refine first.bind fun result mid done => ?_
    cases result with
    | error trouble =>
      -- Then not all of them are done.
      refine (Ends.any _ _).bind fun results after _ => .pure fun all => ?_
      obtain ⟨_, failed⟩ := all _ List.mem_cons_self
      cases failed
    | ok path =>
      obtain ⟨file, makes, now⟩ := done path rfl
      have following : (Members.names (files ++ [file]) ++ rest.map Write.target).Nodup := by
        rw [Members.names, List.map_append, List.append_assoc, List.map_singleton, makes.1, List.singleton_append]
        exact distinct
      refine (ih now lands following).bind fun results after later => .pure fun all => ?_
      obtain ⟨more, each, last⟩ := later fun other isIn => all other (List.mem_cons_of_mem _ isIn)
      rw [List.append_assoc, List.singleton_append] at last
      exact ⟨file :: more, .cons makes each, last⟩

/-- If a step asks for writes to files that are there, and ends well, they are done. -/
theorem withWrites_performs {step : Run Unit} (lands : ∀ write ∈ writes, write.Lands session.tree)
    (distinct : (writes.map Write.target).Nodup)
    (asks : Ends step session (fun _ mid => mid.tree = session.tree ∧ mid.pending = writes) fun _ _ => True) :
    Ends (withWrites step) session (fun _ after => Performed writes session.tree after.tree) fun _ _ => True := by
  have asked : Ends (attempt step) session
      (fun asked mid => asked = .ok () → mid.tree = session.tree ∧ mid.pending = writes) fun _ _ => True :=
    attempt_ends (asks.mono (fun _ _ holds _ => holds) fun _ _ _ same => (by cases same))
  refine asked.bind fun result mid holds => .get_bind (.modify_bind ?_)
  cases result with
  | error trouble => exact (Ends.any _ _).bind fun _ _ _ => .throw trivial
  | ok nothing =>
    obtain ⟨same, pending⟩ := holds rfl
    rw [pending]
    have start : Rewritten [] session.tree ({ mid with pending := [] } : Session).tree := by
      rw [same]
      exact .refl _
    refine (performAll_rewrites start lands distinct).bind fun results after done => ?_
    refine (ofResults_ends results after).mono ?_ fun _ _ _ => trivial
    rintro paths _ ⟨rfl, rfl⟩
    refine done fun result isIn => ?_
    obtain ⟨path, -, rfl⟩ := List.mem_map.mp isIn
    exact ⟨path, rfl⟩

end Run

end Phrasebook
