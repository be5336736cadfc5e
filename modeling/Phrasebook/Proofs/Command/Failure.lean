import Phrasebook.Proofs.Command.Endings

/-!
# What a run that fails leaves

A run that fails leaves the files as they were where its recorders do not write, with two exceptions: a
catalog whose path in its theme does not lead to its file, and an update that is hindered.
-/

namespace Phrasebook.Command

open Files Record Theme
open FileTree (Grown)

variable {settings : Settings} {seen : FileTree → Prop} {system : System} {trouble : Trouble}

/-- What hinders an update: the system does not take what is written, a catalog that was read is not whole, or
the output cannot show a line. -/
inductive Hindered (settings : Settings) (seen : FileTree → Prop) (system : System) : Trouble → Prop where
  | denied {fault : Files.Fault} (denied : system.disk.Denies fault) : Hindered settings seen system (.files fault)
  | half {fault : Encoding.Unencodable} (half : HalfRead settings seen) : Hindered settings seen system (.unencodable fault)
  | line {trouble : Trouble} (objects : system.Objects trouble) : Hindered settings seen system trouble

theorem hindered_of_hinders (hinders : system.Hinders trouble)
    (escapes : ∀ fault, trouble = .unencodable fault → Escapes settings seen system trouble) :
    Hindered settings seen system trouble := by
  cases hinders with
  | denied denied => exact .denied denied
  | line objects => exact .line objects
  | unencodable fault =>
    cases escapes fault rfl with
    | template _ _ _ _ unhandled => cases unhandled
    | half half => exact .half half
    | line objects => exact .line objects

theorem run_escapes {machine : Machine} {words : List String} {tree : FileTree} {session : Session}
    {invocation : Invocation} (ran : run machine words tree = (.broken trouble, session))
    (read : Invocation.read words = .ok invocation)
    (loaded : Settings.load tree machine.here machine.processors
      (Path.startingAt machine.here invocation.theme) invocation.overrides = .ok settings) :
    (∃ fault, trouble = .files fault) ∨ Escapes settings (Grown session.Records tree) machine.system trouble := by
  unfold run at ran
  simp only [read] at ran
  have ends := @runInvocation_ends { tree, system := machine.system } machine invocation rfl
  split at ran
  · cases ran
  · next _ last finished =>
    obtain ⟨rfl, rfl⟩ : _ ∧ _ := by simpa using ran
    rcases ends.onError _ last finished with ⟨fault, same, -⟩ | ⟨settings', loaded', escapes⟩
    · exact .inl ⟨fault, same⟩
    · obtain rfl := Except.ok.inj (loaded'.symm.trans loaded)
      exact .inr escapes

/-- A run that does not succeed leaves every file as it was, unless its recorders write there, a catalog was
read whose path in its theme does not lead to its file, or an update breaks off because it is hindered. -/
theorem run_failed_unchanged {machine : Machine} {words : List String} {tree : FileTree} {ending : Ending}
    {session : Session} (ran : run machine words tree = (ending, session)) (failed : ending ≠ .exit 0) :
    (∀ path place bytes, tree.locate path = .ok place → tree.read path = .ok bytes → ¬session.Records place →
      session.tree.read path = .ok bytes) ∨
      ∃ invocation settings, Invocation.read words = .ok invocation ∧ "update" ∈ invocation.flags ∧
        Settings.load tree machine.here machine.processors
          (Path.startingAt machine.here invocation.theme) invocation.overrides = .ok settings ∧
        (Astray settings (Grown session.Records tree) ∨ ∃ trouble, ending = .broken trouble ∧
          Hindered settings (Grown session.Records tree) machine.system trouble) := by
  rcases run_leaves ran with frame | ⟨invocation, settings, read, loaded, left⟩
  · exact .inl fun path place bytes => frame.read_apart
  · cases left with
    | framed frame => exact .inl fun path place bytes => frame.read_apart
    | updated asked success => exact absurd success failed
    | astray asked astray => exact .inr ⟨invocation, settings, read, asked, loaded, .inl astray⟩
    | hindered asked hindrance =>
      obtain ⟨trouble, rfl, hinders⟩ := hindrance
      refine .inr ⟨invocation, settings, read, asked, loaded, .inr ⟨trouble, rfl, ?_⟩⟩
      refine hindered_of_hinders hinders ?_
      rintro fault rfl
      exact (run_escapes ran read loaded).resolve_left fun ⟨_, same⟩ => by cases same

/-- A catalog that is a link out of its theme: the update fails when the template is written already. -/
theorem run_failed_unchanged_astray :
    ∃ tree session invocation settings,
      run ⟨["w"], 1, ⟨"run", "now"⟩, .sound⟩ ["find", "theme", "--update"] tree = (.exit 2, session) ∧
      tree.read ["w", "theme", "a.hbs"] = .ok (Encoding.encode "<p>Hello</p>".toList) ∧
      session.tree.read ["w", "theme", "a.hbs"] =
        .ok (Encoding.encode ("<p>".toList ++ wrap ['t'] "Hello".toList ++ "</p>".toList)) ∧
      Invocation.read ["find", "theme", "--update"] = .ok invocation ∧
      Settings.load tree ["w"] 1 (Path.startingAt ["w"] invocation.theme) invocation.overrides = .ok settings ∧
      Astray settings (Grown session.Records tree) := by
  obtain ⟨tree, isTree⟩ : ∃ tree : FileTree, .directory [("w", .directory [
      ("theme", .directory [("a.hbs", .file (Encoding.encode "<p>Hello</p>".toList)),
        ("locales", .directory [("fr.json", .link "../../outside/fr.json")])]),
      ("outside", .directory [("fr.json", .file (Encoding.encode ['\x7b', '\x7d']))])])] = tree := ⟨_, rfl⟩
  have before : tree.locate ["w", "theme", "a.hbs"] = .ok ["w", "theme", "a.hbs"] ∧
      tree.read ["w", "theme", "a.hbs"] = .ok (Encoding.encode "<p>Hello</p>".toList) := by
    rw [← isTree]
    decide +kernel
  have after : (run ⟨["w"], 1, ⟨"run", "now"⟩, .sound⟩ ["find", "theme", "--update"] tree).1 = .exit 2 ∧
      (run ⟨["w"], 1, ⟨"run", "now"⟩, .sound⟩ ["find", "theme", "--update"] tree).2.recorders = [] ∧
      (run ⟨["w"], 1, ⟨"run", "now"⟩, .sound⟩ ["find", "theme", "--update"] tree).2.tree.read ["w", "theme", "a.hbs"] =
        .ok (Encoding.encode ("<p>".toList ++ wrap ['t'] "Hello".toList ++ "</p>".toList)) := by
    rw [← isTree]
    decide +kernel
  rcases ran : run ⟨["w"], 1, ⟨"run", "now"⟩, .sound⟩ ["find", "theme", "--update"] tree with ⟨ending, session⟩
  rw [ran] at after
  obtain ⟨rfl, noRecorders, changed⟩ := after
  have apart : ¬session.Records ["w", "theme", "a.hbs"] := by
    rintro ⟨recorder, isIn, -⟩
    rw [noRecorders] at isIn
    cases isIn
  rcases run_failed_unchanged ran (by decide) with unchanged | ⟨invocation, settings, read, -, loaded, astray | ⟨_, broken, -⟩⟩
  · have same := unchanged _ _ _ before.1 before.2 apart
    rw [changed] at same
    exact absurd same (by decide +kernel)
  · exact ⟨tree, session, invocation, settings, ran, before.2, changed, read, loaded, astray⟩
  · cases broken

end Phrasebook.Command
