import Phrasebook.Proofs.Extract.Keys

/-!
When an analysis ends. Whether the tags of a tree can be masked is a matter of its shape, so it stays so when
content is changed; `exists_analysed` puts this together with the texts and the calls of the helper.
-/

namespace Phrasebook

namespace Template

open Extract

/-! ### Trees whose tags can be masked -/

section Maskable

variable {ρ : Type}

/-- A block with two places for its branches, unless the one that comes first in it is empty. -/
def BranchesApart (inverted : Bool) (first : Program ρ) (second : Option (Program ρ)) : Prop :=
  ¬(inverted = true ∧ first.body = [] ∧ ∃ branch, second = some branch ∧ branch.chained = true)

mutual

/-- All tags of a statement can be masked. -/
def Statement.Maskable : Statement ρ → Prop
  | .content _ _ _ => True
  | .comment _ _ => True
  | .mustache _ _ _ => True
  | .partialCall _ _ => True
  | .decorator _ _ => False
  | .block _ _ inverted first second =>
    BranchesApart inverted first second ∧ Statement.ProgramMaskable first ∧ Statement.BranchMaskable second
  | .partialBlock _ _ _ => False
  | .decoratorBlock _ _ _ => False
  | .bare label kind => ¬Unsupported (.statement (.bare label kind))

def Statement.ProgramMaskable : ProgramOf ρ (Statement ρ) → Prop
  | ⟨_, body, _, _⟩ => Statement.ListMaskable body

def Statement.BranchMaskable : Option (ProgramOf ρ (Statement ρ)) → Prop
  | none => True
  | some branch => Statement.ProgramMaskable branch

def Statement.ListMaskable : List (Statement ρ) → Prop
  | [] => True
  | s :: rest => s.Maskable ∧ Statement.ListMaskable rest

end

/-- All tags of a tree can be masked. -/
def ProgramOf.Maskable (program : Program ρ) : Prop := Statement.ProgramMaskable program

theorem Statement.listMaskable_append {first second : List (Statement ρ)} :
    Statement.ListMaskable (first ++ second) ↔ Statement.ListMaskable first ∧ Statement.ListMaskable second := by
  induction first with
  | nil => simp [Statement.ListMaskable]
  | cons s rest ih => rw [List.cons_append, Statement.ListMaskable, ih, Statement.ListMaskable, and_assoc]

/-! ### Changed content -/

/-- Content is changed into something with tags that can be masked, and never into nothing. -/
structure OfContent.Harmless (change : OfContent ρ) : Prop where
  filled : ∀ range value written, change range value written ≠ []
  maskable : ∀ range value written, Statement.ListMaskable (change range value written)

theorem OfContent.keep_harmless : (OfContent.keep : OfContent ρ).Harmless where
  filled := by simp [OfContent.keep]
  maskable := by simp [OfContent.keep, Statement.ListMaskable, Statement.Maskable]

variable {change : OfContent ρ}

theorem Statement.shapes_filled (h : change.Harmless) (s : Statement ρ) : s.shapes change ≠ [] := by
  cases s with
  | content label value written => exact h.filled _ _ _
  | _ => simp [Statement.shapes]

theorem Statement.listShapes_eq_nil (h : change.Harmless) {body : List (Statement ρ)} :
    Statement.listShapes change body = [] ↔ body = [] := by
  cases body with
  | nil => simp [Statement.listShapes]
  | cons s rest => simp [Statement.listShapes, Statement.shapes_filled h s]

theorem branchesApart_shape (h : change.Harmless) {inverted : Bool} {first : Program ρ} {second : Option (Program ρ)} :
    BranchesApart inverted (Statement.programShape change first) (Statement.branchShape change second) ↔
      BranchesApart inverted first second := by
  obtain ⟨_, body, _, _⟩ := first
  have empty := @Statement.listShapes_eq_nil _ _ h body
  rcases second with _ | ⟨_, _, _, _⟩
  · simp [BranchesApart, Statement.branchShape]
  · simp [BranchesApart, Statement.branchShape, Statement.programShape, empty]

mutual

theorem Statement.maskable_shapes (h : change.Harmless) :
    ∀ s : Statement ρ, Statement.ListMaskable (s.shapes change) ↔ s.Maskable
  | .content label value written =>
    iff_of_true (h.maskable _ _ _) trivial
  | .comment _ _ => by simp [Statement.shapes, Statement.ListMaskable, Statement.Maskable]
  | .mustache _ _ _ => by simp [Statement.shapes, Statement.ListMaskable, Statement.Maskable]
  | .partialCall _ _ => by simp [Statement.shapes, Statement.ListMaskable, Statement.Maskable]
  | .decorator _ _ => by simp [Statement.shapes, Statement.ListMaskable, Statement.Maskable]
  | .block _ _ _ first second => by
    simp only [Statement.shapes, Statement.ListMaskable, Statement.Maskable, branchesApart_shape h,
      Statement.programMaskable_shape h first, Statement.branchMaskable_shape h second, and_true]
  | .partialBlock _ _ _ => by simp [Statement.shapes, Statement.ListMaskable, Statement.Maskable]
  | .decoratorBlock _ _ _ => by simp [Statement.shapes, Statement.ListMaskable, Statement.Maskable]
  | .bare _ _ => by simp [Statement.shapes, Statement.ListMaskable, Statement.Maskable, Unsupported, Node.kind]

theorem Statement.programMaskable_shape (h : change.Harmless) : ∀ program : ProgramOf ρ (Statement ρ),
    Statement.ProgramMaskable (Statement.programShape change program) ↔ Statement.ProgramMaskable program
  | ⟨_, body, _, _⟩ => Statement.listMaskable_shapes h body

theorem Statement.branchMaskable_shape (h : change.Harmless) : ∀ second : Option (ProgramOf ρ (Statement ρ)),
    Statement.BranchMaskable (Statement.branchShape change second) ↔ Statement.BranchMaskable second
  | none => .rfl
  | some branch => Statement.programMaskable_shape h branch

theorem Statement.listMaskable_shapes (h : change.Harmless) : ∀ body : List (Statement ρ),
    Statement.ListMaskable (Statement.listShapes change body) ↔ Statement.ListMaskable body
  | [] => .rfl
  | s :: rest => by
    rw [Statement.listShapes, Statement.listMaskable_append, Statement.maskable_shapes h s,
      Statement.listMaskable_shapes h rest, Statement.ListMaskable]

end

/-- Tags can be masked after a change of content if they could before. -/
theorem ProgramOf.maskable_edited (h : change.Harmless) (program : Program ρ) :
    (program.edited change).Maskable ↔ program.Maskable :=
  Statement.programMaskable_shape h program

end Maskable

/-! ### Nodes -/

theorem forall_mem_nodes_block {label : Label Span} {call : Call Span} {inverted : Bool} {first : Program Span}
    {second : Option (Program Span)} {P : Node Span → Prop} :
    (∀ node ∈ Statement.nodes (.block label call inverted first second), P node) ↔
      P (.statement (.block label call inverted first second)) ∧ (∀ node ∈ Expr.callNodes call, P node) ∧
        (∀ node ∈ Statement.programNodes first, P node) ∧
        ∀ branch, second = some branch → ∀ node ∈ Statement.programNodes branch, P node := by
  have visited (node : Node Span) := (((branchesInOrder_perm Prod.fst inverted
    (first.start, Statement.programNodes first) (Statement.branchNodes second)).map Prod.snd).flatten).mem_iff (a := node)
  rw [Statement.nodes, List.forall_mem_cons, List.forall_mem_append]
  simp only [visited]
  cases second with
  | none => simp [Statement.branchNodes]
  | some branch => simp [Statement.branchNodes, or_imp, forall_and]

section Nodes

variable {ρ : Type} (f : ρ → Span)

theorem callNodes_maskable (call : Call ρ) :
    ∀ node ∈ Expr.callNodes (Expr.mapCall f call), ¬Clashes node ∧ ¬Unsupported node :=
  fun _ member => isOperand_maskable (callNodes_mapCall member).1

mutual

theorem Statement.maskable_nodes : ∀ s : Statement ρ,
    (∀ node ∈ (s.mapRange f).nodes, ¬Clashes node ∧ ¬Unsupported node) ↔ s.Maskable
  | .content _ _ _ => by simp [Statement.mapRange, Statement.nodes, Statement.Maskable, Clashes, Unsupported, Node.kind]
  | .comment _ _ => by simp [Statement.mapRange, Statement.nodes, Statement.Maskable, Clashes, Unsupported, Node.kind]
  | .mustache _ call _ => by
    rw [Statement.mapRange, Statement.nodes, List.forall_mem_cons]
    exact iff_of_true ⟨by simp [Clashes, Unsupported, Node.kind], callNodes_maskable f call⟩ trivial
  | .partialCall _ call => by
    rw [Statement.mapRange, Statement.nodes, List.forall_mem_cons]
    exact iff_of_true ⟨by simp [Clashes, Unsupported, Node.kind], callNodes_maskable f call⟩ trivial
  | .decorator _ _ => by
    rw [Statement.mapRange, Statement.nodes, List.forall_mem_cons]
    exact iff_of_false (fun h => h.1.2 (.inr (.inl rfl))) id
  | .partialBlock _ _ _ => by
    rw [Statement.mapRange, Statement.nodes, List.forall_mem_cons]
    exact iff_of_false (fun h => h.1.2 (.inl rfl)) id
  | .decoratorBlock _ _ _ => by
    rw [Statement.mapRange, Statement.nodes, List.forall_mem_cons]
    exact iff_of_false (fun h => h.1.2 (.inr (.inr rfl))) id
  | .bare _ _ => by
    simp [Statement.mapRange, Statement.nodes, Statement.Maskable, Clashes, Unsupported, Node.kind]
  | .block label call inverted first second => by
    have here : (¬Clashes (.statement (Statement.mapRange f (.block label call inverted first second))) ∧
        ¬Unsupported (.statement (Statement.mapRange f (.block label call inverted first second)))) ↔
          BranchesApart inverted first second := by
      rw [clashes_mapRange]
      exact and_iff_left (by simp [Unsupported, Statement.mapRange, Node.kind])
    rw [Statement.mapRange] at here ⊢
    rw [forall_mem_nodes_block, here, and_iff_right (callNodes_maskable f call), Statement.programMaskable_nodes first,
      Statement.Maskable]
    refine and_congr .rfl (and_congr .rfl ?_)
    cases second with
    | none => simp [Statement.BranchMaskable, Statement.mapBranch]
    | some branch =>
      simp only [Statement.mapBranch, Option.some.injEq, forall_eq', Statement.programMaskable_nodes branch,
        Statement.BranchMaskable]

theorem Statement.programMaskable_nodes : ∀ program : ProgramOf ρ (Statement ρ),
    (∀ node ∈ Statement.programNodes (Statement.mapProgram f program), ¬Clashes node ∧ ¬Unsupported node) ↔
      Statement.ProgramMaskable program
  | ⟨_, body, _, _⟩ => by
    rw [Statement.mapProgram, Statement.programNodes, List.forall_mem_cons, Statement.listMaskable_nodes body,
      Statement.ProgramMaskable]
    exact and_iff_right ⟨id, by simp [Unsupported, Node.kind]⟩

theorem Statement.listMaskable_nodes : ∀ body : List (Statement ρ),
    (∀ node ∈ Statement.listNodes (Statement.mapList f body), ¬Clashes node ∧ ¬Unsupported node) ↔
      Statement.ListMaskable body
  | [] => by simp [Statement.mapList, Statement.listNodes, Statement.ListMaskable]
  | s :: rest => by
    rw [Statement.mapList, Statement.listNodes, List.forall_mem_append, Statement.maskable_nodes s,
      Statement.listMaskable_nodes rest, Statement.ListMaskable]

end

/-- The tags of a tree can be masked if no node stops the masking. -/
theorem ProgramOf.maskable_nodes (program : Program ρ) :
    (∀ node ∈ (program.mapRange f).nodes, ¬Clashes node ∧ ¬Unsupported node) ↔ program.Maskable :=
  Statement.programMaskable_nodes f program

end Nodes

end Template

namespace Extract

open Template Mask Markup Text

/-! ### Keys -/

theorem exists_collectAt {source : String} {helper : Text} (keys : Keys) {node : Node Span}
    (used : WellUsed helper (callsAt [node])) : ∃ keys', collectAt source helper keys node = .ok keys' := by
  unfold collectAt
  split
  · exact ⟨keys, rfl⟩
  · next call found =>
    unfold collectKey
    split
    · next isCall =>
      rw [callsAt_cons_some found] at used
      obtain ⟨key, hasKey⟩ := used _ List.mem_cons_self (callsHelper_iff.mp isCall)
      rw [keyOf?_iff.mpr hasKey]
      exact ⟨_, rfl⟩
    · exact ⟨keys, rfl⟩

theorem exists_collectAll {source : String} {helper : Text} (keys : Keys) {nodes : List (Node Span)}
    (used : WellUsed helper (callsAt nodes)) : ∃ keys', nodes.foldlM (collectAt source helper) keys = .ok keys' := by
  induction nodes generalizing keys with
  | nil => exact ⟨keys, rfl⟩
  | cons node rest ih =>
    rw [callsAt_cons] at used
    obtain ⟨here, later⟩ := wellUsed_append.mp used
    obtain ⟨next, step⟩ := @exists_collectAt source helper keys node here
    rw [List.foldlM_cons, step]
    exact ih next later

/-! ### Whole analyses -/

/-- A template without reserved characters is analysed if its tags can be masked, its masked text can be read, the
references in its texts are short enough, and every call of the helper has a key. -/
theorem exists_analysed {source : String} {text helper : Text} {tree : Program Extent} {runs : List TextRun}
    (parsed : parse text = .ok tree) (ordinary : ∀ c ∈ text, isReserved c = false) (maskable : tree.Maskable)
    (read : textRuns (maskedTiles text tree.tiles) = .ok runs)
    (keyed : ∀ extent ∈ textExtents runs, ∃ key, unescape (text.slice extent.start extent.stop) = .ok key)
    (used : WellUsed helper tree.calls) :
    ∃ findings, Analysed helper ⟨source, text, tree.mapRange text.span⟩ findings := by
  obtain ⟨tiled, range, -⟩ := parse_tiled parsed
  have known : ∀ node ∈ (tree.mapRange text.span).nodes, node.kind.isKnown = true := program_known tiled
  -- The tags are masked,
  have masked : ∃ maskedTo, visitAll source ⟨text.lines, ⟨0, 0⟩⟩ (tree.mapRange text.span).nodes =
      .ok ⟨(maskedTiles text tree.tiles).lines, maskedTo⟩ := by
    have run := tree_run source tiled range
    generalize visitAll source ⟨text.lines, ⟨0, 0⟩⟩ (tree.mapRange text.span).nodes = result at run
    cases run with
    | done reached others => exact ⟨_, rfl⟩
    | stopped member stops =>
      obtain ⟨apart, supported⟩ := (tree.maskable_nodes text.span).mpr maskable _ member
      cases stops with
      | clash h => exact absurd h apart
      | unsupported h => exact absurd h supported
  obtain ⟨maskedTo, masked⟩ := masked
  -- the texts recorded,
  have recorded : ∃ texts, readTexts source text.lines (maskedTiles text tree.tiles).lines [] = .ok texts := by
    rw [readTexts_eq source [] ordinary (parse_tilesFrom parsed), read]
    rcases records_end source text [] (textExtents runs) with ⟨found, -⟩ | ⟨-, extent, member, long, failed⟩
    · exact found
    · obtain ⟨key, isKey⟩ := keyed extent member
      rw [isKey] at failed
      cases failed
  obtain ⟨texts, recorded⟩ := recorded
  -- and the keys collected.
  obtain ⟨keys, collected⟩ := @exists_collectAll source helper [] (tree.mapRange text.span).nodes
    ((wellUsed_congr (callsAt_mapRange tree text)).mpr (by rwa [ProgramOf.calls_mapRange]))
  have met : (tree.mapRange text.span).nodes.foldlM (meetKeys ⟨source, text, helper⟩) ([], []) =
      .ok ([] ++ visitsOf (tree.mapRange text.span).nodes, keys) := by
    rw [meetAllKeys_fresh (fresh_nodes parsed), collected]
    rfl
  have done : analyse ⟨source, text, helper⟩ defaultAims (tree.mapRange text.span) =
      ⟨[(maskedTiles text tree.tiles).lines], .ok (⟨texts, keys⟩, _)⟩ :=
    (analyse_apart (by decide)).mpr
      ⟨known, ⟨_, _, start_ordinary ordinary, masked, rfl, recorded⟩, met⟩
  refine ⟨⟨texts, keys⟩, ?_, _, congrArg Outcome.result done⟩
  rw [Template.load, parsed]

theorem recordAll_named {source : String} {text : Text} {extents : List Extent} {texts found : Texts}
    (recorded : extents.foldlM (recordAt source text) texts = .ok found) : ∀ key ∈ Members.names found,
      key ∈ Members.names texts ∨ ∃ extent ∈ extents, unescape (text.slice extent.start extent.stop) = .ok key := by
  induction extents generalizing texts with
  | nil => exact fun key member => .inl (Except.ok.inj recorded ▸ member)
  | cons extent rest ih =>
    obtain ⟨next, step, later⟩ := bind_ok recorded
    intro key member
    rcases ih later key member with before | ⟨other, isRest, isKey⟩
    · unfold recordAt at step
      split at step
      · cases step
      · next key' isKey =>
        obtain rfl := Except.ok.inj step
        rcases Members.mem_names_alter before with known | rfl
        · exact .inl known
        · exact .inr ⟨extent, List.mem_cons_self, isKey⟩
    · exact .inr ⟨other, List.mem_cons_of_mem _ isRest, isKey⟩

/-- What an analysis that ended has read, and what it found there. -/
structure AnalysedFrom (helper : Text) (template : Template) (findings : Findings) (tree : Program Extent)
    (runs : List TextRun) : Prop where
  parsed : parse template.text = .ok tree
  program : template.program = tree.mapRange template.text.span
  ordinary : ∀ c ∈ template.text, isReserved c = false
  maskable : tree.Maskable
  read : textRuns (maskedTiles template.text tree.tiles) = .ok runs
  recorded : Recorded template.source template.text (textExtents runs) findings.texts
  named : ∀ key ∈ Members.names findings.texts,
    ∃ extent ∈ textExtents runs, unescape (template.text.slice extent.start extent.stop) = .ok key
  used : WellUsed helper tree.calls
  keys : ∀ key, key ∈ Members.names findings.keys ↔ Uses helper tree.calls key

theorem Analysed.reading {helper : Text} {template : Template} {findings : Findings}
    (h : Analysed helper template findings) : ∃ tree runs, AnalysedFrom helper template findings tree runs := by
  obtain ⟨used, keys⟩ := h.keys
  obtain ⟨loaded, visits, done⟩ := h
  obtain ⟨tree, parsed, eq⟩ := load_parsed loaded
  have program : template.program = tree.mapRange template.text.span := congrArg Template.program eq
  rw [program, ProgramOf.calls_mapRange] at used keys
  rw [eq] at done
  obtain ⟨-, ordinary, runs, read, recorded⟩ := analyse_recorded parsed (by decide) done
  obtain ⟨-, ⟨first, last, started, visited, -, texts⟩, -⟩ := (analyse_apart (by decide)).mp (Outcome.eq_of_result done)
  obtain ⟨tiled, range, -⟩ := parse_tiled parsed
  have run := tree_run template.source tiled range
  rw [start_ordinary ordinary] at started
  obtain rfl := Except.ok.inj started
  rw [visited] at run
  cases run with
  | done reached maskable =>
    refine ⟨tree, runs, parsed, program, ordinary, (tree.maskable_nodes template.text.span).mp maskable, read, recorded,
      ?_, used, keys⟩
    rw [readTexts_eq template.source [] ordinary (parse_tilesFrom parsed), read] at texts
    exact fun key member => (recordAll_named texts key member).resolve_left List.not_mem_nil

theorem Analysed.reading_of {helper : Text} {template : Template} {findings : Findings} {tree : Program Extent}
    {runs : List TextRun} (h : Analysed helper template findings) (parsed : parse template.text = .ok tree)
    (read : textRuns (maskedTiles template.text tree.tiles) = .ok runs) :
    AnalysedFrom helper template findings tree runs := by
  obtain ⟨tree', runs', from_⟩ := h.reading
  obtain rfl := Except.ok.inj (parsed.symm.trans from_.parsed)
  obtain rfl := Except.ok.inj (read.symm.trans from_.read)
  exact from_

end Extract

end Phrasebook
