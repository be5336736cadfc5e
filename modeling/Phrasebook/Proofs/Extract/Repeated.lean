import Phrasebook.Proofs.Extract.Together
import Phrasebook.Proofs.Template.Descent.Trees

/-!
Nodes that are met again. Once a node was visited the visitors are done with it: the masking has gone on behind
its start, and the collector of keys has recorded it. Later visits keep it so, and a visit of a node that the
visitors are done with changes nothing, so an analysis does not care how often the statements are repeated.
-/

namespace Phrasebook.Extract

open Template Mask Text

/-! ### Nodes that reach behind their starts -/

/-- A block has branches, and they lie behind its start. -/
def Opens (node : Node Span) : Prop :=
  branchRanges node ≠ (none, none) ∧ ∀ branch,
    (branchRanges node).1 = some branch ∨ (branchRanges node).2 = some branch → node.label.range.start < branch.start

/-- A node goes on behind its start, and so do the branches of a block. Only a program may be empty. -/
structure Reaches (node : Node Span) : Prop where
  range : node.kind ≠ .program → node.label.range.start < node.label.range.stop
  opens : node.kind = .block → Opens node

theorem block_branches {text : Text} {chained inverted : Bool} {label : Label Extent} {call : Call Extent}
    {first : Program Extent} {second : Option (Program Extent)}
    (tiled : Statement.Tiled text chained (.block label call inverted first second)) :
    label.range.start < first.label.range.start ∧
      ∀ branch, second = some branch → label.range.start < branch.label.range.start := by
  have opens : label.range.start < first.label.range.start := tiled.1.forward
  refine ⟨opens, ?_⟩
  rintro branch rfl
  obtain ⟨-, forward, -, between, -⟩ := block_gaps tiled
  have := between.forward
  simp only [branchOf] at forward this
  omega

theorem branchRanges_present {label : Label Span} {call : Call Span} {inverted : Bool} {first : Program Span}
    {second : Option (Program Span)} :
    branchRanges (.statement (.block label call inverted first second)) ≠ (none, none) := by
  cases inverted <;> simp [branchRanges, positiveBranch, negativeBranch]

theorem branchRanges_branch {label : Label Span} {call : Call Span} {inverted : Bool} {first : Program Span}
    {second : Option (Program Span)} {branch : Span}
    (h : (branchRanges (.statement (.block label call inverted first second))).1 = some branch ∨
      (branchRanges (.statement (.block label call inverted first second))).2 = some branch) :
    branch = first.label.range ∨ ∃ other, second = some other ∧ branch = other.label.range := by
  have ofSecond (same : second.map (·.label.range) = some branch) :
      ∃ other, second = some other ∧ branch = other.label.range := by
    obtain ⟨other, isSecond, range⟩ := Option.map_eq_some_iff.mp same
    exact ⟨other, isSecond, range.symm⟩
  cases inverted with
  | false => exact h.imp (fun same => (Option.some.inj same).symm) ofSecond
  | true => exact h.symm.imp (fun same => (Option.some.inj same).symm) ofSecond

theorem isOperand_not_block {node : Node Span} (operand : isOperand node = true) : node.kind ≠ .block := by
  rcases node with p | s | e | n | p
  · cases operand
  · cases operand
  · rcases e with ⟨label, p⟩ | ⟨label, value⟩ | ⟨label, call⟩
    · simp [Node.kind]
    · cases value <;> simp [Node.kind]
    · simp [Node.kind]
  · simp [Node.kind]
  · simp [Node.kind]

theorem TiledNode.opens {text : Text} {node : Node Span} (h : TiledNode text node) (kind : node.kind = .block) :
    Opens node := by
  cases h with
  | operand operand => exact absurd kind (isOperand_not_block operand)
  | program _ => cases kind
  | @statement s chained tiled =>
    cases s with
    | block label call inverted first second =>
      obtain ⟨opens, later⟩ := block_branches tiled
      rw [Statement.mapRange]
      refine ⟨branchRanges_present, fun branch isBranch => ?_⟩
      rcases branchRanges_branch isBranch with rfl | ⟨other, isSecond, rfl⟩
      · rw [label_mapProgram]
        exact (position_lt_iff text).mpr opens
      · cases second with
        | none => cases isSecond
        | some second =>
          obtain rfl := Option.some.inj isSecond
          rw [label_mapProgram]
          exact (position_lt_iff text).mpr (later second rfl)
    | bare => exact tiled.elim
    | _ => cases kind

theorem load_reaches {source : String} {text : Text} {template : Template}
    (loaded : Template.load source text = .ok template) : ∀ node ∈ template.program.nodes, Reaches node := by
  obtain ⟨tree, parsed, rfl⟩ := load_parsed loaded
  obtain ⟨tiled, -⟩ := parse_tiled parsed
  intro node member
  refine ⟨fun notProgram => ?_, (program_tiledNodes tiled node member).opens⟩
  obtain ⟨extent, isRange, -, forward⟩ := parse_ranged parsed node member
  rw [isRange]
  exact (position_lt_iff text).mpr (forward.resolve_right fun ⟨_, isProgram⟩ => notProgram isProgram)

/-! ### Masking -/

variable {source : String} {node : Node Span} {masking next : Masking}

theorem tag_onward {span : Span} (forward : span.start < span.stop) (masked : masking.tag source span = .ok next) :
    ¬next.maskedTo < masking.maskedTo ∧ span.start < next.maskedTo := by
  unfold Masking.tag at masked
  split at masked
  · next before =>
    obtain rfl := Except.ok.inj masked
    exact ⟨Position.lt_irrefl _, before⟩
  · split at masked
    · obtain rfl := Except.ok.inj masked
      exact ⟨Position.not_later_lt, Position.lt_later_right forward⟩
    · cases masked

theorem block_onward {span : Span} {positive negative : Option Span} (present : (positive, negative) ≠ (none, none))
    (behind : ∀ branch, positive = some branch ∨ negative = some branch → span.start < branch.start)
    (masked : masking.block source span positive negative = .ok next) :
    ¬next.maskedTo < masking.maskedTo ∧ span.start < next.maskedTo := by
  unfold Masking.block at masked
  split at masked
  · next before =>
    obtain rfl := Except.ok.inj masked
    exact ⟨Position.lt_irrefl _, before⟩
  · split at masked
    · cases masked
    · obtain rfl := Except.ok.inj masked
      refine ⟨Position.not_later_lt, Position.lt_later_right ?_⟩
      cases positive with
      | none =>
        cases negative with
        | none => exact absurd rfl present
        | some second => exact behind second (.inr rfl)
      | some first =>
        cases negative with
        | none => exact behind first (.inl rfl)
        | some second => exact Position.lt_earlier (behind first (.inl rfl)) (behind second (.inr rfl))

/-- Masking is done with a node: whoever has masked as far or farther leaves the node alone. -/
def Masking.Passed (source : String) (masking : Masking) (node : Node Span) : Prop :=
  ∀ later : Masking, ¬later.maskedTo < masking.maskedTo → later.visit source node = .ok later

theorem Masking.Passed.mono (h : masking.Passed source node) (onward : ¬next.maskedTo < masking.maskedTo) :
    next.Passed source node :=
  fun later farther => h later (Position.not_lt_trans onward farther)

/-- A node that was masked is done with, and masking does not go back. -/
theorem visit_passed (reaches : Reaches node) (visited : masking.visit source node = .ok next) :
    ¬next.maskedTo < masking.maskedTo ∧ next.Passed source node := by
  have passed (onward : ¬next.maskedTo < masking.maskedTo ∧ node.label.range.start < next.maskedTo)
      (alone : ∀ later : Masking, node.label.range.start < later.maskedTo → later.visit source node = .ok later) :
      ¬next.maskedTo < masking.maskedTo ∧ next.Passed source node :=
    ⟨onward.1, fun later farther => alone later (Position.lt_of_lt_of_not_lt onward.2 farther)⟩
  cases kind : node.kind with
  | mustache | partialCall | comment | sub =>
    have tagged (masking : Masking) : masking.visit source node = masking.tag source node.label.range := by
      rw [Masking.visit, kind]
    rw [tagged] at visited
    refine passed (tag_onward (reaches.range (by simp [kind])) visited) fun later before => ?_
    rw [tagged, Masking.tag, if_pos before]
  | block =>
    have opened (masking : Masking) : masking.visit source node =
        masking.block source node.label.range (branchRanges node).1 (branchRanges node).2 := by
      rw [Masking.visit, kind]
    rw [opened] at visited
    obtain ⟨present, behind⟩ := reaches.opens kind
    refine passed (block_onward present behind visited) fun later before => ?_
    rw [opened, Masking.block.eq_def, if_pos before]
  | partialBlock | decorator | decoratorBlock =>
    rw [Masking.visit, kind] at visited
    cases visited
  | _ =>
    rw [Masking.visit, kind] at visited
    obtain rfl := Except.ok.inj visited
    exact ⟨Position.lt_irrefl _, fun later _ => by rw [Masking.visit, kind]⟩

/-! ### Visitors -/

variable {subject : Subject} {visits visits' : Visits} {findings findings' : Findings} {other : Node Span}

/-- A visitor is done with a node: masking has passed it, or its visit is recorded. -/
def Visitor.Done (source : String) (visits : Visits) (node : Node Span) : Visitor → Prop
  | .texts masking => masking.Passed source node
  | .keys => (callOf? node).isSome = true → (keyOwner, node.label.id) ∈ visits

theorem Visitor.Done.mono {visitor : Visitor} (h : visitor.Done source visits node) (more : visits ⊆ visits') :
    visitor.Done source visits' node := by
  cases visitor with
  | texts masking => exact h
  | keys => exact fun isCall => more (h isCall)

/-- A visitor that is done with a node has nothing to do. -/
theorem Visitor.Done.meet {visitor : Visitor} (h : visitor.Done subject.source visits node) :
    visitor.meet subject node visits findings = .ok (visitor, visits, findings) := by
  cases visitor with
  | texts masking =>
    rw [Visitor.meet, h masking (Position.lt_irrefl _)]
    rfl
  | keys =>
    rw [Visitor.meet]
    cases found : callOf? node with
    | none => rfl
    | some call =>
      have seen : (keyOwner, node.label.id) ∈ visits := h (by simp [found])
      simp [firstVisit, seen]

/-- A visitor that has met a node is done with it, and it stays done with other nodes. -/
theorem Visitor.meet_done {visitor visitor' : Visitor} (reaches : Reaches node)
    (met : visitor.meet subject node visits findings = .ok (visitor', visits', findings')) :
    visits ⊆ visits' ∧ visitor'.Done subject.source visits' node ∧
      ∀ other, visitor.Done subject.source visits other → visitor'.Done subject.source visits' other := by
  cases visitor with
  | texts masking =>
    obtain ⟨next, visited, done⟩ := bind_ok met
    obtain ⟨rfl, rfl, rfl⟩ := triple_inj done
    obtain ⟨onward, passed⟩ := visit_passed reaches visited
    exact ⟨List.Subset.refl _, passed, fun other before => Masking.Passed.mono before onward⟩
  | keys =>
    by_cases done : Visitor.Done subject.source visits node .keys
    · obtain ⟨rfl, rfl, -⟩ := triple_inj (done.meet.symm.trans met)
      exact ⟨List.Subset.refl _, done, fun other before => before⟩
    · obtain ⟨isCall, unseen⟩ := Classical.not_imp.mp done
      obtain ⟨call, found⟩ := Option.isSome_iff_exists.mp isCall
      have first : firstVisit visits keyOwner node.label.id = (visits ++ [(keyOwner, node.label.id)], true) := by
        simp [firstVisit, unseen]
      rw [Visitor.meet, found] at met
      simp only [first] at met
      obtain ⟨keys, -, ended⟩ := bind_ok met
      obtain ⟨rfl, rfl, -⟩ := triple_inj ended
      have more : visits ⊆ visits ++ [(keyOwner, node.label.id)] := List.subset_append_left _ _
      exact ⟨more, fun _ => List.mem_append_right _ List.mem_cons_self, fun other before => before.mono more⟩

/-- Visitors that are all done with a node have nothing to do. -/
theorem meetAll_idle {visitors : List Visitor}
    (done : ∀ visitor ∈ visitors, visitor.Done subject.source visits node) :
    meetAll subject node visits findings visitors = .ok (visitors, visits, findings) := by
  induction visitors with
  | nil => rfl
  | cons visitor rest ih =>
    obtain ⟨here, later⟩ := List.forall_mem_cons.mp done
    rw [meetAll, here.meet, ok_bind]
    dsimp only
    rw [ih later]
    rfl

theorem meetAll_done {visitors visitors' : List Visitor} (reaches : Reaches node)
    (met : meetAll subject node visits findings visitors = .ok (visitors', visits', findings')) :
    visits ⊆ visits' ∧ (∀ visitor ∈ visitors', visitor.Done subject.source visits' node) ∧
      ∀ other, (∀ visitor ∈ visitors, visitor.Done subject.source visits other) →
        ∀ visitor ∈ visitors', visitor.Done subject.source visits' other := by
  induction visitors generalizing visits findings visitors' with
  | nil =>
    obtain ⟨rfl, rfl, -⟩ := triple_inj met
    simp
  | cons visitor rest ih =>
    obtain ⟨⟨first, visits₁, findings₁⟩, metFirst, met⟩ := bind_ok met
    obtain ⟨⟨others, visits₂, findings₂⟩, metRest, ended⟩ := bind_ok met
    obtain ⟨rfl, rfl, rfl⟩ := triple_inj ended
    obtain ⟨more, firstDone, firstStays⟩ := Visitor.meet_done reaches metFirst
    obtain ⟨moreRest, restDone, restStays⟩ := ih metRest
    refine ⟨List.Subset.trans more moreRest, List.forall_mem_cons.mpr ⟨firstDone.mono moreRest, restDone⟩, fun other before => ?_⟩
    obtain ⟨here, later⟩ := List.forall_mem_cons.mp before
    exact List.forall_mem_cons.mpr ⟨(firstStays other here).mono moreRest,
      restStays other fun visitor isIn => (later visitor isIn).mono more⟩

/-! ### Walks -/

/-- All visitors of a walk are done with a node. -/
structure Walk.Done (source : String) (walk : Walk) (node : Node Span) : Prop where
  known : node.kind.isKnown = true
  visitors : ∀ visitor ∈ walk.visitors, visitor.Done source walk.visits node

variable {walk last : Walk}

theorem Walk.Done.visit (h : walk.Done subject.source node) : walk.visit subject node = .ok walk := by
  rw [Walk.visit, if_pos h.known, meetAll_idle h.visitors]
  rfl

/-- A walk that has visited a node is done with it, and it stays done with other nodes. -/
theorem Walk.visit_done (reaches : Reaches node) (visited : walk.visit subject node = .ok last) :
    last.Done subject.source node ∧ ∀ other, walk.Done subject.source other → last.Done subject.source other := by
  unfold Walk.visit at visited
  split at visited
  · next known =>
    obtain ⟨⟨visitors, visits, findings⟩, met, ended⟩ := bind_ok visited
    obtain rfl := Except.ok.inj ended
    obtain ⟨-, done, stays⟩ := meetAll_done reaches met
    exact ⟨⟨known, done⟩, fun other before => ⟨before.known, stays other before.visitors⟩⟩
  · cases visited

/-- A walk over nodes is done with all of them. -/
theorem Walk.all_done {nodes : List (Node Span)} (reaches : ∀ node ∈ nodes, Reaches node)
    (walked : nodes.foldlM (Walk.visit subject) walk = .ok last) :
    (∀ node ∈ nodes, last.Done subject.source node) ∧
      ∀ other, walk.Done subject.source other → last.Done subject.source other := by
  induction nodes generalizing walk with
  | nil =>
    obtain rfl := Except.ok.inj walked
    simp
  | cons node rest ih =>
    obtain ⟨next, visited, walked⟩ := bind_ok walked
    obtain ⟨here, later⟩ := List.forall_mem_cons.mp reaches
    obtain ⟨nodeDone, stays⟩ := Walk.visit_done here visited
    obtain ⟨restDone, restStays⟩ := ih later walked
    exact ⟨List.forall_mem_cons.mpr ⟨restStays node nodeDone, restDone⟩, fun other before =>
      restStays other (stays other before)⟩

/-- A walk goes on unchanged over nodes that it is done with. -/
theorem Walk.idle {nodes : List (Node Span)} (done : ∀ node ∈ nodes, walk.Done subject.source node) :
    nodes.foldlM (Walk.visit subject) walk = .ok walk := by
  induction nodes with
  | nil => rfl
  | cons node rest ih =>
    obtain ⟨here, later⟩ := List.forall_mem_cons.mp done
    rw [List.foldlM_cons, here.visit]
    exact ih later

/-- A walk over nodes that come several times is a walk over them once. -/
theorem Walk.repeated {nodes : List (Node Span)} (reaches : ∀ node ∈ nodes, Reaches node) (count : Nat) (walk : Walk) :
    (List.replicate (count + 1) nodes).flatten.foldlM (Walk.visit subject) walk =
      nodes.foldlM (Walk.visit subject) walk := by
  induction count with
  | zero => simp
  | succ count ih =>
    rw [List.replicate_succ', List.flatten_append, List.foldlM_append, ih]
    cases walked : nodes.foldlM (Walk.visit subject) walk with
    | error fault => rfl
    | ok last =>
      rw [List.flatten_singleton]
      exact Walk.idle (Walk.all_done reaches walked).1

/-! ### Whole analyses -/

theorem listNodes_append (first second : List (Statement Span)) :
    Statement.listNodes (first ++ second) = Statement.listNodes first ++ Statement.listNodes second := by
  induction first with
  | nil => rfl
  | cons s rest ih => rw [List.cons_append, Statement.listNodes, ih, Statement.listNodes, List.append_assoc]

theorem nodes_repeatBody (count : Nat) (program : Program Span) :
    (repeatBody count program).nodes = .program (repeatBody count program) ::
      (List.replicate count (Statement.listNodes program.body)).flatten := by
  have body : Statement.listNodes (List.replicate count program.body).flatten =
      (List.replicate count (Statement.listNodes program.body)).flatten := by
    induction count with
    | zero => rfl
    | succ count ih =>
      rw [List.replicate_succ, List.flatten_cons, listNodes_append, ih, List.replicate_succ, List.flatten_cons]
  rw [← body]
  rfl

/-- Visitors have nothing to do with a program itself. -/
theorem Walk.visit_program (walk : Walk) (program : Program Span) :
    walk.visit subject (.program program) = .ok walk := by
  refine Walk.Done.visit ⟨rfl, fun visitor _ => ?_⟩
  cases visitor with
  | texts masking => exact fun _ _ => rfl
  | keys => exact fun isCall => by cases isCall

/-- A template whose statements are repeated comes to the same end: the same fault, or the same masked buffers,
the same visits and the same findings, whatever is looked for. -/
theorem analyse_repeated {source : String} {text : Text} {template : Template}
    (loaded : Template.load source text = .ok template) (helper : Text) (aims : List Aim) {count : Nat}
    (repeated : 1 ≤ count) :
    analyseTemplate { template with program := repeatBody count template.program } helper aims =
      analyseTemplate template helper aims := by
  obtain ⟨count, rfl⟩ := Nat.exists_eq_add_of_le' repeated
  have reaches := load_reaches loaded
  have nodes : template.program.nodes = .program template.program :: Statement.listNodes template.program.body := by
    rw [ProgramOf.nodes, Statement.programNodes.eq_def]
  have inBody : ∀ node ∈ Statement.listNodes template.program.body, Reaches node :=
    fun node member => reaches node (nodes ▸ List.mem_cons_of_mem _ member)
  have same : Walk.over ⟨template.source, template.text, helper⟩ aims (repeatBody (count + 1) template.program) =
      Walk.over ⟨template.source, template.text, helper⟩ aims template.program := by
    unfold Walk.over
    refine bind_congr fun visitors => ?_
    rw [nodes_repeatBody, nodes, List.foldlM_cons, List.foldlM_cons, Walk.visit_program, Walk.visit_program]
    exact Walk.repeated inBody count _
  unfold analyseTemplate analyse
  rw [same]

/-- A block with an else branch and a call of the helper inside of it, three times over. -/
theorem analyse_repeated_block :
    1 ≤ 3 ∧ ∃ template, Template.load "page" (tagged "#if a" ++ ['x'] ++ tagged "t 'k'" ++ tagged "else" ++ ['y'] ++
        tagged "/if") = .ok template ∧
      analyseTemplate { template with program := repeatBody 3 template.program } ['t'] defaultAims =
        analyseTemplate template ['t'] defaultAims ∧
      (analyseTemplate template ['t'] defaultAims).result.toOption.map (fun found =>
        (Members.names found.1.texts, Members.names found.1.keys, found.2.length)) =
          some ([['x'], ['y']], [['k']], 1) := by
  have positive : 1 ≤ 3 := by decide
  have runs : (Template.load "page" (tagged "#if a" ++ ['x'] ++ tagged "t 'k'" ++ tagged "else" ++ ['y'] ++
      tagged "/if")).toOption.map (fun template =>
        (analyseTemplate template ['t'] defaultAims).result.toOption.map fun found =>
          (Members.names found.1.texts, Members.names found.1.keys, found.2.length)) =
        .some (.some ([['x'], ['y']], [['k']], 1)) := by
    decide +kernel
  obtain ⟨template, read, found⟩ := Option.map_eq_some_iff.mp runs
  have loaded := ok_of_toOption read
  exact ⟨positive, template, loaded, analyse_repeated loaded ['t'] defaultAims positive, found⟩

end Phrasebook.Extract
