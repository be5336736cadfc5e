import Phrasebook.Proofs.Extract.Halting
import Phrasebook.Proofs.Template.Numbers

/-!
The order in which a walk meets the nodes of a template. A walk meets a node and then walks from each
of its children in turn; `ProgramOf.walked` says that `ProgramOf.nodes` lists what such a walk meets,
and `load_walked` that it meets every node that was numbered, once and behind its parent.
-/

namespace Phrasebook.Template

/-! ### Walks -/

mutual

/-- What a walk from a node meets: the node, then what walks from its children meet. -/
inductive Walked : Node Span → List (Node Span) → Prop where
  | node {node : Node Span} {below : List (Node Span)} (children : WalkedAll node.children below) :
    Walked node (node :: below)

/-- What walks from several nodes meet, one after the other. -/
inductive WalkedAll : List (Node Span) → List (Node Span) → Prop where
  | nil : WalkedAll [] []
  | cons {node : Node Span} {rest met later : List (Node Span)} (first : Walked node met)
    (others : WalkedAll rest later) : WalkedAll (node :: rest) (met ++ later)

end

theorem WalkedAll.single {node : Node Span} {met : List (Node Span)} (h : Walked node met) :
    WalkedAll [node] met := by
  simpa using WalkedAll.cons h .nil

theorem WalkedAll.append {first second met later : List (Node Span)} (h : WalkedAll first met)
    (h' : WalkedAll second later) : WalkedAll (first ++ second) (met ++ later) := by
  induction first generalizing met with
  | nil =>
    cases h
    exact h'
  | cons node rest ih =>
    cases h with
    | cons here others =>
      rw [List.cons_append, List.append_assoc]
      exact .cons here (ih others)

/-! ### The nodes of a tree -/

mutual

theorem Expr.walked : ∀ e : Expr Span, Walked (.expr e) e.nodes
  | .path _ _ => .node .nil
  | .literal _ _ => .node .nil
  | .sub _ call => .node (Expr.call_walked call)

theorem Expr.call_walked :
    ∀ call : CallOf Span (Expr Span), WalkedAll (CallOf.children call) (Expr.callNodes call)
  | ⟨callee, params, named⟩ => by
    rw [Expr.callNodes, List.append_assoc]
    exact .cons (Expr.walked callee) ((Expr.list_walked params).append (Expr.named_walked named))

theorem Expr.list_walked :
    ∀ list : List (Expr Span), WalkedAll (list.map .expr) (Expr.listNodes list)
  | [] => .nil
  | e :: rest => .cons (Expr.walked e) (Expr.list_walked rest)

theorem Expr.named_walked : ∀ named : Option (NamedArgs Span (Expr Span)),
    WalkedAll (named.map Node.named).toList (Expr.namedNodes named)
  | none => .nil
  | some ⟨_, pairs⟩ => .single (.node (Expr.pairs_walked pairs))

theorem Expr.pairs_walked : ∀ pairs : List (NamedArg Span (Expr Span)),
    WalkedAll (pairs.map .pair) (Expr.pairNodes pairs)
  | [] => .nil
  | ⟨label, name, value⟩ :: rest =>
    have here : Walked (.pair ⟨label, name, value⟩) (.pair ⟨label, name, value⟩ :: value.nodes) :=
      .node (.single (Expr.walked value))
    .cons here (Expr.pairs_walked rest)

end

/-- The branches of a block come with their nodes in the order in which they come alone. -/
theorem branchesInOrder_nodes (inverted : Bool) (first : Program Span) (second : Option (Program Span)) :
    branchesInOrder Prod.fst inverted (first.start, Statement.programNodes first)
        (Statement.branchNodes second) =
      (branchesInOrder ProgramOf.start inverted first second).map fun branch =>
        (branch.start, Statement.programNodes branch) := by
  cases second with
  | none => cases inverted <;> rfl
  | some branch =>
    cases inverted <;>
      simp only [Statement.branchNodes, branchesInOrder, positiveBranch, negativeBranch,
        Bool.false_eq_true, if_true, if_false] <;>
      split <;> rfl

theorem WalkedAll.branches {branches : List (Program Span)}
    (h : ∀ branch ∈ branches, Walked (.program branch) (Statement.programNodes branch)) :
    WalkedAll (branches.map .program) (branches.map Statement.programNodes).flatten := by
  induction branches with
  | nil => exact .nil
  | cons branch rest ih =>
    obtain ⟨here, later⟩ := List.forall_mem_cons.mp h
    exact .cons here (ih later)

mutual

theorem Statement.walked : ∀ s : Statement Span, Walked (.statement s) s.nodes
  | .content _ _ _ => .node .nil
  | .comment _ _ => .node .nil
  | .mustache _ call _ => .node (Expr.call_walked call)
  | .partialCall _ call => .node (Expr.call_walked call)
  | .decorator _ call => .node (Expr.call_walked call)
  | .block _ call inverted first second => by
    have branches : ∀ branch ∈ branchesInOrder ProgramOf.start inverted first second,
        Walked (.program branch) (Statement.programNodes branch) := by
      have inFirst := Statement.program_walked first
      have inSecond := Statement.branch_walked second
      intro branch member
      rcases Extract.mem_branchesInOrder member with rfl | isSecond
      · exact inFirst
      · exact inSecond branch isSecond
    rw [Statement.nodes, branchesInOrder_nodes, List.map_map]
    exact .node ((Expr.call_walked call).append (.branches branches))
  | .partialBlock _ call body =>
    .node ((Expr.call_walked call).append (.single (Statement.program_walked body)))
  | .decoratorBlock _ call body =>
    .node ((Expr.call_walked call).append (.single (Statement.program_walked body)))
  | .bare _ _ => .node .nil

theorem Statement.program_walked : ∀ program : ProgramOf Span (Statement Span),
    Walked (.program program) (Statement.programNodes program)
  | ⟨_, body, _, _⟩ => .node (Statement.list_walked body)

theorem Statement.branch_walked : ∀ (second : Option (ProgramOf Span (Statement Span)))
    (branch : ProgramOf Span (Statement Span)), second = some branch →
    Walked (.program branch) (Statement.programNodes branch)
  | some program, _, same => Option.some.inj same ▸ Statement.program_walked program

theorem Statement.list_walked : ∀ body : List (Statement Span),
    WalkedAll (body.map .statement) (Statement.listNodes body)
  | [] => .nil
  | s :: rest => .cons (Statement.walked s) (Statement.list_walked rest)

end

/-- A walk over a tree meets its nodes in the order in which they are listed. -/
theorem ProgramOf.walked (program : Program Span) : Walked (.program program) program.nodes :=
  Statement.program_walked program

/-! ### Parents -/

mutual

/-- Every node that a walk meets is the one it starts from or a child of a node met before. -/
theorem Walked.parent : ∀ {root : Node Span} {met : List (Node Span)}, Walked root met →
    ∀ {before after : List (Node Span)} {node : Node Span}, met = before ++ node :: after →
      before = [] ∧ node = root ∨ ∃ parent ∈ before, node ∈ parent.children
  | root, _, .node children, before, after, node, split => by
    cases before with
    | nil => exact .inl ⟨rfl, (List.cons.inj split).1.symm⟩
    | cons first before =>
      obtain ⟨same, rest⟩ := List.cons.inj split
      rcases WalkedAll.parent children rest with isChild | ⟨parent, isBefore, isChild⟩
      · exact .inr ⟨first, List.mem_cons_self, same ▸ isChild⟩
      · exact .inr ⟨parent, List.mem_cons_of_mem _ isBefore, isChild⟩

theorem WalkedAll.parent : ∀ {nodes met : List (Node Span)}, WalkedAll nodes met →
    ∀ {before after : List (Node Span)} {node : Node Span}, met = before ++ node :: after →
      node ∈ nodes ∨ ∃ parent ∈ before, node ∈ parent.children
  | _, _, .nil, before, after, node, split => by simp at split
  | _, _, .cons first others, before, after, node, split => by
    rcases List.append_eq_append_iff.mp split with ⟨more, inBefore, rest⟩ | ⟨more, here, rest⟩
    · rcases WalkedAll.parent others rest with isIn | ⟨parent, isBefore, isChild⟩
      · exact .inl (List.mem_cons_of_mem _ isIn)
      · exact .inr ⟨parent, inBefore ▸ List.mem_append_right _ isBefore, isChild⟩
    · cases more with
      | nil =>
        rcases WalkedAll.parent others (show _ = [] ++ _ from rest.symm) with isIn | ⟨_, isBefore, _⟩
        · exact .inl (List.mem_cons_of_mem _ isIn)
        · exact absurd isBefore List.not_mem_nil
      | cons other more =>
        obtain ⟨same, -⟩ := List.cons.inj rest
        rcases Walked.parent first (same ▸ here) with ⟨rfl, rfl⟩ | isBefore
        · exact .inl List.mem_cons_self
        · exact .inr isBefore

end

mutual

/-- Behind a node a walk meets what walks from its children meet. -/
theorem Walked.onward : ∀ {root : Node Span} {met : List (Node Span)}, Walked root met →
    ∀ {before after : List (Node Span)} {node : Node Span}, met = before ++ node :: after →
      ∃ below later, after = below ++ later ∧ WalkedAll node.children below
  | root, _, .node children, before, after, node, split => by
    cases before with
    | nil =>
      obtain ⟨rfl, rfl⟩ := List.cons.inj split
      exact ⟨_, [], (List.append_nil _).symm, children⟩
    | cons first before => exact WalkedAll.onward children (List.cons.inj split).2

theorem WalkedAll.onward : ∀ {nodes met : List (Node Span)}, WalkedAll nodes met →
    ∀ {before after : List (Node Span)} {node : Node Span}, met = before ++ node :: after →
      ∃ below later, after = below ++ later ∧ WalkedAll node.children below
  | _, _, .nil, before, after, node, split => by simp at split
  | _, _, .cons first others, before, after, node, split => by
    rcases List.append_eq_append_iff.mp split with ⟨more, -, rest⟩ | ⟨more, here, rest⟩
    · exact WalkedAll.onward others rest
    · cases more with
      | nil => exact WalkedAll.onward others (show _ = [] ++ _ from rest.symm)
      | cons other more =>
        obtain ⟨rfl, rfl⟩ := List.cons.inj rest
        obtain ⟨below, later, rfl, children⟩ := Walked.onward first here
        exact ⟨below, _, List.append_assoc .., children⟩

end

theorem WalkedAll.mem {nodes met : List (Node Span)} (h : WalkedAll nodes met) {node : Node Span}
    (member : node ∈ nodes) : node ∈ met := by
  induction nodes generalizing met with
  | nil => simp at member
  | cons other rest ih =>
    cases h with
    | cons first others =>
      rcases List.mem_cons.mp member with rfl | later
      · cases first
        simp
      · exact List.mem_append_right _ (ih others later)

end Phrasebook.Template

namespace Phrasebook.Extract

open Template

theorem isKnown_iff (kind : Kind) : kind.isKnown = true ↔ kind ∈ Kind.known := by
  cases kind <;> simp [Kind.isKnown, Kind.known]

theorem walk_alone {subject : Subject} {nodes : List (Node Span)} (known : ∀ node ∈ nodes, node.kind.isKnown = true)
    (visits : Visits) (findings : Findings) :
    nodes.foldlM (Walk.visit subject) ⟨[], visits, findings⟩ = .ok ⟨[], visits, findings⟩ := by
  induction nodes with
  | nil => rfl
  | cons node rest ih =>
    obtain ⟨here, later⟩ := List.forall_mem_cons.mp known
    rw [List.foldlM_cons, Walk.visit, if_pos here]
    exact ih later

/-- A walk over a template starts at its root and goes on from the children of every node that it meets.
It meets every number that the parser has given away once, and every node behind its parent. All nodes
are of known kinds, so a walk without visitors ends, and only the visitor for texts refuses a node. -/
theorem load_walked {source : String} {text : Text} {template : Template}
    (loaded : Template.load source text = .ok template) :
    let met := template.program.nodes
    Walked (.program template.program) met ∧
      (∃ state, (pieces text).pieces.foldlM (State.take text) State.start = .ok state ∧
        (numbersOf met).Perm (List.range state.next)) ∧
      (∀ before node after, met = before ++ node :: after →
        (before = [] ∧ node = .program template.program ∨ ∃ parent ∈ before, node ∈ parent.children) ∧
          ∀ child ∈ node.children, child ∈ after ∧ child.label.id ∉ numbersOf (before ++ [node])) ∧
      (∀ node ∈ met, node.kind ∈ Kind.known) ∧
      ∀ helper, Walk.over ⟨source, text, helper⟩ [] template.program = .ok ⟨[], [], .empty⟩ ∧
        ∀ aims name place, Walk.over ⟨source, text, helper⟩ aims template.program =
            .error (.violation ⟨.unsupportedNode name, place⟩) →
          .texts ∈ aims ∧ ∃ node ∈ met, Unsupported node ∧ name = node.kind.name := by
  intro met
  obtain ⟨tree, parsed, rfl⟩ := load_parsed loaded
  obtain ⟨tiled, range, -⟩ := parse_tiled parsed
  obtain ⟨state, run, numbers⟩ := nodes_numbers parsed
  have known : ∀ node ∈ met, node.kind.isKnown = true := program_known tiled
  have walked : Walked (.program (tree.mapRange text.span)) met := ProgramOf.walked _
  refine ⟨walked, ⟨state, run, numbers.range⟩, fun before node after split => ?_,
    fun node member => (isKnown_iff _).mp (known node member), fun helper => ⟨?_, fun aims name place failed => ?_⟩⟩
  · obtain ⟨below, later, rfl, children⟩ := walked.onward split
    refine ⟨walked.parent split, fun child isChild => ?_⟩
    have isAfter := List.mem_append_left later (children.mem isChild)
    refine ⟨isAfter, fun isBefore => ?_⟩
    have distinct : (numbersOf met).Nodup := numbers.nodup
    rw [split, ← List.singleton_append, ← List.append_assoc, numbersOf_append] at distinct
    exact List.disjoint_of_nodup_append distinct isBefore (List.mem_map_of_mem isAfter)
  · exact walk_alone known [] .empty
  · cases over_stops tiled range failed with
    | misused misused => simp [Misused] at misused
    | unmaskable asked member stops =>
      cases stops with
      | unsupported h => exact ⟨asked, _, member, h, rfl⟩

/-- An inverse block whose call has a call for an operand, with an else tag that has a call. -/
theorem load_walked_chain :
    ∃ template, Template.load "page" (tagged "^a (b c=1)" ++ ['x'] ++ tagged "else d" ++ ['y'] ++ tagged "/a") =
        .ok template ∧
      numbersOf template.program.nodes = [0, 1, 2, 3, 4, 7, 6, 5, 8, 9, 14, 10, 11, 12, 13] ∧
      Walked (.program template.program) template.program.nodes ∧
      ∀ node ∈ template.program.nodes, ∀ child ∈ node.children, child ∈ template.program.nodes := by
  have runs : (Template.load "page" (tagged "^a (b c=1)" ++ ['x'] ++ tagged "else d" ++ ['y'] ++
      tagged "/a")).toOption.map (fun template => numbersOf template.program.nodes) =
      some [0, 1, 2, 3, 4, 7, 6, 5, 8, 9, 14, 10, 11, 12, 13] := by decide +kernel
  obtain ⟨template, read, numbers⟩ := Option.map_eq_some_iff.mp runs
  obtain ⟨walked, -, parents, -⟩ := load_walked (ok_of_toOption read)
  refine ⟨template, ok_of_toOption read, numbers, walked, fun node member child isChild => ?_⟩
  obtain ⟨before, after, split⟩ := List.append_of_mem member
  rw [split]
  exact List.mem_append_right _ (List.mem_cons_of_mem _ ((parents before node after split).2 child isChild).1)

end Phrasebook.Extract
