import Phrasebook.Extract.Analysis
import Phrasebook.Proofs.Template.Numbers
import Phrasebook.Proofs.Template.Parser
import Phrasebook.Proofs.Template.Shape

/-!
The calls in a tree that may be calls of the helper: those of mustaches and those in parentheses. They
do not depend on the labels of the tree, and a tree whose content was changed has the calls of the old
tree and those that stand in place of its content.
-/

namespace Phrasebook.Template

open Extract

section Calls

variable {ρ : Type}

mutual

/-- The calls in an expression, without their labels. -/
def Expr.calls : Expr ρ → List (Call Unit)
  | .path _ _ => []
  | .literal _ _ => []
  | .sub _ call => Expr.callShape call :: Expr.callCalls call

def Expr.callCalls : CallOf ρ (Expr ρ) → List (Call Unit)
  | ⟨callee, params, named⟩ => callee.calls ++ (Expr.listCalls params ++ Expr.namedCalls named)

def Expr.listCalls : List (Expr ρ) → List (Call Unit)
  | [] => []
  | e :: rest => e.calls ++ Expr.listCalls rest

def Expr.namedCalls : Option (NamedArgs ρ (Expr ρ)) → List (Call Unit)
  | none => []
  | some ⟨_, pairs⟩ => Expr.pairCalls pairs

def Expr.pairCalls : List (NamedArg ρ (Expr ρ)) → List (Call Unit)
  | [] => []
  | ⟨_, _, value⟩ :: rest => value.calls ++ Expr.pairCalls rest

end

mutual

/-- The calls in a statement, without their labels. -/
def Statement.calls : Statement ρ → List (Call Unit)
  | .content _ _ _ => []
  | .comment _ _ => []
  | .mustache _ call _ => Expr.callShape call :: Expr.callCalls call
  | .partialCall _ call => Expr.callCalls call
  | .decorator _ call => Expr.callCalls call
  | .block _ call _ first second =>
    Expr.callCalls call ++ (Statement.programCalls first ++ Statement.branchCalls second)
  | .partialBlock _ call body => Expr.callCalls call ++ Statement.programCalls body
  | .decoratorBlock _ call body => Expr.callCalls call ++ Statement.programCalls body
  | .bare _ _ => []

def Statement.programCalls : ProgramOf ρ (Statement ρ) → List (Call Unit)
  | ⟨_, body, _, _⟩ => Statement.listCalls body

def Statement.branchCalls : Option (ProgramOf ρ (Statement ρ)) → List (Call Unit)
  | none => []
  | some branch => Statement.programCalls branch

def Statement.listCalls : List (Statement ρ) → List (Call Unit)
  | [] => []
  | s :: rest => s.calls ++ Statement.listCalls rest

end

/-- The calls in a tree, without their labels. -/
def ProgramOf.calls (program : Program ρ) : List (Call Unit) := Statement.programCalls program

theorem Statement.listCalls_append (first second : List (Statement ρ)) :
    Statement.listCalls (first ++ second) = Statement.listCalls first ++ Statement.listCalls second := by
  induction first with
  | nil => rfl
  | cons s rest ih =>
    rw [List.cons_append, Statement.listCalls, ih, Statement.listCalls, List.append_assoc]

/-! ### Shapes -/

mutual

theorem Expr.shape_shape : ∀ e : Expr ρ, e.shape.shape = e.shape
  | .path _ _ => rfl
  | .literal _ _ => rfl
  | .sub _ call => by simp only [Expr.shape, Expr.callShape_callShape call]

theorem Expr.callShape_callShape :
    ∀ call : CallOf ρ (Expr ρ), Expr.callShape (Expr.callShape call) = Expr.callShape call
  | ⟨callee, params, named⟩ => by
    simp only [Expr.callShape, Expr.shape_shape callee, Expr.listShape_listShape params,
      Expr.namedShape_namedShape named]

theorem Expr.listShape_listShape :
    ∀ list : List (Expr ρ), Expr.listShape (Expr.listShape list) = Expr.listShape list
  | [] => rfl
  | e :: rest => by
    simp only [Expr.listShape, Expr.shape_shape e, Expr.listShape_listShape rest]

theorem Expr.namedShape_namedShape : ∀ named : Option (NamedArgs ρ (Expr ρ)),
    Expr.namedShape (Expr.namedShape named) = Expr.namedShape named
  | none => rfl
  | some ⟨_, pairs⟩ => by simp only [Expr.namedShape, Expr.pairsShape_pairsShape pairs]

theorem Expr.pairsShape_pairsShape : ∀ pairs : List (NamedArg ρ (Expr ρ)),
    Expr.pairsShape (Expr.pairsShape pairs) = Expr.pairsShape pairs
  | [] => rfl
  | ⟨_, _, value⟩ :: rest => by
    simp only [Expr.pairsShape, Expr.shape_shape value, Expr.pairsShape_pairsShape rest]

end

mutual

theorem Expr.calls_shape : ∀ e : Expr ρ, e.shape.calls = e.calls
  | .path _ _ => rfl
  | .literal _ _ => rfl
  | .sub _ call => by
    simp only [Expr.shape, Expr.calls, Expr.callShape_callShape, Expr.callCalls_callShape call]

theorem Expr.callCalls_callShape :
    ∀ call : CallOf ρ (Expr ρ), Expr.callCalls (Expr.callShape call) = Expr.callCalls call
  | ⟨callee, params, named⟩ => by
    simp only [Expr.callShape, Expr.callCalls, Expr.calls_shape callee, Expr.listCalls_listShape params,
      Expr.namedCalls_namedShape named]

theorem Expr.listCalls_listShape :
    ∀ list : List (Expr ρ), Expr.listCalls (Expr.listShape list) = Expr.listCalls list
  | [] => rfl
  | e :: rest => by
    simp only [Expr.listShape, Expr.listCalls, Expr.calls_shape e, Expr.listCalls_listShape rest]

theorem Expr.namedCalls_namedShape : ∀ named : Option (NamedArgs ρ (Expr ρ)),
    Expr.namedCalls (Expr.namedShape named) = Expr.namedCalls named
  | none => rfl
  | some ⟨_, pairs⟩ => by
    simp only [Expr.namedShape, Expr.namedCalls, Expr.pairCalls_pairsShape pairs]

theorem Expr.pairCalls_pairsShape : ∀ pairs : List (NamedArg ρ (Expr ρ)),
    Expr.pairCalls (Expr.pairsShape pairs) = Expr.pairCalls pairs
  | [] => rfl
  | ⟨_, _, value⟩ :: rest => by
    simp only [Expr.pairsShape, Expr.pairCalls, Expr.calls_shape value, Expr.pairCalls_pairsShape rest]

end

mutual

theorem Statement.calls_shapes : ∀ s : Statement ρ, Statement.listCalls (s.shapes .keep) = s.calls
  | .content _ _ _ => rfl
  | .comment _ _ => rfl
  | .mustache _ call _ => by
    simp only [Statement.shapes, Statement.listCalls, Statement.calls, Expr.callShape_callShape,
      Expr.callCalls_callShape call, List.append_nil]
  | .partialCall _ call => by
    simp only [Statement.shapes, Statement.listCalls, Statement.calls, Expr.callCalls_callShape call, List.append_nil]
  | .decorator _ call => by
    simp only [Statement.shapes, Statement.listCalls, Statement.calls, Expr.callCalls_callShape call, List.append_nil]
  | .block _ call _ first second => by
    simp only [Statement.shapes, Statement.listCalls, Statement.calls, Expr.callCalls_callShape call, List.append_nil,
      Statement.programCalls_programShape first, Statement.branchCalls_branchShape second]
  | .partialBlock _ call body => by
    simp only [Statement.shapes, Statement.listCalls, Statement.calls, Expr.callCalls_callShape call, List.append_nil,
      Statement.programCalls_programShape body]
  | .decoratorBlock _ call body => by
    simp only [Statement.shapes, Statement.listCalls, Statement.calls, Expr.callCalls_callShape call, List.append_nil,
      Statement.programCalls_programShape body]
  | .bare _ _ => rfl

theorem Statement.programCalls_programShape : ∀ program : ProgramOf ρ (Statement ρ),
    Statement.programCalls (Statement.programShape .keep program) = Statement.programCalls program
  | ⟨_, body, _, _⟩ => Statement.listCalls_listShapes body

theorem Statement.branchCalls_branchShape : ∀ second : Option (ProgramOf ρ (Statement ρ)),
    Statement.branchCalls (Statement.branchShape .keep second) = Statement.branchCalls second
  | none => rfl
  | some branch => Statement.programCalls_programShape branch

theorem Statement.listCalls_listShapes : ∀ body : List (Statement ρ),
    Statement.listCalls (Statement.listShapes .keep body) = Statement.listCalls body
  | [] => rfl
  | s :: rest => by
    simp only [Statement.listShapes, Statement.listCalls_append, Statement.listCalls, Statement.calls_shapes s,
      Statement.listCalls_listShapes rest]

end

theorem ProgramOf.calls_shape (program : Program ρ) : program.shape.calls = program.calls :=
  Statement.programCalls_programShape program

theorem ProgramOf.calls_mapRange {σ : Type} (f : ρ → σ) (program : Program ρ) :
    (program.mapRange f).calls = program.calls := by
  rw [← calls_shape, shape_mapRange, calls_shape]

end Calls

/-! ### Nodes -/

/-- The calls of some nodes that may be calls of the helper. -/
def callsAt (nodes : List (Node Span)) : List (Call Unit) :=
  (nodes.filterMap callOf?).map Expr.callShape

@[simp] theorem callsAt_nil : callsAt [] = [] := rfl

theorem callsAt_cons_none {node : Node Span} (none : callOf? node = none) (rest : List (Node Span)) :
    callsAt (node :: rest) = callsAt rest := by
  simp [callsAt, none]

theorem callsAt_cons_some {node : Node Span} {call : Call Span} (found : callOf? node = some call)
    (rest : List (Node Span)) : callsAt (node :: rest) = Expr.callShape call :: callsAt rest := by
  simp [callsAt, found]

@[simp] theorem callsAt_append (first second : List (Node Span)) :
    callsAt (first ++ second) = callsAt first ++ callsAt second := by
  simp [callsAt]

mutual

theorem Expr.callsAt_nodes : ∀ e : Expr Span, callsAt e.nodes = e.calls
  | .path _ _ => rfl
  | .literal _ _ => rfl
  | .sub _ call => by
    rw [Expr.nodes, callsAt_cons_some rfl, Expr.callsAt_callNodes call, Expr.calls]

theorem Expr.callsAt_callNodes :
    ∀ call : CallOf Span (Expr Span), callsAt (Expr.callNodes call) = Expr.callCalls call
  | ⟨callee, params, named⟩ => by
    simp only [Expr.callNodes, Expr.callCalls, callsAt_append, Expr.callsAt_nodes callee,
      Expr.callsAt_listNodes params, Expr.callsAt_namedNodes named, List.append_assoc]

theorem Expr.callsAt_listNodes :
    ∀ list : List (Expr Span), callsAt (Expr.listNodes list) = Expr.listCalls list
  | [] => rfl
  | e :: rest => by
    simp only [Expr.listNodes, Expr.listCalls, callsAt_append, Expr.callsAt_nodes e,
      Expr.callsAt_listNodes rest]

theorem Expr.callsAt_namedNodes : ∀ named : Option (NamedArgs Span (Expr Span)),
    callsAt (Expr.namedNodes named) = Expr.namedCalls named
  | none => rfl
  | some ⟨_, pairs⟩ => by
    rw [Expr.namedNodes, callsAt_cons_none rfl, Expr.callsAt_pairNodes pairs, Expr.namedCalls]

theorem Expr.callsAt_pairNodes : ∀ pairs : List (NamedArg Span (Expr Span)),
    callsAt (Expr.pairNodes pairs) = Expr.pairCalls pairs
  | [] => rfl
  | ⟨_, _, value⟩ :: rest => by
    rw [Expr.pairNodes, callsAt_cons_none rfl, callsAt_append, Expr.callsAt_nodes value,
      Expr.callsAt_pairNodes rest, Expr.pairCalls]

end

mutual

theorem Statement.callsAt_nodes : ∀ s : Statement Span, (callsAt s.nodes).Perm s.calls
  | .content _ _ _ => .refl _
  | .comment _ _ => .refl _
  | .mustache _ call _ => by
    rw [Statement.nodes, callsAt_cons_some rfl, Expr.callsAt_callNodes, Statement.calls]
  | .partialCall _ call => by
    rw [Statement.nodes, callsAt_cons_none rfl, Expr.callsAt_callNodes, Statement.calls]
  | .decorator _ call => by
    rw [Statement.nodes, callsAt_cons_none rfl, Expr.callsAt_callNodes, Statement.calls]
  | .block label call inverted first second => by
    have visited := (((branchesInOrder_perm Prod.fst inverted
      (first.start, Statement.programNodes first)
      (Statement.branchNodes second)).map Prod.snd).flatten.filterMap callOf?).map Expr.callShape
    rw [Statement.nodes, callsAt_cons_none rfl, callsAt_append, Expr.callsAt_callNodes,
      Statement.calls]
    refine List.Perm.append_left _ (visited.trans ?_)
    have inFirst := Statement.callsAt_programNodes first
    have inSecond := Statement.callsAt_branchNodes second
    simpa [callsAt] using inFirst.append inSecond
  | .partialBlock _ call body => by
    rw [Statement.nodes, callsAt_cons_none rfl, callsAt_append, Expr.callsAt_callNodes,
      Statement.calls]
    exact (Statement.callsAt_programNodes body).append_left _
  | .decoratorBlock _ call body => by
    rw [Statement.nodes, callsAt_cons_none rfl, callsAt_append, Expr.callsAt_callNodes,
      Statement.calls]
    exact (Statement.callsAt_programNodes body).append_left _
  | .bare _ _ => .refl _

theorem Statement.callsAt_programNodes : ∀ program : ProgramOf Span (Statement Span),
    (callsAt (Statement.programNodes program)).Perm (Statement.programCalls program)
  | ⟨_, body, _, _⟩ => by
    rw [Statement.programNodes, callsAt_cons_none rfl, Statement.programCalls]
    exact Statement.callsAt_listNodes body

theorem Statement.callsAt_branchNodes : ∀ second : Option (ProgramOf Span (Statement Span)),
    (callsAt ((Statement.branchNodes second).toList.map Prod.snd).flatten).Perm
      (Statement.branchCalls second)
  | none => .refl _
  | some branch => by
    simpa [Statement.branchNodes, Statement.branchCalls] using Statement.callsAt_programNodes branch

theorem Statement.callsAt_listNodes : ∀ body : List (Statement Span),
    (callsAt (Statement.listNodes body)).Perm (Statement.listCalls body)
  | [] => .refl _
  | s :: rest => by
    rw [Statement.listNodes, callsAt_append, Statement.listCalls]
    exact (Statement.callsAt_nodes s).append (Statement.callsAt_listNodes rest)

end

/-- The calls that a walk meets are those of the tree. -/
theorem callsAt_nodes (program : Program Span) : (callsAt program.nodes).Perm program.calls :=
  Statement.callsAt_programNodes program

/-! ### Changed content -/

section Changed

/-- The calls that stand in place of content. -/
def OfContent.Adds (change : OfContent Extent) (added : Extent → List (Call Unit)) : Prop :=
  ∀ extent value written call,
    call ∈ Statement.listCalls (change extent value written) ↔ call ∈ added extent

variable {change : OfContent Extent} {added : Extent → List (Call Unit)}

@[simp] theorem content_not_mem_gapTiles {extent : Extent} {start stop : Nat} :
    .content extent ∉ gapTiles start stop := by
  unfold gapTiles
  split <;> simp

mutual

theorem Statement.mem_calls_shapes (h : change.Adds added) : ∀ (s : Statement Extent) (call : Call Unit),
    call ∈ Statement.listCalls (s.shapes change) ↔
      call ∈ s.calls ∨ ∃ extent, .content extent ∈ s.tiles ∧ call ∈ added extent
  | .content label value written, call => by
    simpa [Statement.shapes, Statement.calls, Statement.tiles] using h label.range value written call
  | .comment _ _, call => by
    simp [Statement.shapes, Statement.calls, Statement.tiles, Statement.listCalls]
  | .mustache _ _ _, call => by
    simp [Statement.shapes, Statement.calls, Statement.tiles, Statement.listCalls,
      Expr.callShape_callShape, Expr.callCalls_callShape]
  | .partialCall _ _, call => by
    simp [Statement.shapes, Statement.calls, Statement.tiles, Statement.listCalls,
      Expr.callCalls_callShape]
  | .decorator _ _, call => by
    simp [Statement.shapes, Statement.calls, Statement.tiles, Statement.listCalls,
      Expr.callCalls_callShape]
  | .block label _ _ first second, call => by
    have inFirst := Statement.mem_programCalls_programShape h first call
    have inSecond := Statement.mem_branchCalls_branchShape h ⟨first.label.range.stop, label.range.stop⟩ second call
    simp only [Statement.shapes, Statement.calls, Statement.tiles, Statement.listCalls,
      Expr.callCalls_callShape, List.mem_append, List.append_nil, inFirst, inSecond,
      content_not_mem_gapTiles, false_or, or_and_right, exists_or]
    rw [or_or_or_comm]
    simp only [or_assoc]
  | .partialBlock _ _ body, call => by
    have inBody := Statement.mem_programCalls_programShape h body call
    simp only [Statement.shapes, Statement.calls, Statement.tiles, Statement.listCalls,
      Expr.callCalls_callShape, List.mem_append, List.append_nil, inBody, content_not_mem_gapTiles,
      false_or, or_false, or_assoc]
  | .decoratorBlock _ _ body, call => by
    have inBody := Statement.mem_programCalls_programShape h body call
    simp only [Statement.shapes, Statement.calls, Statement.tiles, Statement.listCalls,
      Expr.callCalls_callShape, List.mem_append, List.append_nil, inBody, content_not_mem_gapTiles,
      false_or, or_false, or_assoc]
  | .bare _ _, call => by
    simp [Statement.shapes, Statement.calls, Statement.tiles, Statement.listCalls]

theorem Statement.mem_programCalls_programShape (h : change.Adds added) :
    ∀ (program : ProgramOf Extent (Statement Extent)) (call : Call Unit),
    call ∈ Statement.programCalls (Statement.programShape change program) ↔
      call ∈ Statement.programCalls program ∨
        ∃ extent, .content extent ∈ Statement.programTiles program ∧ call ∈ added extent
  | ⟨_, body, _, _⟩, call => Statement.mem_listCalls_listShapes h body call

theorem Statement.mem_branchCalls_branchShape (h : change.Adds added) :
    ∀ (extent : Extent) (second : Option (ProgramOf Extent (Statement Extent))) (call : Call Unit),
    call ∈ Statement.branchCalls (Statement.branchShape change second) ↔
      call ∈ Statement.branchCalls second ∨
        ∃ content, .content content ∈ Statement.secondTiles extent second ∧ call ∈ added content
  | _, none, call => by
    simp [Statement.branchShape, Statement.branchCalls, Statement.secondTiles]
  | _, some branch, call => by
    have inBranch := Statement.mem_programCalls_programShape h branch call
    simp only [Statement.branchShape, Statement.branchCalls, Statement.secondTiles, List.mem_append,
      inBranch, content_not_mem_gapTiles, false_or, or_false]

theorem Statement.mem_listCalls_listShapes (h : change.Adds added) :
    ∀ (body : List (Statement Extent)) (call : Call Unit),
    call ∈ Statement.listCalls (Statement.listShapes change body) ↔
      call ∈ Statement.listCalls body ∨
        ∃ extent, .content extent ∈ Statement.listTiles body ∧ call ∈ added extent
  | [], call => by simp [Statement.listShapes, Statement.listCalls, Statement.listTiles]
  | s :: rest, call => by
    have inFirst := Statement.mem_calls_shapes h s call
    have inRest := Statement.mem_listCalls_listShapes h rest call
    simp only [Statement.listShapes, Statement.listCalls_append, Statement.listCalls,
      Statement.listTiles, List.mem_append, inFirst, inRest, or_and_right, exists_or]
    exact or_or_or_comm

end

/-- A tree with changed content has the calls of the tree and those put in place of content. -/
theorem ProgramOf.mem_calls_edited (h : change.Adds added) (program : Program Extent) (call : Call Unit) :
    call ∈ (program.edited change).calls ↔
      call ∈ program.calls ∨ ∃ extent, .content extent ∈ program.tiles ∧ call ∈ added extent :=
  Statement.mem_programCalls_programShape h program call

end Changed

end Phrasebook.Template
