import Phrasebook.Template.Tree

/-!
Trees without the numbers and ranges of their nodes. A shape is all that a reader of a tree can tell
when nodes may be numbered and placed in another way. Content can be replaced by other statements on
the way, so that a tree and what becomes of it under an edit are described by one function.
-/

namespace Phrasebook.Template

/-- The label of a node that has no number and no range. -/
def Label.blank : Label Unit := ⟨0, ()⟩

/-! ### Expressions -/

section Expressions

variable {ρ σ : Type}

mutual

/-- The expression without its labels. -/
def Expr.shape : Expr ρ → Expr Unit
  | .path _ reference => .path .blank reference
  | .literal _ value => .literal .blank value
  | .sub _ call => .sub .blank (Expr.callShape call)

def Expr.callShape : CallOf ρ (Expr ρ) → CallOf Unit (Expr Unit)
  | ⟨callee, params, named⟩ => ⟨callee.shape, Expr.listShape params, Expr.namedShape named⟩

def Expr.listShape : List (Expr ρ) → List (Expr Unit)
  | [] => []
  | e :: rest => e.shape :: Expr.listShape rest

def Expr.namedShape : Option (NamedArgs ρ (Expr ρ)) → Option (NamedArgs Unit (Expr Unit))
  | none => none
  | some ⟨_, pairs⟩ => some ⟨.blank, Expr.pairsShape pairs⟩

def Expr.pairsShape : List (NamedArg ρ (Expr ρ)) → List (NamedArg Unit (Expr Unit))
  | [] => []
  | ⟨_, name, value⟩ :: rest => ⟨.blank, name, value.shape⟩ :: Expr.pairsShape rest

end

@[simp] theorem Expr.name_shape (e : Expr ρ) : e.shape.name = e.name := by
  cases e with
  | path _ _ => rfl
  | literal _ value => cases value <;> rfl
  | sub _ _ => rfl

@[simp] theorem Expr.callee_callShape (call : Call ρ) :
    (Expr.callShape call).callee = call.callee.shape := by
  cases call
  rfl

variable (f : ρ → σ)

mutual

theorem Expr.shape_mapRange : ∀ e : Expr ρ, (Expr.mapRange f e).shape = e.shape
  | .path _ _ => rfl
  | .literal _ _ => rfl
  | .sub _ call => by simp only [Expr.mapRange, Expr.shape, Expr.callShape_mapCall call]

theorem Expr.callShape_mapCall :
    ∀ call : CallOf ρ (Expr ρ), Expr.callShape (Expr.mapCall f call) = Expr.callShape call
  | ⟨callee, params, named⟩ => by
    simp only [Expr.mapCall, Expr.callShape, Expr.shape_mapRange callee, Expr.listShape_mapList params,
      Expr.namedShape_mapNamed named]

theorem Expr.listShape_mapList :
    ∀ list : List (Expr ρ), Expr.listShape (Expr.mapList f list) = Expr.listShape list
  | [] => rfl
  | e :: rest => by
    simp only [Expr.mapList, Expr.listShape, Expr.shape_mapRange e, Expr.listShape_mapList rest]

theorem Expr.namedShape_mapNamed :
    ∀ named : Option (NamedArgs ρ (Expr ρ)),
      Expr.namedShape (Expr.mapNamed f named) = Expr.namedShape named
  | none => rfl
  | some ⟨_, pairs⟩ => by
    simp only [Expr.mapNamed, Expr.namedShape, Expr.pairsShape_mapPairs pairs]

theorem Expr.pairsShape_mapPairs :
    ∀ pairs : List (NamedArg ρ (Expr ρ)),
      Expr.pairsShape (Expr.mapPairs f pairs) = Expr.pairsShape pairs
  | [] => rfl
  | ⟨_, _, value⟩ :: rest => by
    simp only [Expr.mapPairs, Expr.pairsShape, Expr.shape_mapRange value,
      Expr.pairsShape_mapPairs rest]

end

end Expressions

/-! ### Statements -/

section Statements

variable {ρ σ : Type}

/-- What stands in the place of content, given its range, its value and the text as written. -/
abbrev OfContent (ρ : Type) := ρ → Text → Text → List (Statement Unit)

/-- Content stays as it is. -/
def OfContent.keep : OfContent ρ := fun _ value written => [.content .blank value written]

section

variable (change : OfContent ρ)

mutual

/-- The statement without its labels, its content changed. -/
def Statement.shapes : Statement ρ → List (Statement Unit)
  | .content label value written => change label.range value written
  | .comment _ value => [.comment .blank value]
  | .mustache _ call escaped => [.mustache .blank (Expr.callShape call) escaped]
  | .partialCall _ call => [.partialCall .blank (Expr.callShape call)]
  | .decorator _ call => [.decorator .blank (Expr.callShape call)]
  | .block _ call inverted first second =>
    [.block .blank (Expr.callShape call) inverted (Statement.programShape first)
      (Statement.branchShape second)]
  | .partialBlock _ call body =>
    [.partialBlock .blank (Expr.callShape call) (Statement.programShape body)]
  | .decoratorBlock _ call body =>
    [.decoratorBlock .blank (Expr.callShape call) (Statement.programShape body)]
  | .bare _ kind => [.bare .blank kind]

def Statement.programShape : ProgramOf ρ (Statement ρ) → ProgramOf Unit (Statement Unit)
  | ⟨_, body, blockParams, chained⟩ => ⟨.blank, Statement.listShapes body, blockParams, chained⟩

def Statement.branchShape :
    Option (ProgramOf ρ (Statement ρ)) → Option (ProgramOf Unit (Statement Unit))
  | none => none
  | some branch => some (Statement.programShape branch)

def Statement.listShapes : List (Statement ρ) → List (Statement Unit)
  | [] => []
  | s :: rest => s.shapes ++ Statement.listShapes rest

end

theorem Statement.listShapes_append (first second : List (Statement ρ)) :
    Statement.listShapes change (first ++ second) =
      Statement.listShapes change first ++ Statement.listShapes change second := by
  induction first with
  | nil => rfl
  | cons s rest ih =>
    rw [List.cons_append, Statement.listShapes, ih, Statement.listShapes, List.append_assoc]

theorem Statement.listShapes_reverse_cons (s : Statement ρ) (rest : List (Statement ρ)) :
    Statement.listShapes change (s :: rest).reverse =
      Statement.listShapes change rest.reverse ++ s.shapes change := by
  rw [List.reverse_cons, Statement.listShapes_append]
  simp [Statement.listShapes]

@[simp] theorem Statement.branchShape_eq (second : Option (ProgramOf ρ (Statement ρ))) :
    Statement.branchShape change second = second.map (Statement.programShape change) := by
  cases second <;> rfl

/-- The tree without its labels, its content changed. -/
def ProgramOf.edited (program : Program ρ) : Program Unit := Statement.programShape change program

end

/-- The tree without its labels. -/
def ProgramOf.shape (program : Program ρ) : Program Unit := program.edited .keep

variable (f : ρ → σ)

mutual

theorem Statement.shapes_mapRange :
    ∀ s : Statement ρ, (Statement.mapRange f s).shapes .keep = s.shapes .keep
  | .content _ _ _ => rfl
  | .comment _ _ => rfl
  | .mustache _ call _ => by
    simp only [Statement.mapRange, Statement.shapes, Expr.callShape_mapCall]
  | .partialCall _ call => by
    simp only [Statement.mapRange, Statement.shapes, Expr.callShape_mapCall]
  | .decorator _ call => by
    simp only [Statement.mapRange, Statement.shapes, Expr.callShape_mapCall]
  | .block _ call _ first second => by
    simp only [Statement.mapRange, Statement.shapes, Expr.callShape_mapCall,
      Statement.programShape_mapProgram first, Statement.branchShape_mapBranch second]
  | .partialBlock _ call body => by
    simp only [Statement.mapRange, Statement.shapes, Expr.callShape_mapCall,
      Statement.programShape_mapProgram body]
  | .decoratorBlock _ call body => by
    simp only [Statement.mapRange, Statement.shapes, Expr.callShape_mapCall,
      Statement.programShape_mapProgram body]
  | .bare _ _ => rfl

theorem Statement.programShape_mapProgram :
    ∀ program : ProgramOf ρ (Statement ρ),
      Statement.programShape .keep (Statement.mapProgram f program) =
        Statement.programShape .keep program
  | ⟨_, body, _, _⟩ => by
    simp only [Statement.mapProgram, Statement.programShape, Statement.listShapes_mapList body]

theorem Statement.branchShape_mapBranch :
    ∀ second : Option (ProgramOf ρ (Statement ρ)),
      Statement.branchShape .keep (Statement.mapBranch f second) =
        Statement.branchShape .keep second
  | none => rfl
  | some branch => by
    simp only [Statement.mapBranch, Statement.branchShape, Statement.programShape_mapProgram branch]

theorem Statement.listShapes_mapList :
    ∀ body : List (Statement ρ),
      Statement.listShapes .keep (Statement.mapList f body) = Statement.listShapes .keep body
  | [] => rfl
  | s :: rest => by
    simp only [Statement.mapList, Statement.listShapes, Statement.shapes_mapRange s,
      Statement.listShapes_mapList rest]

end

@[simp] theorem ProgramOf.shape_mapRange (program : Program ρ) :
    (program.mapRange f).shape = program.shape :=
  Statement.programShape_mapProgram f program

end Statements

end Phrasebook.Template
