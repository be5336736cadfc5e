import Phrasebook.Text.Position
import Phrasebook.Decimal.Binary64

/-!
The syntax tree of a template. Every node carries a label: its number in reading order and the
range it covers. The trees are generic in the kind of range, so that the parser can work with
offsets and everybody else with positions; `Program.mapRange` changes one into the other.
-/

namespace Phrasebook.Template

/-- The number of a node in reading order, and the range that the node covers. -/
structure Label (ρ : Type) where
  id : Nat
  range : ρ
deriving DecidableEq, Repr

def Label.map {ρ σ : Type} (f : ρ → σ) (label : Label ρ) : Label σ := ⟨label.id, f label.range⟩

inductive Number where
  | int (value : Int)
  | float (value : Binary64)
deriving DecidableEq, Repr

/-- A literal, with the text by which a close tag may name it. -/
inductive Literal where
  | string (value : Text)
  | number (value : Number) (written : Text)
  | boolean (value : Bool)
  | undefined
  | null
deriving DecidableEq, Repr

/-- A reference such as `title`, `../post.url`, `@site.locale` or `this`. -/
structure Path where
  /-- The reference as written. -/
  written : Text
  /-- The names on the way, without steps upwards and references to the current value. -/
  parts : List Text
  /-- Whether the reference starts with `@`. -/
  data : Bool
  /-- The number of steps upwards. -/
  depth : Nat
deriving DecidableEq, Repr

structure NamedArg (ρ ε : Type) where
  label : Label ρ
  name : Text
  value : ε

structure NamedArgs (ρ ε : Type) where
  label : Label ρ
  pairs : List (NamedArg ρ ε)

structure CallOf (ρ ε : Type) where
  callee : ε
  params : List ε
  named : Option (NamedArgs ρ ε)

inductive Expr (ρ : Type) where
  | path (label : Label ρ) (reference : Path)
  | literal (label : Label ρ) (value : Literal)
  | sub (label : Label ρ) (call : CallOf ρ (Expr ρ))

abbrev Call (ρ : Type) := CallOf ρ (Expr ρ)

/-- A sequence of statements: the whole template or one branch of a block. `chained` marks the
branch made for an else tag that carries a call of its own; it holds only the nested block. -/
structure ProgramOf (ρ ε : Type) where
  label : Label ρ
  body : List ε
  blockParams : List Text
  chained : Bool

/-- The kinds of nodes. `other` is for nodes that no parser makes. -/
inductive Kind where
  | program | block | partialCall | partialBlock | decoratorBlock | decorator | mustache | content
  | comment | sub | path | string | number | boolean | undefined | null | named | namedPair
  | other (name : String)
deriving DecidableEq, Repr

/-- One statement of a template. The branches of a block stand in source order; in an inverted block
the first branch is the one for the negative case. -/
inductive Statement (ρ : Type) where
  | content (label : Label ρ) (value written : Text)
  | comment (label : Label ρ) (value : Text)
  | mustache (label : Label ρ) (call : Call ρ) (escaped : Bool)
  | partialCall (label : Label ρ) (call : Call ρ)
  | decorator (label : Label ρ) (call : Call ρ)
  | block (label : Label ρ) (call : Call ρ) (inverted : Bool)
      (first : ProgramOf ρ (Statement ρ)) (second : Option (ProgramOf ρ (Statement ρ)))
  | partialBlock (label : Label ρ) (call : Call ρ) (body : ProgramOf ρ (Statement ρ))
  | decoratorBlock (label : Label ρ) (call : Call ρ) (body : ProgramOf ρ (Statement ρ))
  | bare (label : Label ρ) (kind : Kind)

abbrev Program (ρ : Type) := ProgramOf ρ (Statement ρ)

/-! ### Labels and names -/

namespace Expr

variable {ρ : Type}

def label : Expr ρ → Label ρ
  | .path label _ => label
  | .literal label _ => label
  | .sub label _ => label

/-- The name by which a close tag refers to a block that calls this expression. -/
def name : Expr ρ → Text
  | .path _ p => p.written
  | .literal _ (.string value) => value
  | .literal _ (.number _ written) => written
  | .literal _ (.boolean value) => if value then "true".toList else "false".toList
  | .literal _ .undefined => []
  | .literal _ .null => []
  | .sub _ _ => []

end Expr

namespace Statement

variable {ρ : Type}

def label : Statement ρ → Label ρ
  | .content label _ _ => label
  | .comment label _ => label
  | .mustache label _ _ => label
  | .partialCall label _ => label
  | .decorator label _ => label
  | .block label _ _ _ _ => label
  | .partialBlock label _ _ => label
  | .decoratorBlock label _ _ => label
  | .bare label _ => label

end Statement

def positiveBranch {β : Type} (inverted : Bool) (first : β) (second : Option β) : Option β :=
  if inverted then second else some first

def negativeBranch {β : Type} (inverted : Bool) (first : β) (second : Option β) : Option β :=
  if inverted then some first else second

/-! ### Changing the ranges -/

section MapRange

variable {ρ σ : Type} (f : ρ → σ)

mutual

def Expr.mapRange : Expr ρ → Expr σ
  | .path label p => .path (label.map f) p
  | .literal label value => .literal (label.map f) value
  | .sub label call => .sub (label.map f) (Expr.mapCall call)

def Expr.mapCall : CallOf ρ (Expr ρ) → CallOf σ (Expr σ)
  | ⟨callee, params, named⟩ =>
    ⟨Expr.mapRange callee, Expr.mapList params, Expr.mapNamed named⟩

def Expr.mapList : List (Expr ρ) → List (Expr σ)
  | [] => []
  | e :: rest => Expr.mapRange e :: Expr.mapList rest

def Expr.mapNamed : Option (NamedArgs ρ (Expr ρ)) → Option (NamedArgs σ (Expr σ))
  | none => none
  | some ⟨label, pairs⟩ => some ⟨label.map f, Expr.mapPairs pairs⟩

def Expr.mapPairs : List (NamedArg ρ (Expr ρ)) → List (NamedArg σ (Expr σ))
  | [] => []
  | ⟨label, name, value⟩ :: rest => ⟨label.map f, name, Expr.mapRange value⟩ :: Expr.mapPairs rest

end

mutual

def Statement.mapRange : Statement ρ → Statement σ
  | .content label value written => .content (label.map f) value written
  | .comment label value => .comment (label.map f) value
  | .mustache label call escaped => .mustache (label.map f) (Expr.mapCall f call) escaped
  | .partialCall label call => .partialCall (label.map f) (Expr.mapCall f call)
  | .decorator label call => .decorator (label.map f) (Expr.mapCall f call)
  | .block label call inverted first second =>
    .block (label.map f) (Expr.mapCall f call) inverted (Statement.mapProgram first)
      (Statement.mapBranch second)
  | .partialBlock label call body =>
    .partialBlock (label.map f) (Expr.mapCall f call) (Statement.mapProgram body)
  | .decoratorBlock label call body =>
    .decoratorBlock (label.map f) (Expr.mapCall f call) (Statement.mapProgram body)
  | .bare label kind => .bare (label.map f) kind

def Statement.mapProgram : ProgramOf ρ (Statement ρ) → ProgramOf σ (Statement σ)
  | ⟨label, body, blockParams, chained⟩ =>
    ⟨label.map f, Statement.mapList body, blockParams, chained⟩

def Statement.mapBranch :
    Option (ProgramOf ρ (Statement ρ)) → Option (ProgramOf σ (Statement σ))
  | none => none
  | some branch => some (Statement.mapProgram branch)

def Statement.mapList : List (Statement ρ) → List (Statement σ)
  | [] => []
  | s :: rest => Statement.mapRange s :: Statement.mapList rest

end

def ProgramOf.mapRange (program : Program ρ) : Program σ := Statement.mapProgram f program

end MapRange

end Phrasebook.Template
