import Phrasebook.Template.Tree

/-!
One view of all nodes of a tree. `Node.children` gives the nodes directly below a node in the order
in which they are visited, and `ProgramOf.nodes` lists all nodes of a tree, every node before the
nodes below it.
-/

namespace Phrasebook.Template

inductive Node (ρ : Type) where
  | program (program : Program ρ)
  | statement (statement : Statement ρ)
  | expr (expr : Expr ρ)
  | named (named : NamedArgs ρ (Expr ρ))
  | pair (pair : NamedArg ρ (Expr ρ))

def Kind.name : Kind → String
  | .program => "Program"
  | .block => "BlockStatement"
  | .partialCall => "PartialStatement"
  | .partialBlock => "PartialBlockStatement"
  | .decoratorBlock => "DecoratorBlock"
  | .decorator => "Decorator"
  | .mustache => "MustacheStatement"
  | .content => "ContentStatement"
  | .comment => "CommentStatement"
  | .sub => "SubExpression"
  | .path => "PathExpression"
  | .string => "StringLiteral"
  | .number => "NumberLiteral"
  | .boolean => "BooleanLiteral"
  | .undefined => "UndefinedLiteral"
  | .null => "NullLiteral"
  | .named => "Hash"
  | .namedPair => "HashPair"
  | .other name => name

def Kind.known : List Kind :=
  [.program, .block, .partialCall, .partialBlock, .decoratorBlock, .decorator, .mustache, .content,
    .comment, .sub, .path, .string, .number, .boolean, .undefined, .null, .named, .namedPair]

def Kind.ofName (name : String) : Kind :=
  (known.find? fun kind => kind.name == name).getD (.other name)

def Kind.isKnown : Kind → Bool
  | .other _ => false
  | _ => true

namespace Node

variable {ρ : Type}

def label : Node ρ → Label ρ
  | .program p => p.label
  | .statement s => s.label
  | .expr e => e.label
  | .named n => n.label
  | .pair p => p.label

def kind : Node ρ → Kind
  | .program _ => .program
  | .statement (.content ..) => .content
  | .statement (.comment ..) => .comment
  | .statement (.mustache ..) => .mustache
  | .statement (.partialCall ..) => .partialCall
  | .statement (.decorator ..) => .decorator
  | .statement (.block ..) => .block
  | .statement (.partialBlock ..) => .partialBlock
  | .statement (.decoratorBlock ..) => .decoratorBlock
  | .statement (.bare _ kind) => kind
  | .expr (.path ..) => .path
  | .expr (.literal _ (.string ..)) => .string
  | .expr (.literal _ (.number ..)) => .number
  | .expr (.literal _ (.boolean ..)) => .boolean
  | .expr (.literal _ .undefined) => .undefined
  | .expr (.literal _ .null) => .null
  | .expr (.sub ..) => .sub
  | .named _ => .named
  | .pair _ => .namedPair

end Node

def CallOf.children {ρ : Type} (call : Call ρ) : List (Node ρ) :=
  .expr call.callee :: call.params.map .expr ++ (call.named.map Node.named).toList

/-- The branches of a block in the order in which they start. Branches that start together come with
the one for the positive case first. -/
def branchesInOrder {β : Type} (start : β → Position) (inverted : Bool) (first : β)
    (second : Option β) : List β :=
  match positiveBranch inverted first second, negativeBranch inverted first second with
  | some positive, some negative =>
    if start negative < start positive then [negative, positive] else [positive, negative]
  | some positive, none => [positive]
  | none, some negative => [negative]
  | none, none => []

def ProgramOf.start {ε : Type} (program : ProgramOf Span ε) : Position :=
  program.label.range.start

namespace Node

def children : Node Span → List (Node Span)
  | .program p => p.body.map .statement
  | .statement (.mustache _ call _) => call.children
  | .statement (.partialCall _ call) => call.children
  | .statement (.decorator _ call) => call.children
  | .statement (.block _ call inverted first second) =>
    call.children ++ (branchesInOrder ProgramOf.start inverted first second).map .program
  | .statement (.partialBlock _ call body) => call.children ++ [.program body]
  | .statement (.decoratorBlock _ call body) => call.children ++ [.program body]
  | .statement (.content ..) => []
  | .statement (.comment ..) => []
  | .statement (.bare ..) => []
  | .expr (.sub _ call) => call.children
  | .expr (.path ..) => []
  | .expr (.literal ..) => []
  | .named n => n.pairs.map .pair
  | .pair p => [.expr p.value]

end Node

/-! ### All nodes -/

section Nodes

variable {ρ : Type}

mutual

def Expr.nodes : Expr ρ → List (Node ρ)
  | .path label p => [.expr (.path label p)]
  | .literal label value => [.expr (.literal label value)]
  | .sub label call => .expr (.sub label call) :: Expr.callNodes call

def Expr.callNodes : CallOf ρ (Expr ρ) → List (Node ρ)
  | ⟨callee, params, named⟩ => callee.nodes ++ Expr.listNodes params ++ Expr.namedNodes named

def Expr.listNodes : List (Expr ρ) → List (Node ρ)
  | [] => []
  | e :: rest => e.nodes ++ Expr.listNodes rest

def Expr.namedNodes : Option (NamedArgs ρ (Expr ρ)) → List (Node ρ)
  | none => []
  | some ⟨label, pairs⟩ => .named ⟨label, pairs⟩ :: Expr.pairNodes pairs

def Expr.pairNodes : List (NamedArg ρ (Expr ρ)) → List (Node ρ)
  | [] => []
  | ⟨label, name, value⟩ :: rest =>
    .pair ⟨label, name, value⟩ :: (value.nodes ++ Expr.pairNodes rest)

end

end Nodes

mutual

def Statement.nodes : Statement Span → List (Node Span)
  | .content label value written => [.statement (.content label value written)]
  | .comment label value => [.statement (.comment label value)]
  | .mustache label call escaped =>
    .statement (.mustache label call escaped) :: Expr.callNodes call
  | .partialCall label call => .statement (.partialCall label call) :: Expr.callNodes call
  | .decorator label call => .statement (.decorator label call) :: Expr.callNodes call
  | .block label call inverted first second =>
    let firstNodes := (first.start, Statement.programNodes first)
    let branches := branchesInOrder Prod.fst inverted firstNodes (Statement.branchNodes second)
    .statement (.block label call inverted first second) ::
      (Expr.callNodes call ++ (branches.map Prod.snd).flatten)
  | .partialBlock label call body =>
    .statement (.partialBlock label call body) ::
      (Expr.callNodes call ++ Statement.programNodes body)
  | .decoratorBlock label call body =>
    .statement (.decoratorBlock label call body) ::
      (Expr.callNodes call ++ Statement.programNodes body)
  | .bare label kind => [.statement (.bare label kind)]

def Statement.programNodes : ProgramOf Span (Statement Span) → List (Node Span)
  | ⟨label, body, blockParams, chained⟩ =>
    .program ⟨label, body, blockParams, chained⟩ :: Statement.listNodes body

def Statement.branchNodes :
    Option (ProgramOf Span (Statement Span)) → Option (Position × List (Node Span))
  | none => none
  | some branch => some (branch.start, Statement.programNodes branch)

def Statement.listNodes : List (Statement Span) → List (Node Span)
  | [] => []
  | s :: rest => s.nodes ++ Statement.listNodes rest

end

/-- All nodes of a tree, every node before the nodes below it. -/
def ProgramOf.nodes (program : Program Span) : List (Node Span) := Statement.programNodes program

end Phrasebook.Template
