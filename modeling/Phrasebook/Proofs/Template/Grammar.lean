import Phrasebook.Proofs.Template.Shape
import Phrasebook.Proofs.Template.Spelling

/-!
A grammar of templates: names, references, calls and items, each with its canonical text and with the
tree that it stands for. What may not occur in a name, a string, a comment or a piece of content is
kept out by the types; only the neighbours of content are left to a predicate, `Items.Spaced`.
-/

namespace Phrasebook.Template.Grammar

/-! ### References -/

/-- A name that is no keyword and does not stand for the current value. -/
structure Name where
  text : Text
  isName : IsName text
  notThis : text ≠ "this".toList

/-- Where a reference starts: among the data of the engine, or some steps up from here. -/
inductive Root where
  | data
  | up (steps : Nat)

/-- A reference: names one below the other. -/
structure Reference where
  root : Root
  first : Name
  more : List Name

namespace Reference

def names (reference : Reference) : List Text := (reference.first :: reference.more).map Name.text

end Reference

def Root.text : Root → Text
  | .data => ['@']
  | .up steps => (List.replicate steps ['.', '.', '/']).flatten

/-- Names behind another name. -/
def dotted (names : List Name) : Text := names.flatMap fun name => '.' :: name.text

def Reference.text (reference : Reference) : Text :=
  reference.root.text ++ (reference.first.text ++ dotted reference.more)

/-- The reference in a tree. -/
def Reference.path (reference : Reference) : Path where
  written := reference.text
  parts := reference.names
  data := match reference.root with
    | .data => true
    | .up _ => false
  depth := match reference.root with
    | .data => 0
    | .up steps => steps

/-! ### Calls -/

/-- A text that can be put in quotes. -/
structure Quotable where
  text : Text
  plain : '\\' ∉ text

/-- A whole number of a length that can be read. -/
structure Whole where
  value : Int
  short : (Nat.toDigits 10 value.natAbs).length ≤ Text.maxDigits

def Whole.text (number : Whole) : Text :=
  if number.value < 0 then '-' :: Nat.toDigits 10 number.value.natAbs
  else Nat.toDigits 10 number.value.natAbs

mutual

/-- An operand of a call. -/
inductive Operand where
  | reference (reference : Reference)
  | string (text : Quotable)
  | whole (number : Whole)
  | boolean (value : Bool)
  | undefined
  | null
  | sub (callee : Reference) (arguments : Arguments)

/-- The arguments of a call: the positional ones first. -/
inductive Arguments where
  | named (pairs : Pairs)
  | param (first : Operand) (rest : Arguments)

/-- The named arguments of a call. -/
inductive Pairs where
  | none
  | pair (name : Name) (value : Operand) (rest : Pairs)

end

mutual

def Operand.text : Operand → Text
  | .reference reference => reference.text
  | .string text => quoted text.text
  | .whole number => number.text
  | .boolean true => ['t', 'r', 'u', 'e']
  | .boolean false => ['f', 'a', 'l', 's', 'e']
  | .undefined => ['u', 'n', 'd', 'e', 'f', 'i', 'n', 'e', 'd']
  | .null => ['n', 'u', 'l', 'l']
  | .sub callee arguments => '(' :: (callee.text ++ (arguments.text ++ [')']))

/-- The arguments with a space in front of each. -/
def Arguments.text : Arguments → Text
  | .named pairs => pairs.text
  | .param first rest => ' ' :: (first.text ++ rest.text)

/-- The named arguments with a space in front of each. -/
def Pairs.text : Pairs → Text
  | .none => []
  | .pair name value rest => ' ' :: (name.text ++ '=' :: (value.text ++ rest.text))

end

mutual

/-- The operand in a tree. -/
def Operand.expr : Operand → Expr Unit
  | .reference reference => .path .blank reference.path
  | .string text => .literal .blank (.string text.text)
  | .whole number => .literal .blank (.number (.int number.value) number.text)
  | .boolean value => .literal .blank (.boolean value)
  | .undefined => .literal .blank .undefined
  | .null => .literal .blank .null
  | .sub callee arguments =>
    .sub .blank ⟨.path .blank callee.path, arguments.params, arguments.namedArgs⟩

def Arguments.params : Arguments → List (Expr Unit)
  | .named _ => []
  | .param first rest => first.expr :: rest.params

def Arguments.namedArgs : Arguments → Option (NamedArgs Unit (Expr Unit))
  | .named .none => none
  | .named (.pair name value rest) =>
    some ⟨.blank, ⟨.blank, name.text, value.expr⟩ :: rest.list⟩
  | .param _ rest => rest.namedArgs

def Pairs.list : Pairs → List (NamedArg Unit (Expr Unit))
  | .none => []
  | .pair name value rest => ⟨.blank, name.text, value.expr⟩ :: rest.list

end

/-- What a tag calls, with its arguments. -/
structure Invocation where
  callee : Reference
  arguments : Arguments

def Invocation.text (call : Invocation) : Text := call.callee.text ++ call.arguments.text

/-- The call in a tree. -/
def Invocation.call (call : Invocation) : Call Unit :=
  ⟨.path .blank call.callee.path, call.arguments.params, call.arguments.namedArgs⟩

/-! ### Statements -/

/-- The text of a comment. -/
structure Remark where
  text : Text
  stripped : Text.strip text = text
  noDashes : ¬['-', '-'] <:+: text

/-- A piece of content. -/
structure Prose where
  text : Text
  filled : text ≠ []
  plain : '\\' ∉ text
  single : ¬['{', '{'] <:+: text

mutual

inductive Item where
  | content (prose : Prose)
  | comment (remark : Remark)
  | mustache (escaped : Bool) (call : Invocation)
  | partialCall (call : Invocation)
  | block (call : Invocation) (names : List Name) (body : Items) (tail : Tail)
  | inverse (call : Invocation) (body : Items)

inductive Items where
  | nil
  | cons (first : Item) (rest : Items)

/-- What follows the first branch of a block. -/
inductive Tail where
  | none
  | otherwise (body : Items)
  | chained (call : Invocation) (body : Items) (tail : Tail)

end

/-- A text between two braces on each side. -/
def braced (inner : Text) : Text := ['{', '{'] ++ inner ++ ['}', '}']

/-- Names behind another name, with a space in front of each. -/
def spaced (names : List Name) : Text := names.flatMap fun name => ' ' :: name.text

/-- The block parameters behind a call. -/
def paramsText (names : List Name) : Text :=
  match names with
  | [] => []
  | first :: more => [' ', 'a', 's', ' ', '|'] ++ (first.text ++ (spaced more ++ ['|']))

mutual

def Item.text : Item → Text
  | .content prose => prose.text
  | .comment remark => braced (['!', '-', '-', ' '] ++ (remark.text ++ [' ', '-', '-']))
  | .mustache true call => braced call.text
  | .mustache false call => braced ('{' :: (call.text ++ ['}']))
  | .partialCall call => braced (['>', ' '] ++ call.text)
  | .block call names body tail =>
    braced ('#' :: (call.text ++ paramsText names)) ++ body.text ++ tail.text ++
      braced ('/' :: call.callee.text)
  | .inverse call body => braced ('^' :: call.text) ++ body.text ++ braced ('/' :: call.callee.text)

def Items.text : Items → Text
  | .nil => []
  | .cons first rest => first.text ++ rest.text

def Tail.text : Tail → Text
  | .none => []
  | .otherwise body => braced ['e', 'l', 's', 'e'] ++ body.text
  | .chained call body tail => braced (['e', 'l', 's', 'e', ' '] ++ call.text) ++ body.text ++ tail.text

end

mutual

/-- The statement in a tree. -/
def Item.statement : Item → Statement Unit
  | .content prose => .content .blank prose.text prose.text
  | .comment remark => .comment .blank remark.text
  | .mustache escaped call => .mustache .blank call.call escaped
  | .partialCall call => .partialCall .blank call.call
  | .block call names body tail =>
    .block .blank call.call false ⟨.blank, body.statements, names.map Name.text, false⟩ tail.branch
  | .inverse call body => .block .blank call.call true ⟨.blank, body.statements, [], false⟩ none

def Items.statements : Items → List (Statement Unit)
  | .nil => []
  | .cons first rest => first.statement :: rest.statements

/-- The second branch of a block. The branch for an else tag with a call holds a block of its own. -/
def Tail.branch : Tail → Option (Program Unit)
  | .none => none
  | .otherwise body => some ⟨.blank, body.statements, [], false⟩
  | .chained call body tail =>
    some ⟨.blank, [.block .blank call.call false ⟨.blank, body.statements, [], false⟩ tail.branch], [], true⟩

end

/-- The tree of a whole template. -/
def Items.tree (items : Items) : Program Unit := ⟨.blank, items.statements, [], false⟩

/-! ### Neighbours of content -/

/-- Content can stand in front of a tag. -/
def Prose.fitsBeforeTag (prose : Prose) : Prop := prose.text.getLast? ≠ some '{'

instance {prose : Prose} : Decidable prose.fitsBeforeTag := inferInstanceAs (Decidable (_ ≠ _))

mutual

/-- Content never stands next to content, nor in front of a tag when it ends in a brace. `closed` says
whether a tag stands behind the items. -/
def Items.Spaced (closed : Bool) : Items → Prop
  | .nil => True
  | .cons (.content prose) .nil => closed = true → prose.fitsBeforeTag
  | .cons (.content _) (.cons (.content _) _) => False
  | .cons (.content prose) rest => prose.fitsBeforeTag ∧ rest.Spaced closed
  | .cons first rest => first.Spaced ∧ rest.Spaced closed

def Item.Spaced : Item → Prop
  | .block _ _ body tail => body.Spaced true ∧ tail.Spaced
  | .inverse _ body => body.Spaced true
  | _ => True

def Tail.Spaced : Tail → Prop
  | .none => True
  | .otherwise body => body.Spaced true
  | .chained _ body tail => body.Spaced true ∧ tail.Spaced

end

end Phrasebook.Template.Grammar
