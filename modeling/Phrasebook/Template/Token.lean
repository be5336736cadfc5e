import Phrasebook.Template.Fault

/-!
The tokens of the expression inside of a tag. `lexeme?` says how far the token at the start of a
text reaches, and `tokens` cuts a whole text; blanks separate tokens and leave none behind.
-/

namespace Phrasebook.Template

inductive TokenKind where
  | openParams
  | closeParams
  | openSub
  | closeSub
  | equals
  | string
  | data
  | number
  | boolean
  | undefined
  | null
  | name
  | separator
deriving DecidableEq, Repr

structure Token where
  kind : TokenKind
  text : Text
  extent : Extent
deriving DecidableEq, Repr

def Token.startsOperand (token : Token) : Bool :=
  match token.kind with
  | .name | .data | .string | .number | .boolean | .undefined | .null | .openSub => true
  | _ => false

/-! ### Character classes -/

/-- The characters that names are made of: all but blanks and the marks listed here. -/
def isNameChar (c : Char) : Bool :=
  !Text.isBlank c && !"!\"#%&'()*+,./;<=>@[\\]^\x60\x7b|\x7d~".toList.contains c

def endsName : Text → Bool
  | [] => true
  | c :: _ => Text.isBlank c || ['=', '~', '}', '/', '.', ')', '|'].contains c

def endsLiteral : Text → Bool
  | [] => true
  | c :: _ => Text.isBlank c || ['~', '}', ')'].contains c

def isDigit (c : Char) : Bool := '0' ≤ c && c ≤ '9'

/-! ### How far a token reaches -/

/-- The number of characters up to and with the first closing mark that no backslash precedes,
`before` being the character in front of the text. -/
def unescapedMark (mark before : Char) : Text → Option Nat
  | [] => none
  | c :: rest =>
    if c = mark ∧ before ≠ '\\' then some 1 else (unescapedMark mark c rest).map (· + 1)

def lastMark (mark : Char) : Text → Option Nat
  | [] => none
  | c :: rest =>
    match lastMark mark rest with
    | some n => some (n + 1)
    | none => if c = mark then some 1 else none

/-- The length of a delimited text after its opening mark: up to the first closing mark without a
backslash in front of it, and up to the last closing mark if all have one. -/
def delimited? (opening mark : Char) (text : Text) : Option Nat :=
  match unescapedMark mark opening text with
  | some n => some n
  | none => lastMark mark text

/-- The length of the number at the start of a text: an optional minus sign, digits, and optionally
a point and digits. -/
def number? (text : Text) : Option Nat :=
  let sign := match text with
    | '-' :: _ => 1
    | _ => 0
  let whole := ((text.drop sign).takeWhile isDigit).length
  let fraction := match text.drop (sign + whole) with
    | '.' :: rest => (rest.takeWhile isDigit).length
    | _ => 0
  let length := sign + whole + if fraction = 0 then 0 else 1 + fraction
  if whole ≠ 0 ∧ endsLiteral (text.drop length) then some length else none

def word? (word text : Text) : Option Nat :=
  if text.startsWith word && endsLiteral (text.drop word.length) then some word.length else none

def name? (text : Text) : Option Nat :=
  let length := (text.takeWhile isNameChar).length
  if length ≠ 0 ∧ endsName (text.drop length) then some length else none

def openParams? : Text → Option Nat
  | 'a' :: 's' :: rest =>
    let blanks := (rest.takeWhile Text.isBlank).length
    match rest.drop blanks with
    | '|' :: _ => if blanks = 0 then none else some (blanks + 3)
    | _ => none
  | _ => none

def lexeme? (c : Char) (rest : Text) : Option (TokenKind × Nat) :=
  let text := c :: rest
  (openParams? text).map (TokenKind.openParams, ·) <|>
  (if c = '|' then some (.closeParams, 1) else none) <|>
  (if c = '(' then some (.openSub, 1) else none) <|>
  (if c = ')' then some (.closeSub, 1) else none) <|>
  (if c = '=' then some (.equals, 1) else none) <|>
  (if c = '"' ∨ c = '\'' then (delimited? c c rest).map fun n => (.string, n + 1) else none) <|>
  (if c = '@' then some (.data, 1) else none) <|>
  (number? text).map (TokenKind.number, ·) <|>
  (word? "true".toList text).map (TokenKind.boolean, ·) <|>
  (word? "false".toList text).map (TokenKind.boolean, ·) <|>
  (word? "undefined".toList text).map (TokenKind.undefined, ·) <|>
  (word? "null".toList text).map (TokenKind.null, ·) <|>
  (if Text.startsWith text ['.', '.'] then some (.name, 2) else none) <|>
  (if c = '.' ∧ endsName rest then some (.name, 1) else none) <|>
  (if c = '.' ∨ c = '/' then some (.separator, 1) else none) <|>
  (name? text).map (TokenKind.name, ·) <|>
  (if c = '[' then (delimited? c ']' rest).map fun n => (.name, n + 1) else none)

/-- The tokens of a text that starts at the given offset. A token has at least one character, so
the first one of the text belongs to it. -/
def tokens (offset : Nat) : Text → Except Fault (List Token)
  | [] => .ok []
  | c :: rest =>
    if Text.isBlank c then tokens (offset + 1) rest
    else match lexeme? c rest with
      | none => .error (.malformed (.unexpectedCharacter c) offset)
      | some (kind, length) => do
        let others ← tokens (offset + 1 + (length - 1)) (rest.drop (length - 1))
        .ok (⟨kind, c :: rest.take (length - 1), ⟨offset, offset + 1 + (length - 1)⟩⟩ :: others)
termination_by text => text.length

end Phrasebook.Template
