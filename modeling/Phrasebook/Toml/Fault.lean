import Phrasebook.Text.Position
import Phrasebook.Text.Quoted

/-!
Complaints about TOML documents. `Fault.message` gives the line and the column at which a document
goes wrong.
-/

namespace Phrasebook.Toml

abbrev Key := List Text

def Key.shown (key : Key) : String :=
  match key.map showText with
  | [name] => s!"({name},)"
  | names => "(" ++ ", ".intercalate names ++ ")"

inductive Complaint where
  | statement
  | lineEnd
  | declaredTwice (key : Key)
  | immutable (key : Key)
  | redefined (key : Key)
  | overwritten
  | tableEnd
  | arrayEnd
  | missingEquals
  | keyStart
  | unclosedArray
  | unclosedTable
  | duplicate (name : Text)
  | badEscape
  | badHex
  | badScalar
  | unterminated
  | missingDelimiter (delimiter : Text)
  | invalidCharacter (c : Char)
  | illegalCharacter (c : Char)
  | badMoment
  | badValue
deriving DecidableEq, Repr

def Complaint.message : Complaint → String
  | .statement => "Invalid statement"
  | .lineEnd => "Expected newline or end of document after a statement"
  | .declaredTwice key => s!"Cannot declare {key.shown} twice"
  | .immutable key => s!"Cannot mutate immutable namespace {key.shown}"
  | .redefined key => s!"Cannot redefine namespace {key.shown}"
  | .overwritten => "Cannot overwrite a value"
  | .tableEnd => "Expected ']' at the end of a table declaration"
  | .arrayEnd => "Expected ']]' at the end of an array declaration"
  | .missingEquals => "Expected '=' after a key in a key/value pair"
  | .keyStart => "Invalid initial character for a key part"
  | .unclosedArray => "Unclosed array"
  | .unclosedTable => "Unclosed inline table"
  | .duplicate name => s!"Duplicate inline table key {showText name}"
  | .badEscape => "Unescaped '\\' in a string"
  | .badHex => "Invalid hex value"
  | .badScalar => "Escaped character is not a Unicode scalar value"
  | .unterminated => "Unterminated string"
  | .missingDelimiter delimiter => s!"Expected {showText delimiter}"
  | .invalidCharacter c => s!"Found invalid character {showText [c]}"
  | .illegalCharacter c => s!"Illegal character {showText [c]}"
  | .badMoment => "Invalid date or datetime"
  | .badValue => "Invalid value"

/-- Why reading a document stops: a complaint with the number of characters left where it shows, or
a whole number with too many digits. -/
inductive Fault where
  | malformed (complaint : Complaint) (left : Nat)
  | longInteger (digits : Nat)
deriving DecidableEq, Repr

def place (text : Text) (left : Nat) : String :=
  if left = 0 then "end of document"
  else
    let position := text.position (text.length - left)
    s!"line {position.line}, column {position.column + 1}"

end Phrasebook.Toml
