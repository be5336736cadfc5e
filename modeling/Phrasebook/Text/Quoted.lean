import Phrasebook.Text.Hidden

/-!
Texts between quotes, as messages show them. Quotes, backslashes and characters that show nothing
are escaped.
-/

namespace Phrasebook

def showChar (quote c : Char) : Text :=
  let digits (count : Nat) (n : Nat) : Text :=
    let hex := Nat.toDigits 16 n
    List.replicate (count - hex.length) '0' ++ hex
  if c = quote ∨ c = '\\' then ['\\', c]
  else match c with
    | '\n' => ['\\', 'n']
    | '\r' => ['\\', 'r']
    | '\t' => ['\\', 't']
    | c =>
      if !Text.isHidden c then [c]
      else if c.toNat < 0x100 then '\\' :: 'x' :: digits 2 c.toNat
      else if c.toNat < 0x10000 then '\\' :: 'u' :: digits 4 c.toNat
      else '\\' :: 'U' :: digits 8 c.toNat

/-- A text between quotes: single ones, unless only single ones occur in it. -/
def showText (text : Text) : String :=
  let quote := if text.contains '\'' && !text.contains '"' then '"' else '\''
  String.ofList (quote :: (text.flatMap (showChar quote) ++ [quote]))

end Phrasebook
