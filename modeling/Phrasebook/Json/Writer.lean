import Phrasebook.Json.Value
import Phrasebook.Decimal.Shortest

/-!
Writing JSON. A style says how values are laid out: on one line or indented, and whether characters
outside of ASCII are escaped.
-/

namespace Phrasebook

namespace Json

/-- Numbers that are not whole are written as in reports, the infinite ones by name. -/
def floatLayout : Binary64.Layout :=
  { Binary64.plainLayout with infinity := "Infinity", nan := "NaN" }

structure Style where
  /-- The text of one step of indentation; without it everything stands on one line. -/
  indentation : Option CodePoints
  /-- Whether characters outside of ASCII are escaped. -/
  ascii : Bool

def hex4 (n : Nat) : CodePoints :=
  [n / 4096, n / 256, n / 16, n].map fun digit => .char (Nat.digitChar (digit % 16))

def escapeUnit (n : Nat) : CodePoints := '\\' :: 'u' :: hex4 n

def escapePoint (ascii : Bool) (c : CodePoint) : CodePoints :=
  match c with
  | .char '"' => ['\\', '"']
  | .char '\\' => ['\\', '\\']
  | .char '\n' => ['\\', 'n']
  | .char '\r' => ['\\', 'r']
  | .char '\t' => ['\\', 't']
  | .char '\x0c' => ['\\', 'f']
  | .char '\x08' => ['\\', 'b']
  | c =>
    let n := c.value
    if n < 0x20 then escapeUnit n
    else if ascii && n > 0x7E then
      if n < 0x10000 then escapeUnit n
      else
        escapeUnit (0xD800 + (n - 0x10000) / 0x400) ++ escapeUnit (0xDC00 + (n - 0x10000) % 0x400)
    else [c]

def quote (ascii : Bool) (text : CodePoints) : CodePoints :=
  '"' :: (text.flatMap (escapePoint ascii) ++ [.char '"'])

def Style.break (style : Style) (depth : Nat) : CodePoints :=
  match style.indentation with
  | none => []
  | some step => '\n' :: (List.replicate depth step).flatten

def Style.separator (style : Style) (depth : Nat) : CodePoints :=
  match style.indentation with
  | none => [',', ' ']
  | some _ => ',' :: style.break depth

mutual

def writeAt (style : Style) (depth : Nat) : Json → CodePoints
  | .null => CodePoints.ofString "null"
  | .bool value => CodePoints.ofString (if value then "true" else "false")
  | .int value => CodePoints.ofString (toString value)
  | .float value => CodePoints.ofString (value.text floatLayout)
  | .string value => quote style.ascii value
  | .array [] => ['[', ']']
  | .array (item :: rest) =>
    '[' :: (style.break (depth + 1) ++ writeAt style (depth + 1) item ++
      writeItems style (depth + 1) rest ++ style.break depth ++ [.char ']'])
  | .object [] => ['{', '}']
  | .object ((name, value) :: rest) =>
    '{' :: (style.break (depth + 1) ++ quote style.ascii name ++ [.char ':', .char ' '] ++
      writeAt style (depth + 1) value ++ writeMembers style (depth + 1) rest ++
      style.break depth ++ [.char '}'])

def writeItems (style : Style) (depth : Nat) : List Json → CodePoints
  | [] => []
  | item :: rest => style.separator depth ++ writeAt style depth item ++ writeItems style depth rest

def writeMembers (style : Style) (depth : Nat) : List (CodePoints × Json) → CodePoints
  | [] => []
  | (name, value) :: rest =>
    style.separator depth ++ quote style.ascii name ++ [.char ':', .char ' '] ++ writeAt style depth value ++
      writeMembers style depth rest

end

def write (style : Style) (value : Json) : CodePoints := writeAt style 0 value

def withBreaks (newline text : CodePoints) : CodePoints :=
  text.flatMap fun c => if c = .char '\n' then newline else [c]

def lineStyle : Style := ⟨none, true⟩

def indentedStyle (step : CodePoints) : Style := ⟨some step, false⟩

end Json

end Phrasebook
