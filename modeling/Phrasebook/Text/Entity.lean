import Phrasebook.Text.EntityTable
import Phrasebook.Text.Blank
import Phrasebook.Text.Digit

/-!
Character references of HTML and the texts that they stand for. `unescape` replaces every reference
in a text. A name without its semicolon stands for itself where the table has it in that form; of a
longer name the longest beginning in the table counts.
-/

namespace Phrasebook.Text

/-! ### Names -/

def hexValue? (c : Char) : Option Nat :=
  if '0' ≤ c && c ≤ '9' then some (c.toNat - '0'.toNat)
  else if 'a' ≤ c && c ≤ 'f' then some (c.toNat - 'a'.toNat + 10)
  else if 'A' ≤ c && c ≤ 'F' then some (c.toNat - 'A'.toNat + 10)
  else none

/-- The number that a run of digits spells in a base; characters that are no digits count as zero.
-/
def numeral (base : Nat) (digits : Text) : Nat :=
  digits.foldl (fun n c => base * n + (hexValue? c).getD 0) 0

def splitOn (separator : Char) : Text → List Text
  | [] => [[]]
  | c :: rest =>
    match splitOn separator rest with
    | [] => [[c]]
    | piece :: others => if c = separator then [] :: piece :: others else (c :: piece) :: others

def readEntry (entry : Text) : Text × Text :=
  (entry.takeWhile (· ≠ '='),
    (splitOn '+' ((entry.dropWhile (· ≠ '=')).drop 1)).map fun n => Char.ofNat (numeral 16 n))

def entities : List (Text × Text) :=
  entityEntries.flatMap fun group => (splitOn ' ' group.toList).map readEntry

def entity? (name : Text) : Option Text :=
  (entities.find? fun entry => entry.1 == name).map Prod.snd

/-- The longest beginning of a name, of at most `length` and at least two characters, that is in the
table: its text followed by the rest of the name. -/
def entityPrefix? (name : Text) : Nat → Option Text
  | 0 | 1 => none
  | length + 1 =>
    match entity? (name.take (length + 1)) with
    | some text => some (text ++ name.drop (length + 1))
    | none => entityPrefix? name length

def named (name : Text) : Text :=
  match entity? name with
  | some text => text
  | none => (entityPrefix? name (name.length - 1)).getD ('&' :: name)

/-! ### Numbers -/

/-- The characters that the numbers from 128 to 159 stand for: those of a code page of old. Numbers
that the page leaves free stand for themselves. -/
def highControls : List Nat :=
  [0x20AC, 0x81, 0x201A, 0x192, 0x201E, 0x2026, 0x2020, 0x2021, 0x2C6, 0x2030, 0x160, 0x2039, 0x152,
    0x8D, 0x17D, 0x8F, 0x90, 0x2018, 0x2019, 0x201C, 0x201D, 0x2022, 0x2013, 0x2014, 0x2DC, 0x2122,
    0x161, 0x203A, 0x153, 0x9D, 0x17E, 0x178]

/-- Whether a number stands for nothing: control characters and code points that are never
characters. -/
def isVoid (n : Nat) : Bool :=
  (1 ≤ n && n ≤ 8) || n == 0xB || (0xE ≤ n && n ≤ 0x1F) || n == 0x7F ||
    (0xFDD0 ≤ n && n ≤ 0xFDEF) ||
    n % 0x10000 == 0xFFFE || n % 0x10000 == 0xFFFF

def numbered (n : Nat) : Text :=
  if n == 0 || (0xD800 ≤ n && n ≤ 0xDFFF) || n > 0x10FFFF then ['\uFFFD']
  else if 0x80 ≤ n && n ≤ 0x9F then [Char.ofNat (highControls.getD (n - 0x80) n)]
  else if isVoid n then []
  else [Char.ofNat n]

/-! ### References in a text -/

def maxNameLength : Nat := 32

def isEntityChar (c : Char) : Bool :=
  !(['\t', '\n', '\x0c', ' ', '<', '&', '#', ';'].contains c)

structure LongReference where
  digits : Nat
deriving DecidableEq, Repr

structure Reference where
  text : Text
  length : Nat

def semicolon : Text → Nat
  | ';' :: _ => 1
  | _ => 0

def isReferenceDigit (c : Char) : Bool := '0' ≤ c && c ≤ '9'

def reference? (text : Text) : Option (Except LongReference Reference) :=
  let hexadecimal (rest : Text) : Option (Except LongReference Reference) :=
    let digits := rest.takeWhile fun c => (hexValue? c).isSome
    if digits.isEmpty then none
    else some (.ok ⟨numbered (numeral 16 digits),
      2 + digits.length + semicolon (rest.drop digits.length)⟩)
  match text with
  | '#' :: 'x' :: rest => hexadecimal rest
  | '#' :: 'X' :: rest => hexadecimal rest
  | '#' :: rest =>
    let digits := rest.takeWhile isReferenceDigit
    if digits.isEmpty then none
    else if digits.length > maxDigits then some (.error ⟨digits.length⟩)
    else some (.ok ⟨numbered (numeral 10 digits),
      1 + digits.length + semicolon (rest.drop digits.length)⟩)
  | _ =>
    let name := (text.takeWhile isEntityChar).take maxNameLength
    if name.isEmpty then none
    else
      let length := name.length + semicolon (text.drop name.length)
      some (.ok ⟨named (text.take length), length⟩)

/-- The text with every reference replaced. The first argument counts the characters of a reference
that are still to be skipped. -/
def unescapeFrom : Nat → Text → Except LongReference Text
  | _, [] => .ok []
  | skip + 1, _ :: rest => unescapeFrom skip rest
  | 0, c :: rest =>
    if c = '&' then
      match reference? rest with
      | some (.ok found) => do .ok (found.text ++ (← unescapeFrom found.length rest))
      | some (.error long) => .error long
      | none => do .ok (c :: (← unescapeFrom 0 rest))
    else do .ok (c :: (← unescapeFrom 0 rest))

def unescape (text : Text) : Except LongReference Text := unescapeFrom 0 text

end Phrasebook.Text
