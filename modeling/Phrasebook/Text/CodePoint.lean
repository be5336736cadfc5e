import Phrasebook.Text.Blank

/-!
Code points. Half of a surrogate pair that stands alone is a code point, but no character: JSON can
spell it and a string can hold it, while a text that was read from a file has characters only, and
no file can hold anything else.
-/

namespace Phrasebook

/-- A character, or half of a surrogate pair that stands alone. -/
inductive CodePoint where
  | char (c : Char)
  | half (unit : Fin 0x800)
deriving DecidableEq, Repr

abbrev CodePoints := List CodePoint

namespace CodePoint

instance : Coe Char CodePoint := ⟨char⟩

/-- The number of a code point. The halves of pairs have the numbers from `0xD800` on. -/
def value : CodePoint → Nat
  | .char c => c.toNat
  | .half unit => 0xD800 + unit

def isBlank : CodePoint → Bool
  | .char c => Text.isBlank c
  | .half _ => false

def isChar : CodePoint → Bool
  | .char _ => true
  | .half _ => false

def char? : CodePoint → Option Char
  | .char c => some c
  | .half _ => none

end CodePoint

def Text.points (text : Text) : CodePoints := text.map .char

namespace CodePoints

def ofString (text : String) : CodePoints := Text.points text.toList

/-- The strings in ascending order: code point by code point, a shorter string before its
continuations. -/
def sorted (strings : List CodePoints) : List CodePoints :=
  strings.mergeSort fun a b => !(b.map CodePoint.value).lex (a.map CodePoint.value) Nat.blt

end CodePoints

end Phrasebook
