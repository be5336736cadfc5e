import Phrasebook.Text.Blank

/-!
The decimal digits of all scripts and the whole numbers written with them. A whole number with too
many digits is refused, wherever it is written.
-/

namespace Phrasebook.Text

def maxDigits : Nat := 4300

def longIntegerMessage (digits : Nat) : String :=
  s!"Exceeds the limit ({maxDigits} digits) for integer string conversion: value has " ++
    s!"{digits} digits; use sys.set_int_max_str_digits() to increase the limit"

/-- The zeros of the scripts; the other nine digits of a script follow its zero. -/
def zeros : List Nat :=
  [
    0x30, 0x660, 0x6f0, 0x7c0, 0x966, 0x9e6, 0xa66, 0xae6, 0xb66, 0xbe6, 0xc66, 0xce6, 0xd66,
    0xde6, 0xe50, 0xed0, 0xf20, 0x1040, 0x1090, 0x17e0, 0x1810, 0x1946, 0x19d0, 0x1a80, 0x1a90,
    0x1b50, 0x1bb0, 0x1c40, 0x1c50, 0xa620, 0xa8d0, 0xa900, 0xa9d0, 0xa9f0, 0xaa50, 0xabf0,
    0xff10, 0x104a0, 0x10d30, 0x11066, 0x110f0, 0x11136, 0x111d0, 0x112f0, 0x11450, 0x114d0,
    0x11650, 0x116c0, 0x11730, 0x118e0, 0x11950, 0x11c50, 0x11d50, 0x11da0, 0x16a60, 0x16ac0,
    0x16b50, 0x1d7ce, 0x1d7d8, 0x1d7e2, 0x1d7ec, 0x1d7f6, 0x1e140, 0x1e2f0, 0x1e950, 0x1fbf0]

def digit? (c : Char) : Option Nat :=
  (zeros.find? fun first => first ≤ c.toNat && c.toNat ≤ first + 9).map (c.toNat - ·)

def digitValues? : Text → Option (List Nat)
  | [] => none
  | [c] => (digit? c).map ([·])
  | c :: '_' :: rest => do (← digit? c) :: (← digitValues? rest)
  | c :: rest => do (← digit? c) :: (← digitValues? rest)

/-- The whole number that a text spells, blanks around it apart: an optional sign and digits of any
script, single underscores between them allowed. -/
def int? (text : Text) : Option Int :=
  let body := strip text
  let (negative, digits) := match body with
    | '-' :: rest => (true, rest)
    | '+' :: rest => (false, rest)
    | rest => (false, rest)
  match digitValues? digits with
  | none => none
  | some values =>
    if values.length > maxDigits then none
    else
      let size : Nat := values.foldl (fun n digit => 10 * n + digit) 0
      some (if negative then -(size : Int) else size)

end Phrasebook.Text
