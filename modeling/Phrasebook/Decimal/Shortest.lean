import Phrasebook.Decimal.Binary64

/-!
The decimal text of a double-precision number: the fewest digits that read back as the number, the
nearest of those, written positionally for middling sizes and with an exponent otherwise.
-/

namespace Phrasebook

namespace Binary64

/-- The power of ten of the first digit of a positive fraction: the largest `e` with
`10 ^ e ≤ num / den`. -/
def leadingPower (num den : Nat) : Int :=
  if num ≥ den then ((Nat.toDigits 10 (num / den)).length : Int) - 1
  else -((Nat.toDigits 10 ((den + num - 1) / num - 1)).length : Int)

/-- The digits and scale of the decimal with `count` digits next to a positive fraction that reads
back as `target`, if there is one: of the two neighbours the nearer that reads back. -/
def readBack? (target : Binary64) (num den count : Nat) : Option (Nat × Int) :=
  let scale : Int := leadingPower num den - (count - 1)
  let (n, d) :=
    if 0 ≤ scale then (num, den * Nat.pow 10 scale.toNat)
    else (num * Nat.pow 10 (-scale).toNat, den)
  let low := n / d
  let near := roundDiv n d
  let far := if near == low then low + 1 else low
  if ofDecimal false near scale == target then some (near, scale)
  else if ofDecimal false far scale == target then some (far, scale)
  else none

/-- The fewest digits that read back, with their scale: the number is about `digits * 10 ^ scale`.
Seventeen digits always read back. -/
def shortest (significand : Nat) (exponent : Int) : Nat × Int :=
  let target := Binary64.finite false significand exponent
  let (num, den) := fraction significand exponent
  if num == 0 then (0, 0)
  else ((List.range 17).findSome? fun i => readBack? target num den (i + 1)).getD (num / den, 0)

structure Layout where
  /-- Smallest power of ten of the first digit that is written positionally. -/
  low : Int
  /-- Smallest power of ten of the first digit that is too large to be written positionally. -/
  high : Int
  /-- Text of positive infinity. -/
  infinity : String
  /-- Text of the number that is not one. -/
  nan : String

def trimZeros (digits : List Char) : List Char :=
  match (digits.reverse.dropWhile (· == '0')).reverse with
  | [] => ['0']
  | kept => kept

/-- The text of the positive decimal with the given digits whose first digit stands for `power`. -/
def layDigits (layout : Layout) (digits : List Char) (power : Int) : List Char :=
  if layout.low ≤ power && power < layout.high then
    if power < 0 then '0' :: '.' :: (List.replicate (-power - 1).toNat '0' ++ digits)
    else
      let whole := power.toNat + 1
      let padded := digits ++ List.replicate (whole - digits.length) '0'
      let fraction := padded.drop whole
      padded.take whole ++ '.' :: (if fraction.isEmpty then ['0'] else fraction)
  else
    let size := Nat.toDigits 10 power.natAbs
    let size := if size.length < 2 then '0' :: size else size
    let sign := if power < 0 then '-' else '+'
    let tail := digits.drop 1
    digits.take 1 ++ (if tail.isEmpty then [] else '.' :: tail) ++ 'e' :: sign :: size

def text (layout : Layout) : Binary64 → String
  | .nan => layout.nan
  | .infinite negative => (if negative then "-" else "") ++ layout.infinity
  | .finite negative significand exponent =>
    let (digits, scale) := shortest significand exponent
    let written := Nat.toDigits 10 digits
    let power := scale + (written.length - 1 : Int)
    let body := layDigits layout (trimZeros written) power
    (if negative then "-" else "") ++ String.ofList body

/-- Numbers in reports: positional from `0.0001` up to sixteen places before the point, and with an
exponent of at least two digits otherwise. -/
def plainLayout : Layout := ⟨-4, 16, "inf", "nan"⟩

end Binary64

end Phrasebook
