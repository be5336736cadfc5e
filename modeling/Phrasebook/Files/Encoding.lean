import Phrasebook.Text.CodePoint

/-!
Texts as bytes. Files hold their texts in UTF-8; for bytes that are no such text,
`Encoding.firstFault?` says where they go wrong and how. Strings with lone halves of surrogate pairs
have no bytes.
-/

namespace Phrasebook.Encoding

def encode (text : Text) : ByteArray := (String.ofList text).toUTF8

def decode? (bytes : ByteArray) : Option Text := (String.fromUTF8? bytes).map String.toList

/-! ### Strings without bytes -/

/-- The halves that cannot be written: the number of the first one, its offset, and how many of them
follow each other. -/
structure Unencodable where
  value : Nat
  offset : Nat
  count : Nat
deriving DecidableEq, Repr

def Unencodable.message (fault : Unencodable) : String :=
  let halves := if fault.count = 1 then
      s!"character '\\u{String.ofList (Nat.toDigits 16 fault.value)}' in position {fault.offset}"
    else s!"characters in position {fault.offset}-{fault.offset + fault.count - 1}"
  s!"'utf-8' codec can't encode {halves}: surrogates not allowed"

def encodePoints (points : CodePoints) : Except Unencodable ByteArray :=
  match points.dropWhile CodePoint.isChar with
  | [] => .ok (encode (points.filterMap CodePoint.char?))
  | first :: rest => .error {
      value := first.value
      offset := (points.takeWhile CodePoint.isChar).length
      count := 1 + (rest.takeWhile fun point => !point.isChar).length }

/-! ### Bytes without text -/

inductive Flaw where
  /-- A byte that starts no character. -/
  | start
  /-- A byte that does not continue the character begun. -/
  | continuation
  /-- The bytes end inside of a character. -/
  | truncated
deriving DecidableEq, Repr

def Flaw.message : Flaw → String
  | .start => "invalid start byte"
  | .continuation => "invalid continuation byte"
  | .truncated => "unexpected end of data"

/-- The bytes that cannot be read: the first of them, its offset, their number, and the flaw. -/
structure Fault where
  byte : Nat
  offset : Nat
  count : Nat
  flaw : Flaw
deriving DecidableEq, Repr

def Fault.message (fault : Fault) : String :=
  let hex := Nat.toDigits 16 fault.byte
  let digits := String.ofList (List.replicate (2 - hex.length) '0' ++ hex)
  let bytes := if fault.count = 1 then s!"byte 0x{digits} in position {fault.offset}"
    else s!"bytes in position {fault.offset}-{fault.offset + fault.count - 1}"
  s!"'utf-8' codec can't decode {bytes}: {fault.flaw.message}"

/-- The ranges in which the bytes after a first byte must lie, unless it starts no character. -/
def tails? (byte : Nat) : Option (List (Nat × Nat)) :=
  let any := (0x80, 0xBF)
  if byte < 0x80 then some []
  else if byte < 0xC2 then none
  else if byte < 0xE0 then some [any]
  else if byte = 0xE0 then some [(0xA0, 0xBF), any]
  else if byte = 0xED then some [(0x80, 0x9F), any]
  else if byte < 0xF0 then some [any, any]
  else if byte = 0xF0 then some [(0x90, 0xBF), any, any]
  else if byte < 0xF4 then some [any, any, any]
  else if byte = 0xF4 then some [(0x80, 0x8F), any, any]
  else none

/-- The flaw in the bytes after a first byte, with the number of bytes read so far. -/
def tailFlaw? (count : Nat) : List (Nat × Nat) → List Nat → Option (Nat × Flaw)
  | [], _ => none
  | _ :: _, [] => some (count, .truncated)
  | (low, high) :: ranges, byte :: rest =>
    if low ≤ byte ∧ byte ≤ high then tailFlaw? (count + 1) ranges rest
    else some (count, .continuation)

/-- The first place where bytes are no text. `skip` counts the bytes that belong to a character read
before. -/
def faultFrom? (offset skip : Nat) : List Nat → Option Fault
  | [] => none
  | byte :: rest =>
    match skip with
    | skip + 1 => faultFrom? (offset + 1) skip rest
    | 0 =>
      match tails? byte with
      | none => some ⟨byte, offset, 1, .start⟩
      | some ranges =>
        match tailFlaw? 1 ranges rest with
        | some (count, flaw) => some ⟨byte, offset, count, flaw⟩
        | none => faultFrom? (offset + 1) ranges.length rest

def firstFault? (bytes : ByteArray) : Option Fault := faultFrom? 0 0 (bytes.toList.map UInt8.toNat)

def decode (bytes : ByteArray) : Except Fault Text :=
  match firstFault? bytes with
  | some fault => .error fault
  | none => .ok ((decode? bytes).getD [])

end Phrasebook.Encoding
