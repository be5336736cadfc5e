/-!
Texts are lists of characters. This file says which characters are blank and cuts blanks off the
ends of a text.
-/

namespace Phrasebook

/-- A text, one element per code point. -/
abbrev Text := List Char

namespace Text

/-- The blank characters: the ASCII separators, the file, group, record and unit separators, and the
space separators and line breaks of Unicode. -/
def isBlank (c : Char) : Bool :=
  let n := c.toNat
  (0x09 ≤ n && n ≤ 0x0D) || (0x1C ≤ n && n ≤ 0x20) || n == 0x85 || n == 0xA0 || n == 0x1680 ||
    (0x2000 ≤ n && n ≤ 0x200A) || n == 0x2028 || n == 0x2029 || n == 0x202F || n == 0x205F ||
    n == 0x3000

def stripLeft (text : Text) : Text := text.dropWhile isBlank

def stripRight (text : Text) : Text := (text.reverse.dropWhile isBlank).reverse

def strip (text : Text) : Text := stripRight (stripLeft text)

/-- The part of the text from offset `start` up to offset `stop`. -/
def slice (text : Text) (start stop : Nat) : Text := (text.drop start).take (stop - start)

def startsWith (text part : Text) : Bool := part.isPrefixOf text

/-- The text with every occurrence of `old`, read from the left, replaced by `new`. An empty `old`
is never replaced. -/
def replace (text old new : Text) : Text := go 0 text
where
  /-- The first argument counts the characters of an occurrence that are still to be skipped. -/
  go : Nat → Text → Text
    | _, [] => []
    | skip + 1, _ :: rest => go skip rest
    | 0, c :: rest =>
      if old.isEmpty || !startsWith (c :: rest) old then c :: go 0 rest
      else new ++ go (old.length - 1) rest

end Text

end Phrasebook
