import Phrasebook.Text.Entity

/-!
Start tags of marked-up text. `startTag` finds the end of the tag that a text starts with. Tags are
taken as they come: attributes may lack values, quotes and blanks, and what cannot be an attribute
ends the tag. The references in the values of attributes are looked at too, since one with too many
digits is refused.
-/

namespace Phrasebook.Markup

open Text

def isAsciiLetter (c : Char) : Bool := ('a' ≤ c && c ≤ 'z') || ('A' ≤ c && c ≤ 'Z')

def asciiLower (c : Char) : Char := if 'A' ≤ c && c ≤ 'Z' then Char.ofNat (c.toNat + 32) else c

def isTagChar (c : Char) : Bool :=
  !(['\t', '\n', '\r', '\x0c', ' ', '/', '>', '\x00'].contains c)

/-- The name of the tag at the start of a text, its opening mark left out. -/
def tagName (text : Text) : Text :=
  match text with
  | [] => []
  | c :: rest => if isAsciiLetter c then c :: rest.takeWhile isTagChar else []

/-- The number of blanks and slashes at the start of a text; a slash that ends a tag does not
count. -/
def filler : Text → Nat
  | [] => 0
  | '/' :: '>' :: _ => 0
  | c :: rest => if isBlank c || c = '/' then filler rest + 1 else 0

/-! ### Attributes -/

def allowsAttribute (c : Char) : Bool := isBlank c || c = '\'' || c = '"' || c = '/'

def isAttributeChar (c : Char) : Bool := !(isBlank c || c = '/' || c = '=' || c = '>')

def bareLength (text : Text) : Nat := (text.takeWhile fun c => !(isBlank c || c = '>')).length

/-- The value of an attribute, its quotes left out, and its length with the equals signs and blanks
in front of it and the quotes. -/
structure AttributeValue where
  text : Text
  length : Nat
deriving DecidableEq, Repr

/-- The value of an attribute, for the text behind the name of the attribute. A value whose quote is
never closed is empty if blanks stand before it; after several equals signs it starts at the last of
them; otherwise there is none. -/
def value? (text : Text) : Option AttributeValue :=
  let bare (start : Nat) : AttributeValue :=
    let value := text.drop start
    ⟨value.take (bareLength value), start + bareLength value⟩
  let before := (text.takeWhile isBlank).length
  let signs := ((text.drop before).takeWhile (· = '=')).length
  let blanks := ((text.drop (before + signs)).takeWhile isBlank).length
  let start := before + signs + blanks
  if signs = 0 then none
  else match text.drop start with
    | [] => some ⟨[], start⟩
    | c :: rest =>
      if c = '\'' ∨ c = '"' then
        match rest.findIdx? (· = c) with
        | some length => some ⟨rest.take length, start + length + 2⟩
        | none =>
          if blanks ≠ 0 then some ⟨[], start⟩
          else if 2 ≤ signs then some (bare (start - 1))
          else none
      else some (bare start)

/-- An attribute: the text of its value, and its length with the filler that follows it, one
character less. -/
structure Attribute where
  value : Text
  tail : Nat
deriving DecidableEq, Repr

def attribute? (before c : Char) (rest : Text) : Option Attribute :=
  if allowsAttribute before && !(isBlank c || c = '/' || c = '>') then
    let name := (rest.takeWhile isAttributeChar).length
    let value := (value? (rest.drop name)).getD ⟨[], 0⟩
    let length := name + value.length
    some ⟨value.text, length + filler (rest.drop length)⟩
  else none

def attributesLength (before : Char) : Text → Nat
  | [] => 0
  | c :: rest =>
    match attribute? before c rest with
    | none => 0
    | some ⟨_, tail⟩ =>
      tail + 1 + attributesLength ((rest.take tail).getLastD c) (rest.drop tail)
termination_by text => text.length

/-- The attributes at the start of a text, none of which starts at or behind `limit`. -/
def attributesWithin (limit : Nat) (before : Char) : Text → List Attribute
  | [] => []
  | c :: rest =>
    if limit = 0 then []
    else match attribute? before c rest with
      | none => []
      | some ⟨value, tail⟩ =>
        ⟨value, tail⟩ ::
          attributesWithin (limit - (tail + 1)) ((rest.take tail).getLastD c) (rest.drop tail)
termination_by text => text.length

def Attribute.longReference? (found : Attribute) : Option Nat :=
  match unescape found.value with
  | .ok _ => none
  | .error long => some long.digits

/-! ### Whole tags -/

/-- The length of a tag up to its closing mark: the name, blanks and slashes, attributes, blanks.
The text starts with the opening mark. -/
def tagBodyLength (text : Text) : Nat :=
  let name := (tagName (text.drop 1)).length + 1
  let gap := ((text.drop name).takeWhile fun c => isBlank c || c = '/').length
  let attributes :=
    attributesLength ((text.take (name + gap)).getLastD '<') (text.drop (name + gap))
  let length := name + gap + attributes
  length + ((text.drop length).takeWhile isBlank).length

/-- The length of the whole start tag, if the text holds all of it. A character that cannot go on
with the tag ends it in front of itself. -/
def tagLength? (text : Text) : Option Nat :=
  let length := tagBodyLength text
  match text.drop length with
  | '>' :: _ => some (length + 1)
  | '/' :: '>' :: _ => some (length + 2)
  | '/' :: _ => none
  | [] => none
  | c :: _ => if isAsciiLetter c || c = '=' then none else some length

inductive StartTag where
  /-- The tag goes on behind the end of the text. -/
  | incomplete
  /-- No tag after all: the characters are text. -/
  | text (length : Nat)
  /-- A tag that is closed at once. -/
  | selfClosing (length : Nat)
  | element (name : Text) (length : Nat)
  /-- A reference in the value of an attribute has too many digits. -/
  | longReference (digits : Nat)
deriving DecidableEq, Repr

def startTag (text : Text) : StartTag :=
  match tagLength? text with
  | none => .incomplete
  | some length =>
    let name := tagName (text.drop 1)
    let head := name.length + 1
    let start := head + filler (text.drop head)
    let attributes :=
      attributesWithin (length - start) ((text.take start).getLastD '<') (text.drop start)
    match attributes.findSome? Attribute.longReference? with
    | some digits => .longReference digits
    | none =>
      let stop := attributes.foldl (fun stop found => stop + (found.tail + 1)) start
      let ending := strip (slice text stop length)
      if ending = ['/', '>'] then .selfClosing length
      else if ending = ['>'] then .element (name.map asciiLower) length
      else .text length

end Phrasebook.Markup
