import Phrasebook.Markup.StartTag

/-!
Marked-up text as a sequence of events, each with the offset at which it starts: text, or something
that ends text. The text is read twice: the first reading stops at a construct that may go on behind
the end, the second takes up from there and reads such constructs as text.
-/

namespace Phrasebook.Markup

open Text

/-- What stands at an offset. Inside of raw elements text does not count. -/
inductive Event where
  | text (offset : Nat)
  | markup (offset : Nat)
deriving DecidableEq, Repr

inductive Refusal where
  /-- A declaration of an unknown kind. -/
  | badDeclaration
  /-- A reference in the value of an attribute has too many digits. -/
  | longReference (digits : Nat)
deriving DecidableEq, Repr

/-- The elements whose contents are raw: no markup but their end tag counts in them. -/
def rawElements : List Text := ["script".toList, "style".toList]

/-- What one step of reading finds at the start of a text. Lengths are one character less than what
is taken, since a step always takes a character. -/
inductive Step where
  /-- Text to be taken. -/
  | text (tail : Nat)
  /-- Markup to be taken. -/
  | markup (tail : Nat)
  /-- The start tag of a raw element. -/
  | enter (element : Text) (tail : Nat)
  /-- The end tag of a raw element. -/
  | leave (tail : Nat)
  /-- Characters that are neither. -/
  | skip (tail : Nat)
  /-- A construct that may go on behind the end of the text. -/
  | incomplete
  /-- Reading stops here. -/
  | stop
  /-- Reading stops behind this text. -/
  | textThenStop (tail : Nat)
  | refuse (refusal : Refusal)
deriving DecidableEq, Repr

/-! ### Ends of constructs -/

def distanceTo? (c : Char) (text : Text) : Option Nat := text.findIdx? (· = c)

def closing? : List Char → Text → Option Nat
  | [], _ => some 0
  | mark :: marks, text =>
    let blanks := (text.takeWhile isBlank).length
    match text.drop blanks with
    | c :: rest => if c = mark then (closing? marks rest).map (· + blanks + 1) else none
    | [] => none

/-- The number of characters up to and with the first closing sequence: the character `first`, then
marks with blanks in front of each. -/
def throughClosing? (first : Char) (marks : List Char) : Text → Option Nat
  | [] => none
  | c :: rest =>
    match if c = first then closing? marks rest else none with
    | some length => some (length + 1)
    | none => (throughClosing? first marks rest).map (· + 1)

def throughComment? : Text → Option Nat
  | '-' :: '-' :: rest =>
    match closing? ['>'] rest with
    | some length => some (length + 2)
    | none => (throughComment? ('-' :: rest)).map (· + 1)
  | _ :: rest => (throughComment? rest).map (· + 1)
  | [] => none

def endTagOf? (element : Text) (text : Text) : Option Nat :=
  match text with
  | '<' :: '/' :: rest =>
    let blanks := (rest.takeWhile isBlank).length
    let name := (rest.drop blanks).take element.length
    if name.map asciiLower = element then
      (closing? ['>'] (rest.drop (blanks + element.length))).map (· + (2 + blanks + element.length))
    else none
  | _ => none

def distanceToEnd? (element : Text) : Text → Option Nat
  | [] => none
  | c :: rest =>
    if (endTagOf? element (c :: rest)).isSome then some 0
    else (distanceToEnd? element rest).map (· + 1)

/-! ### Declarations -/

def isSectionChar (c : Char) : Bool :=
  isAsciiLetter c || ('0' ≤ c && c ≤ '9') || c = '-' || c = '_' || c = '.'

/-- The step at a marked section, `rest` being the text behind its opening bracket. -/
def sectionStep (rest : Text) : Step :=
  match rest with
  | [] => .incomplete
  | c :: _ =>
    if !isAsciiLetter c then .refuse .badDeclaration
    else
      let name := rest.takeWhile isSectionChar
      let after := rest.drop name.length
      let word := String.ofList (name.map asciiLower)
      let through (found : Option Nat) : Step :=
        match found with
        | some length => .markup (length + 2)
        | none => .incomplete
      if (after.dropWhile isBlank).isEmpty then .incomplete
      else if ["temp", "cdata", "ignore", "include", "rcdata"].contains word then
        through (throughClosing? ']' [']', '>'] rest)
      else if ["if", "else", "endif"].contains word then through (throughClosing? ']' ['>'] rest)
      else .refuse .badDeclaration

/-- Markup that ends with the first bracket of `rest`, `before` characters behind its first. -/
def throughBracket (before : Nat) (rest : Text) : Step :=
  match distanceTo? '>' rest with
  | some distance => .markup (before + distance + 1)
  | none => .incomplete

def openStep (rest : Text) : Step :=
  match rest with
  | [] => .stop
  | '/' :: '>' :: _ => .skip 2
  | '/' :: more => throughBracket 1 more
  | '!' :: '-' :: '-' :: more =>
    match throughComment? more with
    | some length => .markup (length + 3)
    | none => .incomplete
  | '?' :: more => throughBracket 1 more
  | '!' :: '[' :: more => sectionStep more
  | '!' :: more => throughBracket 1 more
  | c :: _ =>
    if isAsciiLetter c then
      match startTag ('<' :: rest) with
      | .incomplete => .incomplete
      | .text length => .text (length - 1)
      | .longReference digits => .refuse (.longReference digits)
      | .selfClosing length => .markup (length - 1)
      | .element name length =>
        if rawElements.contains name then .enter name (length - 1) else .markup (length - 1)
    else .text 0

/-! ### References -/

def isAlphanumeric (c : Char) : Bool := isAsciiLetter c || ('0' ≤ c && c ≤ '9')

def isReferenceChar (c : Char) : Bool := isAlphanumeric c || c = '-' || c = '.'

def isHex (c : Char) : Bool :=
  ('0' ≤ c && c ≤ '9') || ('a' ≤ c && c ≤ 'f') || ('A' ≤ c && c ≤ 'F')

def withSemicolon (length : Nat) (after : Text) : Nat :=
  match after with
  | ';' :: _ => length + 1
  | _ => length

/-- The length of the numeric reference behind its ampersand and number sign. It must be followed by
a character that is no hexadecimal digit. -/
def numericLength? (text : Text) : Option Nat :=
  let digits (before : Nat) (belongs : Char → Bool) (rest : Text) : Option Nat :=
    let length := (rest.takeWhile belongs).length
    match rest.drop length with
    | [] => none
    | c :: more =>
      if length = 0 || isHex c then none else some (withSemicolon (before + length) (c :: more))
  match text with
  | 'x' :: rest => digits 1 isHex rest
  | 'X' :: rest => digits 1 isHex rest
  | _ => digits 0 (fun c => '0' ≤ c && c ≤ '9') text

/-- The length of the named reference behind its ampersand. At the end of the text the name gives
back characters up to its last dash or dot. -/
def namedLength? (text : Text) : Option Nat :=
  match text with
  | [] => none
  | c :: rest =>
    if isAsciiLetter c then
      let tail := rest.takeWhile isReferenceChar
      match rest.drop tail.length with
      | [] =>
        let kept := tail.reverse.dropWhile isAlphanumeric
        if kept.isEmpty then none else some kept.length
      | after => some (withSemicolon (tail.length + 1) after)
    else none

/-- The step at an ampersand, `rest` being the text behind it. `final` says that nothing follows the
text. -/
def referenceStep (final : Bool) (rest : Text) : Step :=
  match rest with
  | [] => .stop
  | '#' :: more =>
    match numericLength? more with
    | some length => .text (length + 1)
    | none =>
      if more.contains ';' then .textThenStop 1 else .stop
  | c :: more =>
    match namedLength? rest with
    | some length => .text length
    | none =>
      if isAsciiLetter c then if final && more.isEmpty then .skip 0 else .stop
      else .text 0

/-! ### Readings -/

def step (final : Bool) (raw : Option Text) (c : Char) (rest : Text) : Step :=
  match raw with
  | some element =>
    match distanceToEnd? element (c :: rest) with
    | none => .stop
    | some 0 => .leave ((endTagOf? element (c :: rest)).getD 1 - 1)
    | some (distance + 1) => .skip distance
  | none =>
    if c = '<' then openStep rest
    else if c = '&' then referenceStep final rest
    else .text (rest.takeWhile fun c => c ≠ '<' && c ≠ '&').length

/-- How far an opening mark whose construct never ends reaches as text, one character less: through
the next closing mark, else up to the next opening mark, else the mark alone. -/
def lostTail (rest : Text) : Nat :=
  match distanceTo? '>' rest, distanceTo? '<' rest with
  | some distance, _ => distance + 1
  | none, some distance => distance
  | none, none => 0

/-- The result of a reading: its events, the element it ended in, and the text left with its
offset. -/
structure Reading where
  events : List Event
  raw : Option Text
  offset : Nat
  rest : Text

/-- Reads a text that starts at the given offset. A reading that is not final stops at constructs
that may go on behind the end of the text. -/
def reading (final : Bool) (offset : Nat) (raw : Option Text) (text : Text) :
    Except Refusal Reading :=
  match text with
  | [] => .ok ⟨[], raw, offset, []⟩
  | c :: rest =>
    let goOn (events : List Event) (raw : Option Text) (tail : Nat) : Except Refusal Reading := do
      let more ← reading final (offset + (tail + 1)) raw (rest.drop tail)
      .ok { more with events := events ++ more.events }
    match step final raw c rest with
    | .text tail => goOn [.text offset] raw tail
    | .markup tail => goOn [.markup offset] raw tail
    | .enter element tail => goOn [.markup offset] (some element) tail
    | .leave tail => goOn [.markup offset] none tail
    | .skip tail => goOn [] raw tail
    | .incomplete =>
      if final then goOn [.text offset] raw (lostTail rest) else .ok ⟨[], raw, offset, c :: rest⟩
    | .stop => .ok ⟨[], raw, offset, c :: rest⟩
    | .textThenStop tail => .ok ⟨[.text offset], raw, offset + (tail + 1), rest.drop tail⟩
    | .refuse refusal => .error refusal
termination_by text.length

/-- The events of a text. What the final reading leaves is text, unless it stands in a raw element.
-/
def events (text : Text) : Except Refusal (List Event) := do
  let first ← reading false 0 none text
  let second ← reading true first.offset first.raw first.rest
  let left := if second.raw.isNone && !second.rest.isEmpty then [Event.text second.offset] else []
  .ok (first.events ++ second.events ++ left)

end Phrasebook.Markup
