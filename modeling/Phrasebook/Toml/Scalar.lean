import Phrasebook.Json.Value
import Phrasebook.Text.Digit
import Phrasebook.Toml.Fault

/-!
The parts of TOML documents that hold no other parts: blanks and comments, strings, numbers, dates
and times. A reader returns what it read and the text that is left.
-/

namespace Phrasebook

namespace Settings

inductive Value where
  /-- A value that is given as nothing, which leaves a setting as it is. -/
  | null
  | bool (value : Bool)
  | int (value : Int)
  | float (value : Binary64)
  | string (value : Text)
  /-- A date, a time of day, or both. -/
  | moment (written : Text)
  | array (items : List Value)
  | table (members : List (Text × Value))
deriving Inhabited

abbrev Table := List (Text × Value)

end Settings

end Phrasebook

namespace Phrasebook.Toml

open Settings (Value)

def fail {β : Type} (complaint : Complaint) (text : Text) : Except Fault β :=
  .error (.malformed complaint text.length)

/-! ### Blanks and comments -/

def isSpace (c : Char) : Bool := c = ' ' || c = '\t'

def isSpaceOrBreak (c : Char) : Bool := isSpace c || c = '\n'

def skipSpace (text : Text) : Text := text.dropWhile isSpace

/-- Whether a character may not stand in a comment or a string. The end of a line may not either,
unless `breaks` is set. -/
def isIllegal (breaks : Bool) (c : Char) : Bool :=
  (c.toNat < 0x20 || c.toNat = 0x7F) && c ≠ '\t' && !(breaks && c = '\n')

def skipComment (text : Text) : Except Fault Text :=
  match text with
  | '#' :: rest =>
    match rest.dropWhile fun c => c ≠ '\n' && !isIllegal false c with
    | c :: left => if c = '\n' then .ok (c :: left) else fail (.invalidCharacter c) (c :: left)
    | [] => .ok []
  | _ => .ok text

def skipFiller (comment : Bool) : Text → Except Fault Text
  | [] => .ok []
  | c :: rest =>
    if comment then
      if c = '\n' then skipFiller false rest
      else if isIllegal false c then fail (.invalidCharacter c) (c :: rest)
      else skipFiller true rest
    else if isSpaceOrBreak c then skipFiller false rest
    else if c = '#' then skipFiller true rest
    else .ok (c :: rest)

/-! ### Strings -/

/-- Cuts a text at the first occurrence of a delimiter, which is in neither part. -/
def cutAt (delimiter : Text) : Text → Option (Text × Text)
  | [] => none
  | c :: rest =>
    if delimiter.isPrefixOf (c :: rest) then some ([], (c :: rest).drop delimiter.length)
    else (cutAt delimiter rest).map fun (before, after) => (c :: before, after)

/-- A string up to its delimiter, taken as it stands. -/
def verbatim (delimiter : Text) (breaks : Bool) (text : Text) : Except Fault (Text × Text) :=
  match cutAt delimiter text with
  | none => fail (.missingDelimiter delimiter) []
  | some (body, after) =>
    match body.dropWhile fun c => !isIllegal breaks c with
    | [] => .ok (body, after)
    | c :: left => .error (.malformed (.invalidCharacter c)
        (left.length + 1 + delimiter.length + after.length))

def hexDigit? (c : Char) : Option Nat :=
  if '0' ≤ c && c ≤ '9' then some (c.toNat - '0'.toNat)
  else if 'a' ≤ c && c ≤ 'f' then some (c.toNat - 'a'.toNat + 10)
  else if 'A' ≤ c && c ≤ 'F' then some (c.toNat - 'A'.toNat + 10)
  else none

def hexChar (count : Nat) (text : Text) : Except Fault (Text × Text) :=
  let digits := (text.take count).filterMap hexDigit?
  if digits.length = count then
    let n := digits.foldl (fun n digit => 16 * n + digit) 0
    if n.isValidChar then .ok ([Char.ofNat n], text.drop count)
    else fail .badScalar (text.drop count)
  else fail .badHex text

def escapes : List (Char × Char) :=
  [('b', '\x08'), ('t', '\t'), ('n', '\n'), ('f', '\x0c'), ('r', '\r'), ('"', '"'), ('\\', '\\')]

/-- What a backslash with the given text behind it stands for. In a string of several lines a
backslash at the end of a line takes the blanks that follow out of the string. -/
def escape (multiline : Bool) (text : Text) : Except Fault (Text × Text) :=
  match text with
  | [] => fail .badEscape []
  | c :: rest =>
    if multiline && c = '\n' then .ok ([], rest.dropWhile isSpaceOrBreak)
    else if multiline && isSpace c then
      match skipSpace rest with
      | [] => .ok ([], [])
      | '\n' :: left => .ok ([], left.dropWhile isSpaceOrBreak)
      | left => fail .badEscape left
    else if c = 'u' then hexChar 4 rest
    else if c = 'U' then hexChar 8 rest
    else
      match Members.get? escapes c with
      | some d => .ok ([d], rest)
      | none => fail .badEscape rest

/-- A string up to its quote, or up to three of them, with its escapes read. -/
def basic (multiline : Bool) : Nat → Text → Except Fault (Text × Text)
  | 0, text => fail .unterminated text
  | _ + 1, [] => fail .unterminated []
  | fuel + 1, c :: rest =>
    let goOn (read : Text) (left : Text) : Except Fault (Text × Text) := do
      let (more, left) ← basic multiline fuel left
      .ok (read ++ more, left)
    if c = '"' then
      if !multiline then .ok ([], rest)
      else if ['"', '"'].isPrefixOf rest then .ok ([], rest.drop 2)
      else goOn ['"'] rest
    else if c = '\\' then do
      let (read, left) ← escape multiline rest
      goOn read left
    else if isIllegal multiline c then fail (.illegalCharacter c) (c :: rest)
    else goOn [c] rest

def basicString (multiline : Bool) (text : Text) : Except Fault (Text × Text) :=
  basic multiline (text.length + 1) text

/-- Up to two quotes in front of the closing ones belong to a string of several lines. -/
def extraQuotes (quote : Char) (read : Text) : Text → Text × Text
  | c :: d :: rest =>
    if c = quote then
      if d = quote then (read ++ [quote, quote], rest) else (read ++ [quote], d :: rest)
    else (read, c :: d :: rest)
  | [c] => if c = quote then (read ++ [quote], []) else (read, [c])
  | [] => (read, [])

/-- A string of several lines, for the text behind its first three quotes. -/
def multilineString (quote : Char) (text : Text) : Except Fault (Text × Text) := do
  let text := match text with
    | '\n' :: rest => rest
    | text => text
  let (read, rest) ← if quote = '"' then basicString true text
    else verbatim [quote, quote, quote] true text
  .ok (extraQuotes quote read rest)

/-! ### Numbers -/

def moreDigits (isDigit : Char → Bool) : Text → Text × Text
  | '_' :: c :: rest =>
    if isDigit c then
      let (digits, rest) := moreDigits isDigit rest
      (c :: digits, rest)
    else ([], '_' :: c :: rest)
  | c :: rest =>
    if isDigit c then
      let (digits, rest) := moreDigits isDigit rest
      (c :: digits, rest)
    else ([], c :: rest)
  | [] => ([], [])

def digits? (isDigit : Char → Bool) : Text → Option (Text × Text)
  | c :: rest =>
    if isDigit c then
      let (digits, rest) := moreDigits isDigit rest
      some (c :: digits, rest)
    else none
  | [] => none

def isDigitOf (base : Nat) (c : Char) : Bool := (hexDigit? c).any (· < base)

def numeral (base : Nat) (digits : Text) : Nat :=
  digits.foldl (fun n c => base * n + (hexDigit? c).getD 0) 0

/-- A whole number in a base that is a power of two. -/
def based? (text : Text) : Option (Value × Text) :=
  let read (base : Nat) (rest : Text) : Option (Value × Text) :=
    (digits? (isDigitOf base) rest).map fun (digits, rest) => (.int (numeral base digits), rest)
  match text with
  | '0' :: 'x' :: rest => read 16 rest
  | '0' :: 'o' :: rest => read 8 rest
  | '0' :: 'b' :: rest => read 2 rest
  | _ => none

def sign (text : Text) : Bool × Text :=
  match text with
  | '-' :: rest => (true, rest)
  | '+' :: rest => (false, rest)
  | rest => (false, rest)

def wholeDigits? : Text → Option (Text × Text)
  | '0' :: rest => some (['0'], rest)
  | text => digits? Char.isDigit text

def fraction? : Text → Option (Text × Text)
  | '.' :: rest => digits? Char.isDigit rest
  | _ => none

def exponent? (text : Text) : Option (Int × Text) :=
  match text with
  | c :: rest =>
    if c = 'e' ∨ c = 'E' then
      let (negative, rest) := sign rest
      (digits? Char.isDigit rest).map fun (digits, rest) =>
        (if negative then -(numeral 10 digits : Int) else numeral 10 digits, rest)
    else none
  | [] => none

def decimal? (text : Text) : Option (Except Fault (Value × Text)) := do
  let (negative, unsigned) := sign text
  let (whole, afterWhole) ← wholeDigits? unsigned
  let (fraction, afterFraction) := (fraction? afterWhole).getD ([], afterWhole)
  match fraction, exponent? afterFraction with
  | [], none =>
    if whole.length > Text.maxDigits then some (.error (.longInteger whole.length))
    else
      let size : Int := numeral 10 whole
      some (.ok (.int (if negative then -size else size), afterWhole))
  | _, exponent =>
    let (power, rest) := exponent.getD (0, afterFraction)
    let value := Binary64.ofDecimal negative (numeral 10 (whole ++ fraction))
      (power - fraction.length)
    some (.ok (.float value, rest))

def namedNumbers : List (Text × Binary64) :=
  [("inf".toList, .infinite false), ("nan".toList, .nan), ("-inf".toList, .infinite true),
    ("+inf".toList, .infinite false), ("-nan".toList, .nan), ("+nan".toList, .nan)]

/-! ### Dates and times -/

def fixed? (count : Nat) (text : Text) : Option (Nat × Text) :=
  let digits := text.take count
  if digits.length = count ∧ digits.all Char.isDigit then some (numeral 10 digits, text.drop count)
  else none

def after? (c : Char) : Text → Option Text
  | d :: rest => if c = d then some rest else none
  | [] => none

def twoDigits? (greatest : Nat) (text : Text) : Option (Nat × Text) :=
  (fixed? 2 text).filter fun (n, _) => n ≤ greatest

/-- The text behind a time of day, with any number of digits for the part of a second. -/
def afterTime? (text : Text) : Option Text := do
  let (_, text) ← twoDigits? 23 text
  let (_, text) ← twoDigits? 59 (← after? ':' text)
  let (_, text) ← twoDigits? 59 (← after? ':' text)
  match text with
  | '.' :: c :: rest => if c.isDigit then some (rest.dropWhile Char.isDigit) else some text
  | _ => some text

def afterOffset? (text : Text) : Option Text :=
  match text with
  | c :: rest =>
    if c = 'Z' ∨ c = 'z' then some rest
    else if c = '+' ∨ c = '-' then do
      let (_, rest) ← twoDigits? 23 rest
      let (_, rest) ← twoDigits? 59 (← after? ':' rest)
      some rest
    else none
  | [] => none

def date? (text : Text) : Option ((Nat × Nat × Nat) × Text) := do
  let (year, text) ← fixed? 4 text
  let (month, text) ← twoDigits? 12 (← after? '-' text)
  let (day, text) ← twoDigits? 31 (← after? '-' text)
  if month = 0 ∨ day = 0 then none else some ((year, month, day), text)

def isLeap (year : Nat) : Bool := year % 4 = 0 && (year % 100 ≠ 0 || year % 400 = 0)

def daysIn (year month : Nat) : Nat :=
  if month = 2 then if isLeap year then 29 else 28
  else if [4, 6, 9, 11].contains month then 30
  else 31

def afterDateTime (text : Text) : Text :=
  match text with
  | c :: rest =>
    if c = 'T' ∨ c = 't' ∨ c = ' ' then
      match afterTime? rest with
      | some left => (afterOffset? left).getD left
      | none => text
    else text
  | [] => []

/-- A date, with a time of day or without, or a time of day alone. -/
def moment? (text : Text) : Option (Except Fault (Value × Text)) :=
  let taken (rest : Text) : Value := .moment (text.take (text.length - rest.length))
  match date? text with
  | some ((year, month, day), rest) =>
    if year = 0 ∨ day > daysIn year month then some (fail .badMoment text)
    else
      let rest := afterDateTime rest
      some (.ok (taken rest, rest))
  | none => (afterTime? text).map fun rest => .ok (taken rest, rest)

def plain (text : Text) : Except Fault (Value × Text) :=
  if "true".toList.isPrefixOf text then .ok (.bool true, text.drop 4)
  else if "false".toList.isPrefixOf text then .ok (.bool false, text.drop 5)
  else
    match moment? text with
    | some reading => reading
    | none =>
      match based? text with
      | some reading => .ok reading
      | none =>
        match decimal? text with
        | some reading => reading
        | none =>
          match namedNumbers.find? fun (name, _) => name.isPrefixOf text with
          | some (name, value) => .ok (.float value, text.drop name.length)
          | none => fail .badValue text

end Phrasebook.Toml
