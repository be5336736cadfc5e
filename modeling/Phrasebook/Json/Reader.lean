import Phrasebook.Json.Value
import Phrasebook.Text.Digit
import Phrasebook.Text.Position

/-!
Reading JSON. `Json.read` accepts one value with blanks around it. Besides the standard forms it
accepts `NaN`, `Infinity` and `-Infinity`. In an object that repeats a name the last value counts,
in the place of the first.
-/

namespace Phrasebook

namespace Json

inductive Complaint where
  | byteOrderMark
  | expectingValue
  | expectingName
  | expectingColon
  | expectingComma
  | extraData
  | unterminatedString
  | controlCharacter
  | badEscape
  | badUnicodeEscape
deriving DecidableEq, Repr

def Complaint.message : Complaint → String
  | .byteOrderMark => "Unexpected UTF-8 BOM (decode using utf-8-sig)"
  | .expectingValue => "Expecting value"
  | .expectingName => "Expecting property name enclosed in double quotes"
  | .expectingColon => "Expecting ':' delimiter"
  | .expectingComma => "Expecting ',' delimiter"
  | .extraData => "Extra data"
  | .unterminatedString => "Unterminated string starting at"
  | .controlCharacter => "Invalid control character at"
  | .badEscape => "Invalid \\escape"
  | .badUnicodeEscape => "Invalid \\uXXXX escape"

/-- Why reading stops: a complaint with the number of characters left where it shows, or a whole
number with too many digits. -/
inductive Fault where
  | malformed (complaint : Complaint) (left : Nat)
  | longInteger (digits : Nat)
deriving DecidableEq, Repr

/-- What was read, and what is left: at most `bound` characters. -/
structure Read (β : Type) (bound : Nat) where
  value : β
  rest : CodePoints
  bounded : rest.length ≤ bound

def Read.map {β γ : Type} {bound loose : Nat} (f : β → γ) (read : Read β bound)
    (h : bound ≤ loose) : Read γ loose :=
  ⟨f read.value, read.rest, Nat.le_trans read.bounded h⟩

def isSpace (c : CodePoint) : Bool := c = ' ' || c = '\t' || c = '\n' || c = '\r'

def skip (text : CodePoints) : CodePoints := text.dropWhile isSpace

theorem length_skip_le (text : CodePoints) : (skip text).length ≤ text.length :=
  (List.dropWhile_sublist isSpace).length_le

/-! ### Strings -/

def hexDigit? : CodePoint → Option Nat
  | .half _ => none
  | .char c =>
    if '0' ≤ c && c ≤ '9' then some (c.toNat - '0'.toNat)
    else if 'a' ≤ c && c ≤ 'f' then some (c.toNat - 'a'.toNat + 10)
    else if 'A' ≤ c && c ≤ 'F' then some (c.toNat - 'A'.toNat + 10)
    else none

def hex4? (a b c d : CodePoint) : Option Nat := do
  let a ← hexDigit? a
  let b ← hexDigit? b
  let c ← hexDigit? c
  let d ← hexDigit? d
  some (((a * 16 + b) * 16 + c) * 16 + d)

def escape? (c : CodePoint) : Option CodePoint :=
  match c with
  | .char '"' => some '"'
  | .char '\\' => some '\\'
  | .char '/' => some '/'
  | .char 'b' => some '\x08'
  | .char 'f' => some '\x0c'
  | .char 'n' => some '\n'
  | .char 'r' => some '\r'
  | .char 't' => some '\t'
  | _ => none

def isHigh (n : Nat) : Bool := 0xD800 ≤ n && n ≤ 0xDBFF

def isLow (n : Nat) : Bool := 0xDC00 ≤ n && n ≤ 0xDFFF

def ofUnit (n : Nat) : CodePoint :=
  if h : 0xD800 ≤ n ∧ n ≤ 0xDFFF then .half ⟨n - 0xD800, by omega⟩ else .char (Char.ofNat n)

def ofPair (high low : Nat) : CodePoint :=
  Char.ofNat (0x10000 + (high - 0xD800) * 0x400 + (low - 0xDC00))

/-- The second code unit of a pair, if the text goes on with one: none if it does not, an error if
an escape follows that has no four digits. There must be a further character after the escape. -/
def lowUnit? (text : CodePoints) : Except Unit (Option (Nat × CodePoints)) :=
  match text with
  | .char '\\' :: .char 'u' :: a :: b :: c :: d :: e :: rest =>
    match hex4? a b c d with
    | none => .error ()
    | some n => .ok (if isLow n then some (n, e :: rest) else none)
  | _ => .ok none

theorem length_lt_of_lowUnit? {text rest : CodePoints} {n : Nat}
    (h : lowUnit? text = .ok (some (n, rest))) : rest.length < text.length := by
  unfold lowUnit? at h
  split at h
  · split at h
    · simp at h
    · simp only [Except.ok.injEq, Option.ite_none_right_eq_some, Option.some.injEq,
        Prod.mk.injEq] at h
      simp only [← h.2.2, List.length_cons]
      omega
  · simp at h

/-- The string after its opening quote; `left` counts the characters from that quote on. -/
def readString (left : Nat) (text : CodePoints) : Except Fault (Read CodePoints text.length) :=
  match text with
  | [] => .error (.malformed .unterminatedString left)
  | .char '"' :: rest => .ok ⟨[], rest, by simp⟩
  | .char '\\' :: .char 'u' :: a :: b :: c :: d :: e :: rest =>
    match hex4? a b c d with
    | none => .error (.malformed .badUnicodeEscape (rest.length + 6))
    | some unit =>
      if isHigh unit then
        match found : lowUnit? (e :: rest) with
        | .error () => .error (.malformed .badUnicodeEscape (rest.length + 1))
        | .ok (some (low, after)) => do
          have shorter := length_lt_of_lowUnit? found
          let read ← readString left after
          .ok (read.map (ofPair unit low :: ·) (by simp only [List.length_cons] at *; omega))
        | .ok none => do
          let read ← readString left (e :: rest)
          .ok (read.map (ofUnit unit :: ·) (by simp only [List.length_cons]; omega))
      else do
        let read ← readString left (e :: rest)
        .ok (read.map (ofUnit unit :: ·) (by simp only [List.length_cons]; omega))
  | .char '\\' :: .char 'u' :: rest => .error (.malformed .badUnicodeEscape (rest.length + 1))
  | [.char '\\'] => .error (.malformed .unterminatedString left)
  | .char '\\' :: c :: rest =>
    match escape? c with
    | none => .error (.malformed .badEscape (rest.length + 2))
    | some c => do
      let read ← readString left rest
      .ok (read.map (c :: ·) (by simp only [List.length_cons]; omega))
  | c :: rest =>
    if c.value < 0x20 then .error (.malformed .controlCharacter (rest.length + 1))
    else do
      let read ← readString left rest
      .ok (read.map (c :: ·) (by simp))
termination_by text.length
decreasing_by all_goals simp_all only [List.length_cons]; omega

/-! ### Numbers -/

def isDigit : CodePoint → Bool
  | .char c => '0' ≤ c && c ≤ '9'
  | .half _ => false

def digitsValue (digits : CodePoints) : Nat :=
  digits.foldl (fun n c => 10 * n + (c.value - '0'.toNat)) 0

/-- The digits before the point at the start of a text: a zero stands alone. -/
def wholeDigits : CodePoints → CodePoints
  | .char '0' :: _ => ['0']
  | text => text.takeWhile isDigit

def fractionDigits : CodePoints → CodePoints
  | .char '.' :: rest => rest.takeWhile isDigit
  | _ => []

/-- The length and the value of the exponent at the start of a text, if its mark is followed by a
digit, with or without a sign in between. -/
def exponent? (text : CodePoints) : Option (Nat × Int) :=
  let digitsAfter (marks : Nat) (sign : Int) (rest : CodePoints) : Option (Nat × Int) :=
    let digits := rest.takeWhile isDigit
    if digits.isEmpty then none else some (marks + digits.length, sign * digitsValue digits)
  let signed (rest : CodePoints) : Option (Nat × Int) :=
    match rest with
    | .char '-' :: rest => digitsAfter 2 (-1) rest
    | .char '+' :: rest => digitsAfter 2 1 rest
    | rest => digitsAfter 1 1 rest
  match text with
  | .char 'e' :: rest => signed rest
  | .char 'E' :: rest => signed rest
  | _ => none

def number? (text : CodePoints) : Option (Except Fault Json × Nat) :=
  let negative := text.head? = some (.char '-')
  let sign := if negative then 1 else 0
  let whole := wholeDigits (text.drop sign)
  if whole.isEmpty then none
  else
    let afterWhole := text.drop (sign + whole.length)
    let fraction := fractionDigits afterWhole
    let fractionLength := if fraction.isEmpty then 0 else 1 + fraction.length
    match fraction, exponent? (afterWhole.drop fractionLength) with
    | [], none =>
      let value : Except Fault Json :=
        if whole.length > Text.maxDigits then .error (.longInteger whole.length)
        else .ok (.int (if negative then -(digitsValue whole : Int) else digitsValue whole))
      some (value, sign + whole.length)
    | _, exponent =>
      let (length, power) := exponent.getD (0, 0)
      let value := Binary64.ofDecimal negative (digitsValue (whole ++ fraction))
        (power - fraction.length)
      some (.ok (.float value), sign + whole.length + fractionLength + length)

def words : List (CodePoints × Json) :=
  [("null", .null), ("true", .bool true), ("false", .bool false), ("NaN", .float .nan),
    ("Infinity", .float (.infinite false)), ("-Infinity", .float (.infinite true))].map
      fun (word, value) => (CodePoints.ofString word, value)

def readPlain (text : CodePoints) : Except Fault (Read Json text.length) :=
  match words.find? fun word => word.1.isPrefixOf text with
  | some (word, value) => .ok ⟨value, text.drop word.length, by simp⟩
  | none =>
    match number? text with
    | none => .error (.malformed .expectingValue text.length)
    | some (value, length) => do
      .ok ⟨← value, text.drop length, by simp⟩

/-! ### Values -/

mutual

def readValue (text : CodePoints) : Except Fault (Read Json text.length) :=
  match text with
  | .char '"' :: rest => do
    let read ← readString (rest.length + 1) rest
    .ok (read.map .string (by simp))
  | .char '{' :: rest =>
    match inside : skip rest with
    | .char '}' :: after => .ok ⟨.object [], after, by
        have := length_skip_le rest
        simp only [inside, List.length_cons] at *
        omega⟩
    | start => do
      have := length_skip_le rest
      let read ← readMembers [] start
      .ok (read.map .object (by simp only [inside, List.length_cons] at *; omega))
  | .char '[' :: rest =>
    match inside : skip rest with
    | .char ']' :: after => .ok ⟨.array [], after, by
        have := length_skip_le rest
        simp only [inside, List.length_cons] at *
        omega⟩
    | start => do
      have := length_skip_le rest
      let read ← readItems start
      .ok (read.map .array (by simp only [inside, List.length_cons] at *; omega))
  | text => readPlain text
termination_by 2 * text.length
decreasing_by
  all_goals
    simp only [inside, List.length_cons] at *
    omega

def readItems (text : CodePoints) : Except Fault (Read (List Json) text.length) := do
  let item ← readValue text
  have bounded := Nat.le_trans (length_skip_le item.rest) item.bounded
  match after : skip item.rest with
  | .char ']' :: rest => .ok ⟨[item.value], rest, by simp only [after, List.length_cons] at *; omega⟩
  | .char ',' :: rest => do
    have skipped := length_skip_le rest
    let read ← readItems (skip rest)
    .ok (read.map (item.value :: ·) (by simp only [after, List.length_cons] at *; omega))
  | rest => .error (.malformed .expectingComma rest.length)
termination_by 2 * text.length + 1
decreasing_by
  · omega
  · simp only [after, List.length_cons] at *
    omega

/-- The members of an object up to its closing brace, put after those read before. -/
def readMembers (before : List (CodePoints × Json)) (text : CodePoints) :
    Except Fault (Read (List (CodePoints × Json)) text.length) :=
  match text with
  | .char '"' :: afterQuote => do
    let name ← readString (afterQuote.length + 1) afterQuote
    have named := Nat.le_trans (length_skip_le name.rest) name.bounded
    match colon : skip name.rest with
    | .char ':' :: rest => do
      have skipped := length_skip_le rest
      let value ← readValue (skip rest)
      have valued := Nat.le_trans (length_skip_le value.rest) value.bounded
      let members := Members.put before name.value value.value
      match after : skip value.rest with
      | .char '}' :: rest =>
        .ok ⟨members, rest, by simp only [colon, after, List.length_cons] at *; omega⟩
      | .char ',' :: rest => do
        have skipped' := length_skip_le rest
        let read ← readMembers members (skip rest)
        .ok (read.map id (by simp only [colon, after, List.length_cons] at *; omega))
      | rest => .error (.malformed .expectingComma rest.length)
    | rest => .error (.malformed .expectingColon rest.length)
  | text => .error (.malformed .expectingName text.length)
termination_by 2 * text.length + 1
decreasing_by
  · simp only [colon, List.length_cons] at *
    omega
  · simp only [colon, after, List.length_cons] at *
    omega

end

def read (text : CodePoints) : Except Fault Json :=
  if text.head? = some (.char '\uFEFF') then .error (.malformed .byteOrderMark text.length)
  else do
    let read ← readValue (skip text)
    match skip read.rest with
    | [] => .ok read.value
    | extra => .error (.malformed .extraData extra.length)

/-- The line, counted from 1, of the character of a text that has `left` characters from it on. -/
def lineOf (text : CodePoints) (left : Nat) : Nat :=
  1 + ((text.take (text.length - left)).filter (· = .char '\n')).length

end Json

end Phrasebook
