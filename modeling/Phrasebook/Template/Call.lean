import Phrasebook.Template.Token
import Phrasebook.Template.Tree
import Phrasebook.Text.Digit

/-!
Calls, read from the tokens inside of a tag: what is called, its operands, its named arguments, and
the block parameters. Nodes are numbered as they are completed, parenthesised calls as they open.
-/

namespace Phrasebook.Template

/-- What was read from tokens, the next free number, and the tokens left, at most `bound` of them.
-/
structure Parsed (β : Type) (bound : Nat) where
  value : β
  next : Nat
  rest : List Token
  bounded : rest.length ≤ bound

def Parsed.weaken {β : Type} {bound loose : Nat} (parsed : Parsed β bound) (h : bound ≤ loose) :
    Parsed β loose :=
  ⟨parsed.value, parsed.next, parsed.rest, Nat.le_trans parsed.bounded h⟩

def startsNamed : List Token → Bool
  | name :: equals :: _ => name.kind = .name && equals.kind = .equals
  | _ => false

/-! ### Paths -/

/-- The segments of a path after its first, the offset at which the path ends, and the tokens left.
-/
structure Segments (bound : Nat) where
  names : List Text
  stop : Nat
  rest : List Token
  bounded : rest.length ≤ bound

/-- Reads the segments of a path that has reached the offset `stop`. A separator continues a path
only if nothing stands in between. -/
def segments (stop : Nat) (tokens : List Token) : Except Fault (Segments tokens.length) :=
  match tokens with
  | [] => .ok ⟨[], stop, [], Nat.le_refl _⟩
  | separator :: rest =>
    if separator.kind = .separator ∧ separator.extent.start = stop then
      match rest with
      | [] => .error (.malformed .missingSegment separator.extent.start)
      | segment :: rest =>
        if segment.kind = .name ∧ segment.extent.start = separator.extent.stop then do
          let more ← segments segment.extent.stop rest
          .ok ⟨segment.text :: more.names, more.stop, more.rest,
            Nat.le_trans more.bounded (by simp only [List.length_cons]; omega)⟩
        else .error (.malformed .missingSegment separator.extent.start)
    else .ok ⟨[], stop, separator :: rest, Nat.le_refl _⟩

/-- The name that a segment stands for: brackets around it are dropped. -/
def segmentName (segment : Text) : Text :=
  if segment.head? = some '[' ∧ segment.getLast? = some ']' then (segment.drop 1).dropLast
  else segment

def Path.ofSegments (written : Text) (data : Bool) (segments : List Text) : Path where
  written
  parts := (segments.filter fun s => s ≠ "..".toList ∧ s ≠ ".".toList ∧ s ≠ "this".toList).map
    segmentName
  data
  depth := (segments.filter (· = "..".toList)).length

/-- The path that starts with the token `first`; `segment` is its first segment, the same token
unless the path starts with `@`. -/
def readPath (text : Text) (next : Nat) (data : Bool) (first segment : Token)
    (rest : List Token) : Except Fault (Parsed (Expr Extent) rest.length) := do
  let more ← segments segment.extent.stop rest
  let extent : Extent := ⟨first.extent.start, more.stop⟩
  let path := Path.ofSegments (text.slice extent.start extent.stop) data
    (segment.text :: more.names)
  .ok ⟨.path ⟨next, extent⟩ path, next + 1, more.rest, more.bounded⟩

/-! ### Literals -/

def digitsValue (digits : Text) : Nat :=
  digits.foldl (fun n c => 10 * n + (c.toNat - '0'.toNat)) 0

/-- The value of a number as written. Numbers with a point are rounded to double precision; whole
numbers are exact, but refused when they have too many digits. -/
def Number.read (written : Text) : Except Fault Number :=
  let negative := written.head? = some '-'
  let digits := if negative then written.drop 1 else written
  let whole := digits.takeWhile (· ≠ '.')
  if written.contains '.' then
    let fraction := digits.drop (whole.length + 1)
    .ok (.float (.ofDecimal negative (digitsValue (whole ++ fraction)) (-(fraction.length : Int))))
  else if digits.length > Text.maxDigits then .error (.longInteger digits.length)
  else .ok (.int (if negative then -(digitsValue digits : Int) else digitsValue digits))

/-- The value of a quoted string as written: the quotes are dropped, and a backslash before the
quote in use disappears. -/
def unquote (written : Text) : Text :=
  match written with
  | [] => []
  | quote :: rest => Text.replace rest.dropLast ['\\', quote] [quote]

def readLiteral (token : Token) : Except Fault Literal :=
  match token.kind with
  | .string => .ok (.string (unquote token.text))
  | .number => do .ok (.number (← Number.read token.text) token.text)
  | .boolean => .ok (.boolean (token.text = "true".toList))
  | .undefined => .ok .undefined
  | .null => .ok .null
  | _ => .error (.malformed (.unexpectedToken token.text) token.extent.start)

/-! ### Operands and arguments -/

mutual

def readOperand (text : Text) (next : Nat) (token : Token) (rest : List Token) :
    Except Fault (Parsed (Expr Extent) rest.length) :=
  match token.kind with
  | .openSub =>
    match rest with
    | [] => .error (.malformed .missingCallee token.extent.start)
    | first :: rest =>
      if first.startsOperand then do
        let callee ← readOperand text (next + 1) first rest
        let arguments ← readArguments text callee.next callee.rest
        match left : arguments.rest with
        | [] => .error (.malformed .unterminatedSub token.extent.start)
        | closer :: after =>
          if closer.kind = .closeSub then
            let call : Call Extent := ⟨callee.value, arguments.value.1, arguments.value.2⟩
            let label := ⟨next, ⟨token.extent.start, closer.extent.stop⟩⟩
            .ok ⟨.sub label call, arguments.next, after, by
              have h₁ := callee.bounded
              have h₂ := arguments.bounded
              simp only [left, List.length_cons] at h₂ ⊢
              omega⟩
          else .error (.malformed .unterminatedSub closer.extent.start)
      else .error (.malformed .missingCallee token.extent.start)
  | .name => readPath text next false token token rest
  | .data =>
    match rest with
    | [] => .error (.malformed .missingDataName token.extent.start)
    | segment :: rest =>
      if segment.kind = .name then do
        let path ← readPath text next true token segment rest
        .ok (path.weaken (by simp))
      else .error (.malformed .missingDataName token.extent.start)
  | _ => do
    let literal ← readLiteral token
    .ok ⟨.literal ⟨next, token.extent⟩ literal, next + 1, rest, Nat.le_refl _⟩
termination_by 2 * rest.length + 1
decreasing_by
  · simp only [List.length_cons]; omega
  · have := callee.bounded
    simp only [List.length_cons]; omega

def readArguments (text : Text) (next : Nat) (tokens : List Token) :
    Except Fault (Parsed (List (Expr Extent) × Option (NamedArgs Extent (Expr Extent)))
      tokens.length) :=
  match tokens with
  | [] => .ok ⟨([], none), next, [], Nat.le_refl _⟩
  | token :: rest =>
    if token.startsOperand ∧ ¬startsNamed (token :: rest) then do
      let param ← readOperand text next token rest
      let more ← readArguments text param.next param.rest
      .ok ⟨(param.value :: more.value.1, more.value.2), more.next, more.rest, by
        have h₁ := param.bounded
        have h₂ := more.bounded
        simp only [List.length_cons]
        omega⟩
    else do
      let named ← readNamed text next (token :: rest)
      match named.value with
      | [] => .ok ⟨([], none), named.next, named.rest, named.bounded⟩
      | first :: others =>
        let last := others.getLast?.getD first
        let extent : Extent := ⟨first.label.range.start, last.label.range.stop⟩
        .ok ⟨([], some ⟨⟨named.next, extent⟩, first :: others⟩), named.next + 1, named.rest,
          named.bounded⟩
termination_by 2 * tokens.length
decreasing_by
  · simp only [List.length_cons]; omega
  · have := param.bounded
    simp only [List.length_cons]; omega
  · simp only [List.length_cons]; omega

def readNamed (text : Text) (next : Nat) (tokens : List Token) :
    Except Fault (Parsed (List (NamedArg Extent (Expr Extent))) tokens.length) :=
  match tokens with
  | name :: equals :: rest =>
    if name.kind = .name ∧ equals.kind = .equals then
      match rest with
      | [] => .error (.malformed (.missingValue name.text) name.extent.start)
      | token :: rest =>
        if token.startsOperand then do
          let value ← readOperand text next token rest
          let extent : Extent := ⟨name.extent.start, value.value.label.range.stop⟩
          let pair : NamedArg Extent (Expr Extent) := ⟨⟨value.next, extent⟩, name.text, value.value⟩
          let more ← readNamed text (value.next + 1) value.rest
          .ok ⟨pair :: more.value, more.next, more.rest, by
            have h₁ := value.bounded
            have h₂ := more.bounded
            simp only [List.length_cons]
            omega⟩
        else .error (.malformed (.missingValue name.text) name.extent.start)
    else .ok ⟨[], next, name :: equals :: rest, Nat.le_refl _⟩
  | few => .ok ⟨[], next, few, Nat.le_refl _⟩
termination_by 2 * tokens.length - 1
decreasing_by
  · simp only [List.length_cons]; omega
  · have := value.bounded
    simp only [List.length_cons]; omega

end

/-! ### Whole tags -/

structure CallRead where
  call : Call Extent
  blockParams : List Text
  next : Nat

def spanNames : List Token → List Text × List Token
  | [] => ([], [])
  | token :: rest =>
    if token.kind = .name then
      let (names, after) := spanNames rest
      (token.text :: names, after)
    else ([], token :: rest)

def readBlockParams (allowed : Bool) (tokens : List Token) :
    Except Fault (List Text × List Token) :=
  match tokens with
  | [] => .ok ([], [])
  | opener :: rest =>
    if opener.kind = .openParams then
      if allowed then
        match spanNames rest with
        | ([], _) => .error (.malformed .malformedBlockParams opener.extent.start)
        | (names, closer :: after) =>
          if closer.kind = .closeParams then .ok (names, after)
          else .error (.malformed .malformedBlockParams opener.extent.start)
        | (_, []) => .error (.malformed .malformedBlockParams opener.extent.start)
      else .error (.malformed .misplacedBlockParams opener.extent.start)
    else .ok ([], opener :: rest)

/-- The call inside of a tag that starts at `start` and whose inner text `inner` starts at
`offset`. -/
def readCall (text : Text) (next start offset : Nat) (inner : Text) (allowParams : Bool) :
    Except Fault CallRead := do
  match ← tokens offset inner with
  | [] => .error (.malformed .missingExpression start)
  | token :: rest =>
    let callee ← readOperand text next token rest
    let arguments ← readArguments text callee.next callee.rest
    match ← readBlockParams allowParams arguments.rest with
    | (blockParams, []) =>
      .ok ⟨⟨callee.value, arguments.value.1, arguments.value.2⟩, blockParams, arguments.next⟩
    | (_, leftover :: _) =>
      .error (.malformed (.unexpectedToken leftover.text) leftover.extent.start)

end Phrasebook.Template
