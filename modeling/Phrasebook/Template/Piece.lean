import Phrasebook.Template.Fault

/-!
The pieces of a template text: stretches of content and tags, in the order in which they stand.
`pieces` cuts a text into them. The texts of the pieces, put together, are the text up to the place
where a tag cannot be read.
-/

namespace Phrasebook.Template

inductive TagKind where
  | comment
  | mustache
  | unescaped
  | partialCall
  | decorator
  | block
  | inverseBlock
  | partialBlock
  | decoratorBlock
  | stop (stop : Stop)
deriving DecidableEq, Repr

/-- A tag: the characters that open it, the text inside, and the characters that close it. -/
structure Tag where
  kind : TagKind
  opening : Text
  inner : Text
  closing : Text
deriving DecidableEq, Repr

def Tag.text (tag : Tag) : Text := tag.opening ++ tag.inner ++ tag.closing

/-- Content or a tag. `value` is the content with its backslash escapes undone. -/
inductive Piece where
  | content (written value : Text)
  | tag (tag : Tag)
deriving DecidableEq, Repr

def Piece.text : Piece → Text
  | .content written _ => written
  | .tag t => t.text

/-! ### Content -/

structure ContentRead where
  written : Text
  value : Text
  rest : Text

/-- Reads content up to the next tag. A backslash before two braces makes them content; two
backslashes before two braces are one backslash before a tag. -/
def readContent : Text → ContentRead
  | [] => ⟨[], [], []⟩
  | '\\' :: '\\' :: '{' :: '{' :: rest => ⟨['\\', '\\'], ['\\'], '{' :: '{' :: rest⟩
  | '\\' :: '{' :: '{' :: rest =>
    let read := readContent rest
    ⟨'\\' :: '{' :: '{' :: read.written, '{' :: '{' :: read.value, read.rest⟩
  | '{' :: '{' :: rest => ⟨[], [], '{' :: '{' :: rest⟩
  | c :: rest =>
    let read := readContent rest
    ⟨c :: read.written, c :: read.value, read.rest⟩

/-! ### The ends of tags -/

/-- The characters that can end a tag: an optional tilde and the given closing characters. For
comments with dashes the dashes come first. -/
structure Closer where
  lead : Text
  braces : Nat

def Closer.match? (closer : Closer) (text : Text) : Option (Text × Text) :=
  let braces := List.replicate closer.braces '}'
  let plain := closer.lead ++ braces
  let tilde := closer.lead ++ '~' :: braces
  if text.startsWith tilde then some (tilde, text.drop tilde.length)
  else if text.startsWith plain then some (plain, text.drop plain.length)
  else none

structure Cut where
  inner : Text
  closing : Text
  rest : Text

def Cut.cons (c : Char) (cut : Cut) : Cut := { cut with inner := c :: cut.inner }

def Closer.cut? (closer : Closer) : Text → Option Cut
  | [] => none
  | c :: rest =>
    match closer.match? (c :: rest) with
    | some (closing, after) => some ⟨[], closing, after⟩
    | none => (closer.cut? rest).map (Cut.cons c)

/-- Where a reader of expressions stands: between strings, inside of one, or inside and right after
a backslash. -/
inductive Quoting where
  | outside
  | inside (quote : Char)
  | escaped (quote : Char)

/-- Cuts a text at its first closer outside of quoted strings. In a string a backslash shields the
next character. -/
def Closer.cutQuoted? (closer : Closer) : Quoting → Text → Option Cut
  | _, [] => none
  | .outside, c :: rest =>
    if c = '"' ∨ c = '\'' then (closer.cutQuoted? (.inside c) rest).map (Cut.cons c)
    else match closer.match? (c :: rest) with
      | some (closing, after) => some ⟨[], closing, after⟩
      | none => (closer.cutQuoted? .outside rest).map (Cut.cons c)
  | .inside quote, c :: rest =>
    let next : Quoting :=
      if c = quote then .outside else if c = '\\' then .escaped quote else .inside quote
    (closer.cutQuoted? next rest).map (Cut.cons c)
  | .escaped quote, c :: rest => (closer.cutQuoted? (.inside quote) rest).map (Cut.cons c)

def tagCloser : Closer := ⟨[], 2⟩

def tripleCloser : Closer := ⟨[], 3⟩

def dashCloser : Closer := ⟨['-', '-'], 2⟩

/-! ### Tags -/

structure TagRead where
  tag : Tag
  rest : Text

def Cut.toTag (kind : TagKind) (opening : Text) (cut : Cut) : TagRead :=
  ⟨⟨kind, opening, cut.inner, cut.closing⟩, cut.rest⟩

def readComment (closer : Closer) (opening text : Text) : Except Cause TagRead :=
  match closer.cut? text with
  | some cut => .ok (cut.toTag .comment opening)
  | none => .error .unterminatedComment

def readExpressionTag (kind : TagKind) (closer : Closer) (opening text : Text) :
    Except Cause TagRead :=
  match closer.cutQuoted? .outside text with
  | some cut => .ok (cut.toTag kind opening)
  | none => .error .unterminatedMustache

/-- Whether the text after the word `else` lets it be the word of an else tag. -/
def endsElse (text : Text) : Bool :=
  match text with
  | c :: _ => Text.isBlank c || (tagCloser.match? text).isSome
  | [] => false

/-- The blanks and the word `else` at the start of a text, if the word ends there, and what
follows. -/
def splitElse? (text : Text) : Option (Text × Text) :=
  let blanks := text.takeWhile Text.isBlank
  match text.dropWhile Text.isBlank with
  | 'e' :: 'l' :: 's' :: 'e' :: rest =>
    if endsElse rest then some (blanks ++ ['e', 'l', 's', 'e'], rest) else none
  | _ => none

def splitInverse? (text : Text) : Option (Text × Text) :=
  match tagCloser.match? (text.dropWhile Text.isBlank) with
  | some (closing, rest) => some (text.takeWhile Text.isBlank ++ closing, rest)
  | none => none

/-- The kind of tag that the first characters after the opening announce, those characters, and what
follows them. -/
def sigil (text : Text) : TagKind × Text × Text :=
  match text with
  | '#' :: '>' :: rest => (.partialBlock, ['#', '>'], rest)
  | '#' :: '*' :: rest => (.decoratorBlock, ['#', '*'], rest)
  | '#' :: rest => (.block, ['#'], rest)
  | '^' :: rest => (.inverseBlock, ['^'], rest)
  | '/' :: rest => (.stop .close, ['/'], rest)
  | '>' :: rest => (.partialCall, ['>'], rest)
  | '*' :: rest => (.decorator, ['*'], rest)
  | '&' :: rest => (.unescaped, ['&'], rest)
  | rest => (.mustache, [], rest)

def readPlainTag (opening text : Text) : Except Cause TagRead :=
  match splitElse? text with
  | some (word, rest) => readExpressionTag (.stop .elseTag) tagCloser (opening ++ word) rest
  | none =>
    let (kind, sign, rest) := sigil text
    readExpressionTag kind tagCloser (opening ++ sign) rest

def readOpened (opening text : Text) : Except Cause TagRead :=
  match text with
  | '!' :: '-' :: '-' :: rest => readComment dashCloser (opening ++ ['!', '-', '-']) rest
  | '!' :: rest => readComment tagCloser (opening ++ ['!']) rest
  | '{' :: rest => readExpressionTag .unescaped tripleCloser (opening ++ ['{']) rest
  | '^' :: rest =>
    match splitInverse? rest with
    | some (closing, after) => .ok ⟨⟨.stop .inverse, opening ++ ['^'], [], closing⟩, after⟩
    | none => readPlainTag opening text
  | _ => readPlainTag opening text

def readTag (text : Text) : Except Cause TagRead :=
  match text with
  | '{' :: '{' :: _ => .error .rawBlock
  | '~' :: rest => readOpened ['{', '{', '~'] rest
  | _ => readOpened ['{', '{'] text

/-! ### All pieces -/

structure Pieces where
  pieces : List Piece
  fault : Option Cause

def Pieces.cons (piece : Piece) (pieces : Pieces) : Pieces :=
  { pieces with pieces := piece :: pieces.pieces }

/-! ### Nothing is lost -/

theorem readContent_written_append_rest (text : Text) :
    (readContent text).written ++ (readContent text).rest = text := by
  fun_induction readContent text <;> simp_all +zetaDelta

theorem Closer.append_of_match? {closer : Closer} {text closing rest : Text}
    (h : closer.match? text = some (closing, rest)) : closing ++ rest = text := by
  unfold Closer.match? Text.startsWith at h
  by_cases tilde : (closer.lead ++ '~' :: List.replicate closer.braces '}').isPrefixOf text
  · obtain ⟨more, rfl⟩ := List.isPrefixOf_iff_prefix.mp tilde
    simp_all
  · by_cases plain : (closer.lead ++ List.replicate closer.braces '}').isPrefixOf text
    · obtain ⟨more, rfl⟩ := List.isPrefixOf_iff_prefix.mp plain
      simp_all
      simp [← h.1]
    · simp_all

theorem Closer.append_of_cut? {closer : Closer} {text : Text} {cut : Cut}
    (h : closer.cut? text = some cut) : cut.inner ++ cut.closing ++ cut.rest = text := by
  induction text generalizing cut with
  | nil => simp [Closer.cut?] at h
  | cons c rest ih =>
    simp only [Closer.cut?] at h
    split at h
    · next matched =>
      obtain rfl := Option.some.inj h
      simpa using append_of_match? matched
    · obtain ⟨shorter, found, rfl⟩ := Option.map_eq_some_iff.mp h
      simpa [Cut.cons] using ih found

theorem Closer.append_of_cutQuoted? {closer : Closer} {quoting : Quoting} {text : Text} {cut : Cut}
    (h : closer.cutQuoted? quoting text = some cut) :
    cut.inner ++ cut.closing ++ cut.rest = text := by
  induction text generalizing quoting cut with
  | nil => simp [Closer.cutQuoted?] at h
  | cons c rest ih =>
    have step {next : Quoting} (h : (closer.cutQuoted? next rest).map (Cut.cons c) = some cut) :
        cut.inner ++ cut.closing ++ cut.rest = c :: rest := by
      obtain ⟨shorter, found, rfl⟩ := Option.map_eq_some_iff.mp h
      simpa [Cut.cons] using ih found
    cases quoting with
    | outside =>
      simp only [Closer.cutQuoted?] at h
      split at h
      · exact step h
      · split at h
        · next matched =>
          obtain rfl := Option.some.inj h
          simpa using append_of_match? matched
        · exact step h
    | inside quote => exact step h
    | escaped quote => exact step h

theorem readComment_append {closer : Closer} {opening text : Text} {read : TagRead}
    (h : readComment closer opening text = .ok read) :
    read.tag.text ++ read.rest = opening ++ text := by
  simp only [readComment] at h
  split at h
  · next found =>
    obtain rfl := Except.ok.inj h
    simpa [Cut.toTag, Tag.text] using Closer.append_of_cut? found
  · simp at h

theorem readExpressionTag_append {kind : TagKind} {closer : Closer} {opening text : Text}
    {read : TagRead} (h : readExpressionTag kind closer opening text = .ok read) :
    read.tag.text ++ read.rest = opening ++ text := by
  simp only [readExpressionTag] at h
  split at h
  · next found =>
    obtain rfl := Except.ok.inj h
    simpa [Cut.toTag, Tag.text] using Closer.append_of_cutQuoted? found
  · simp at h

theorem append_of_splitElse? {text word rest : Text} (h : splitElse? text = some (word, rest)) :
    word ++ rest = text := by
  simp only [splitElse?] at h
  split at h
  · next after found =>
    split at h
    · simp only [Option.some.injEq, Prod.mk.injEq] at h
      obtain ⟨rfl, rfl⟩ := h
      calc
        _ = text.takeWhile Text.isBlank ++ text.dropWhile Text.isBlank := by simp [found]
        _ = text := List.takeWhile_append_dropWhile
    · simp at h
  · simp at h

theorem append_of_splitInverse? {text closing rest : Text}
    (h : splitInverse? text = some (closing, rest)) : closing ++ rest = text := by
  simp only [splitInverse?] at h
  split at h
  · next matched =>
    simp only [Option.some.injEq, Prod.mk.injEq] at h
    obtain ⟨rfl, rfl⟩ := h
    rw [List.append_assoc, Closer.append_of_match? matched, List.takeWhile_append_dropWhile]
  · simp at h

theorem sigil_append (text : Text) : (sigil text).2.1 ++ (sigil text).2.2 = text := by
  unfold sigil
  split <;> simp

theorem readPlainTag_append {opening text : Text} {read : TagRead}
    (h : readPlainTag opening text = .ok read) :
    read.tag.text ++ read.rest = opening ++ text := by
  simp only [readPlainTag] at h
  split at h
  · next split =>
    rw [readExpressionTag_append h, List.append_assoc, append_of_splitElse? split]
  · rw [readExpressionTag_append h, List.append_assoc, sigil_append]

theorem readOpened_append {opening text : Text} {read : TagRead}
    (h : readOpened opening text = .ok read) :
    read.tag.text ++ read.rest = opening ++ text := by
  unfold readOpened at h
  split at h
  · simpa using readComment_append h
  · simpa using readComment_append h
  · simpa using readExpressionTag_append h
  · split at h
    · next split =>
      obtain rfl := Except.ok.inj h
      simp [Tag.text, append_of_splitInverse? split]
    · exact readPlainTag_append h
  · exact readPlainTag_append h

/-- A tag and what follows it are the text that was read. -/
theorem readTag_append {text : Text} {read : TagRead} (h : readTag text = .ok read) :
    read.tag.text ++ read.rest = '{' :: '{' :: text := by
  unfold readTag at h
  split at h
  · simp at h
  · simpa using readOpened_append h
  · simpa using readOpened_append h

theorem readOpened_opening {opening text : Text} {read : TagRead}
    (h : readOpened opening text = .ok read) : ∃ more, read.tag.opening = opening ++ more := by
  have comment {closer : Closer} {more text : Text}
      (h : readComment closer (opening ++ more) text = .ok read) :
      ∃ more, read.tag.opening = opening ++ more := by
    simp only [readComment] at h
    split at h
    · obtain rfl := Except.ok.inj h
      exact ⟨more, rfl⟩
    · simp at h
  have expression {kind : TagKind} {closer : Closer} {more text : Text}
      (h : readExpressionTag kind closer (opening ++ more) text = .ok read) :
      ∃ more, read.tag.opening = opening ++ more := by
    simp only [readExpressionTag] at h
    split at h
    · obtain rfl := Except.ok.inj h
      exact ⟨more, rfl⟩
    · simp at h
  have plain (h : readPlainTag opening text = .ok read) :
      ∃ more, read.tag.opening = opening ++ more := by
    simp only [readPlainTag] at h
    split at h <;> exact expression h
  unfold readOpened at h
  split at h
  · exact comment h
  · exact comment h
  · exact expression h
  · split at h
    · obtain rfl := Except.ok.inj h
      exact ⟨_, rfl⟩
    · exact plain h
  · exact plain h

theorem readTag_rest_length {text : Text} {read : TagRead} (h : readTag text = .ok read) :
    read.rest.length ≤ text.length := by
  have whole := congrArg List.length (readTag_append h)
  have opening : ∃ more, read.tag.opening = '{' :: '{' :: more := by
    unfold readTag at h
    split at h
    · simp at h
    · obtain ⟨more, eq⟩ := readOpened_opening h
      exact ⟨_, eq⟩
    · obtain ⟨more, eq⟩ := readOpened_opening h
      exact ⟨_, eq⟩
  obtain ⟨more, eq⟩ := opening
  simp [Tag.text, eq] at whole
  omega

theorem readTag_rest_shorter {text rest : Text} {next : TagRead}
    (found : (readContent text).rest = '{' :: '{' :: rest) (tagged : readTag rest = .ok next) :
    next.rest.length < text.length := by
  have whole := congrArg List.length (readContent_written_append_rest text)
  have shorter := readTag_rest_length tagged
  simp only [List.length_append, found, List.length_cons] at whole
  omega

def pieces (text : Text) : Pieces :=
  let after : Pieces :=
    match found : (readContent text).rest with
    | '{' :: '{' :: rest =>
      match tagged : readTag rest with
      | .ok next =>
        have := readTag_rest_shorter found tagged
        (pieces next.rest).cons (.tag next.tag)
      | .error cause => ⟨[], some cause⟩
    | _ => ⟨[], none⟩
  let content := readContent text
  if content.written.isEmpty then after else after.cons (.content content.written content.value)
termination_by text.length

end Phrasebook.Template
