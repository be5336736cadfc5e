import Phrasebook.Proofs.Edit.ReadBack
import Phrasebook.Proofs.Template.Printing

/-!
# Words in front of a quoted text

A tag that holds a word and a quoted text calls the word if it is read as a name. Some words are not: the
word of else tags, the words that stand for values, and whole numbers. A newline behind a word ends it and
is not part of it. `wrap_calls_iff` says which words are called as they were written.
-/

namespace Phrasebook

open Template Grammar

/-- A template that is one tag, which calls a path with the given name. -/
def Template.CallsOnly (name : Text) (template : Template) : Prop :=
  ∃ label callee path params named escaped,
    template.program.body = [.mustache label ⟨.path callee path, params, named⟩ escaped] ∧ path.written = name

/-! ### What is called -/

theorem load_single {source : String} {text inner : Text} {template : Template}
    (cut : pieces text = ⟨[.tag ⟨.mustache, ['{', '{'], inner, ['}', '}']⟩], none⟩)
    (loaded : Template.load source text = .ok template) :
    ∃ read label, readCall text 2 0 2 inner false = .ok read ∧
      template.program.body = [.mustache label (Expr.mapCall text.span read.call) true] := by
  unfold Template.load at loaded
  split at loaded
  · next tree parsed =>
    obtain rfl := Except.ok.inj loaded
    unfold parse at parsed
    rw [cut] at parsed
    obtain ⟨state, taken, parsed⟩ := bind_ok parsed
    obtain ⟨next, took, rest⟩ := bind_ok taken
    obtain rfl := Except.ok.inj rest
    obtain ⟨added, called, took⟩ := bind_ok took
    obtain ⟨read, found, called⟩ := bind_ok called
    obtain rfl := Except.ok.inj called
    obtain rfl := Except.ok.inj took
    obtain rfl := Except.ok.inj parsed
    exact ⟨read, _, found, rfl⟩
  · cases loaded

theorem mapCall_callee {ρ σ : Type} (f : ρ → σ) (call : Call ρ) :
    (Expr.mapCall f call).callee = call.callee.mapRange f := by
  obtain ⟨callee, params, named⟩ := call
  rfl

theorem readCall_callee {text inner : Text} {next start offset : Nat} {allowParams : Bool} {read : CallRead}
    {first : Token} {rest : List Token} (found : readCall text next start offset inner allowParams = .ok read)
    (lexed : tokens offset inner = .ok (first :: rest)) :
    ∃ parsed, readOperand text next first rest = .ok parsed ∧ read.call.callee = parsed.value := by
  unfold readCall at found
  obtain ⟨list, lexed', found⟩ := bind_ok found
  obtain rfl := Except.ok.inj (lexed.symm.trans lexed')
  obtain ⟨callee, called, found⟩ := bind_ok found
  obtain ⟨arguments, -, found⟩ := bind_ok found
  obtain ⟨⟨blockParams, left⟩, -, found⟩ := bind_ok found
  cases left with
  | nil =>
    obtain rfl := Except.ok.inj found
    exact ⟨callee, called, rfl⟩
  | cons token left => cases found

theorem readOperand_literal {text : Text} {next : Nat} {token : Token} {rest : List Token}
    {parsed : Parsed (Expr Extent) rest.length} (isLiteral : IsLiteral token.kind)
    (read : readOperand text next token rest = .ok parsed) :
    ∃ label value, parsed.value = .literal label value := by
  rw [readOperand.eq_def] at read
  rcases isLiteral with kind | kind | kind | kind | kind <;> simp only [kind] at read <;>
    obtain ⟨literal, -, done⟩ := bind_ok read <;> obtain rfl := Except.ok.inj done <;> exact ⟨_, _, rfl⟩

/-! ### Words that are no names -/

/-- The words that stand for values. -/
def literalWords : List Text := keywords.tail

theorem number?_numeral {word rest : Text} (isNumber : isNumeral word = true) (ended : endsLiteral rest = true) :
    number? (word ++ rest) = some word.length ∧ word.head? ≠ some 'a' := by
  obtain ⟨sign, digits, rfl, isSign, filled, isDigits⟩ : ∃ sign digits, word = sign ++ digits ∧
      (sign = [] ∨ sign = ['-']) ∧ digits ≠ [] ∧ ∀ c ∈ digits, isDigit c = true := by
    unfold isNumeral at isNumber
    split at isNumber
    · next digits =>
      simp only [Bool.and_eq_true, Bool.not_eq_true', List.isEmpty_eq_false_iff, List.all_eq_true] at isNumber
      exact ⟨['-'], digits, rfl, .inr rfl, isNumber⟩
    · simp only [Bool.and_eq_true, Bool.not_eq_true', List.isEmpty_eq_false_iff, List.all_eq_true] at isNumber
      exact ⟨[], word, rfl, .inl rfl, isNumber⟩
  refine ⟨?_, ?_⟩
  · rw [List.append_assoc, List.length_append]
    exact number?_digits isSign filled isDigits ended
  · obtain ⟨c, digits, rfl⟩ := List.exists_cons_of_ne_nil filled
    rcases isSign with rfl | rfl
    · rintro same
      obtain rfl : c = 'a' := by simpa using same
      exact absurd (isDigits _ List.mem_cons_self) (by decide)
    · simp

theorem lexeme?_literal {c : Char} {word rest : Text} (isChar : isNameChar c = true)
    (isLiteral : isNumeral (c :: word) = true ∨ c :: word ∈ literalWords) (ended : endsLiteral rest = true) :
    ∃ kind, lexeme? c (word ++ rest) = some (kind, word.length + 1) ∧ IsLiteral kind := by
  rcases isLiteral with isNumber | isWord
  · obtain ⟨found, notLetter⟩ := number?_numeral isNumber ended
    exact ⟨_, lexeme?_number isChar (by simpa using notLetter) found, .inr (.inl rfl)⟩
  · simp only [literalWords, keywords, List.tail_cons, List.mem_cons, List.not_mem_nil, or_false] at isWord
    rcases isWord with same | same | same | same <;> obtain ⟨rfl, rfl⟩ := List.cons.inj same
    · exact ⟨_, lexeme?_true ended, .inr (.inr (.inl rfl))⟩
    · exact ⟨_, lexeme?_false ended, .inr (.inr (.inl rfl))⟩
    · exact ⟨_, lexeme?_null ended, .inr (.inr (.inr (.inr rfl)))⟩
    · exact ⟨_, lexeme?_undefined ended, .inr (.inr (.inr (.inl rfl)))⟩

theorem tokens_first {c : Char} {rest : Text} {offset length : Nat} {kind : TokenKind} {list : List Token}
    (solid : Text.isBlank c = false) (found : lexeme? c rest = some (kind, length))
    (lexed : tokens offset (c :: rest) = .ok list) : ∃ first later, list = first :: later ∧ first.kind = kind := by
  rw [tokens_solid _ solid, found] at lexed
  obtain ⟨later, -, lexed⟩ := bind_ok lexed
  exact ⟨_, later, (Except.ok.inj lexed).symm, rfl⟩

/-- What stands at the start of a tag is a value and no call, if it is a word for one. -/
theorem readCall_literal {word behind text : Text} {next start offset : Nat} {read : CallRead}
    (filled : word ≠ []) (chars : ∀ c ∈ word, isNameChar c = true)
    (isLiteral : isNumeral word = true ∨ word ∈ literalWords) (ended : endsLiteral behind = true)
    (found : readCall text next start offset (word ++ behind) false = .ok read) :
    ∃ label value, read.call.callee = .literal label value := by
  obtain ⟨c, word, rfl⟩ := List.exists_cons_of_ne_nil filled
  have isChar := chars c List.mem_cons_self
  obtain ⟨kind, here, isKind⟩ := lexeme?_literal isChar isLiteral ended
  have found' := found
  unfold readCall at found'
  obtain ⟨list, lexed, -⟩ := bind_ok found'
  obtain ⟨first, later, rfl, rfl⟩ := tokens_first (isNameChar_blank isChar) here lexed
  obtain ⟨parsed, operand, callee⟩ := readCall_callee found lexed
  obtain ⟨label, value, same⟩ := readOperand_literal isKind operand
  exact ⟨label, value, callee.trans same⟩

/-! ### Words in tags -/

section Words

variable {word gap text : Text}

theorem isPlain_blank {c : Char} (blank : Text.isBlank c = true) : isPlain c = true := by
  by_contra notPlain
  simp only [isPlain, List.contains_eq_mem, List.mem_cons, List.not_mem_nil, or_false, Bool.not_eq_true',
    decide_eq_false_iff_not, not_not] at notPlain
  rcases notPlain with rfl | rfl | rfl | rfl <;> exact absurd blank (by decide)

theorem blank_head (blank : ∀ c ∈ gap, Text.isBlank c = true) (more : Text) :
    ∃ c rest, gap ++ ' ' :: more = c :: rest ∧ Text.isBlank c = true := by
  cases gap with
  | nil => exact ⟨' ', more, rfl, by decide⟩
  | cons c gap => exact ⟨c, gap ++ ' ' :: more, rfl, blank c List.mem_cons_self⟩

theorem passes_gap (blank : ∀ c ∈ gap, Text.isBlank c = true) (h : Wrappable text) :
    tagCloser.Passes (gap ++ ' ' :: quoted text) :=
  (tagCloser_bare.passes_plain fun c member => isPlain_blank (blank c member)).append
    ((tagCloser_bare.passes_plain (List.all_eq_true.mp (by decide : ([' '] : Text).all isPlain = true))).append
      (tagCloser.passes_quoted h))

theorem pieces_word (filled : word ≠ []) (chars : ∀ c ∈ word, isNameChar c = true) (notElse : word ≠ elseWord)
    (blank : ∀ c ∈ gap, Text.isBlank c = true) (h : Wrappable text) :
    pieces (wrap (word ++ gap) text) =
      ⟨[.tag ⟨.mustache, ['{', '{'], word ++ (gap ++ ' ' :: quoted text), ['}', '}']⟩], none⟩ := by
  have ended : endsName (gap ++ ' ' :: quoted text ++ ['}']) = true := by
    obtain ⟨c, rest, same, isBlank⟩ := blank_head blank (quoted text)
    rw [same]
    simp [endsName, isBlank]
  have read : ReadBefore [] (.tag ⟨.mustache, ['{', '{'], word ++ (gap ++ ' ' :: quoted text), ['}', '}']⟩) :=
    readBefore_mustache (startsCall_word filled chars notElse ended)
      (.append (tagCloser_bare.passes_plain fun c member => isPlain_nameChar (chars c member))
        (passes_gap blank h)) []
  have cut := @pieces_textOf [_] ⟨read, trivial⟩
  have whole : wrap (word ++ gap) text =
      Tag.text ⟨.mustache, ['{', '{'], word ++ (gap ++ ' ' :: quoted text), ['}', '}']⟩ := by
    rw [wrap_eq, Tag.text, List.append_assoc word gap]
  rw [whole]
  rwa [textOf_cons, show textOf [] = [] from rfl, List.append_nil] at cut

theorem load_else (blank : ∀ c ∈ gap, Text.isBlank c = true) (h : Wrappable text) (source : String)
    (template : Template) : Template.load source (wrap (elseWord ++ gap) text) ≠ .ok template := by
  have read := @readBefore_else (gap ++ ' ' :: quoted text)
    (.inr (blank_head blank (quoted text))) (passes_gap blank h) []
  have cut := @pieces_textOf [_] ⟨read, trivial⟩
  have whole : wrap (elseWord ++ gap) text =
      Tag.text ⟨.stop .elseTag, '{' :: '{' :: elseWord, gap ++ ' ' :: quoted text, ['}', '}']⟩ := by
    rw [wrap_eq, Tag.text, List.append_assoc elseWord gap]
    rfl
  rw [textOf_cons, show textOf [] = [] from rfl, List.append_nil] at cut
  intro loaded
  unfold Template.load at loaded
  split at loaded
  · next tree parsed =>
    -- No block is open that the tag could divide.
    unfold parse at parsed
    rw [whole, show pieces (Tag.text _) = _ from cut] at parsed
    obtain ⟨state, taken, -⟩ := bind_ok parsed
    obtain ⟨next, took, -⟩ := bind_ok taken
    obtain ⟨added, stopped, -⟩ := bind_ok took
    cases stopped
  · cases loaded

theorem openParams?_blanks (blank : ∀ c ∈ gap, Text.isBlank c = true) (text : Text) :
    openParams? ('a' :: 's' :: (gap ++ ' ' :: quoted text)) = none := by
  have blanks : ∀ c ∈ gap ++ [' '], Text.isBlank c = true := by
    intro c member
    rcases List.mem_append.mp member with inGap | isSpace
    · exact blank c inGap
    · rw [List.mem_singleton.mp isSpace]
      decide
  have taken : (gap ++ ' ' :: quoted text).takeWhile Text.isBlank = gap ++ [' '] := by
    rw [List.append_cons, List.takeWhile_append_of_pos blanks]
    rcases quoteFor_cases text with quote | quote <;> simp [quoted, quote, Text.isBlank]
  unfold openParams?
  simp only [taken]
  rw [List.append_cons gap ' ' (quoted text), List.drop_left]
  rcases quoteFor_cases text with quote | quote <;> simp [quoted, quote]

theorem readCall_name {whole : Text} {offset next start : Nat} {read : CallRead} (isName : IsName word)
    (blank : ∀ c ∈ gap, Text.isBlank c = true) (here : whole.slice offset (offset + word.length) = word)
    (found : readCall whole next start offset (word ++ (gap ++ ' ' :: quoted text)) false = .ok read) :
    ∃ label path, read.call.callee = .path label path ∧ path.written = word := by
  have ended : endsName (gap ++ ' ' :: quoted text) = true := by
    obtain ⟨c, rest, same, isBlank⟩ := blank_head blank (quoted text)
    rw [same]
    simp [endsName, isBlank]
  have behind : tokens (offset + word.length) (gap ++ ' ' :: quoted text) = .ok [⟨.string, quoted text,
      ⟨offset + word.length + gap.length + 1,
        offset + word.length + gap.length + 1 + (quoted text).length⟩⟩] := by
    rw [tokens_blanks blank, tokens_blank _ (by decide), tokens_quoted_last]
  obtain ⟨parsed, operand, callee⟩ := readCall_callee found
    (tokens_name isName ended (openParams?_blanks blank text) behind)
  rw [readOperand_helper here next rfl] at operand
  obtain rfl := Except.ok.inj operand
  exact ⟨_, _, callee, rfl⟩

/-- A word in front of a quoted text is called as it was written if and only if it is a name and nothing
stands behind it. -/
theorem wrap_calls_iff (filled : word ≠ []) (chars : ∀ c ∈ word, isNameChar c = true)
    (blank : ∀ c ∈ gap, Text.isBlank c = true) (h : Wrappable text) (source : String) :
    (∃ template, Template.load source (wrap (word ++ gap) text) = .ok template ∧
      template.CallsOnly (word ++ gap)) ↔ gap = [] ∧ IsName word := by
  constructor
  · rintro ⟨template, loaded, label, callee, path, params, named, escaped, body, written⟩
    by_cases isElse : word = elseWord
    · rw [isElse] at loaded
      exact absurd loaded (load_else blank h source template)
    obtain ⟨read, label', found, body'⟩ := load_single (pieces_word filled chars isElse blank h) loaded
    have called : (Expr.mapCall (wrap (word ++ gap) text).span read.call).callee = .path callee path := by
      rw [body, List.cons.injEq] at body'
      injection body'.1 with _ same
      rw [← same]
    have notLiteral : ¬(isNumeral word = true ∨ word ∈ literalWords) := by
      intro isLiteral
      have ended : endsLiteral (gap ++ ' ' :: quoted text) = true := by
        obtain ⟨c, rest, same, isBlank⟩ := blank_head blank (quoted text)
        rw [same]
        simp [endsLiteral, isBlank]
      obtain ⟨label, value, same⟩ := readCall_literal filled chars isLiteral ended found
      rw [mapCall_callee, same] at called
      cases called
    have isName : IsName word := by
      refine ⟨filled, chars, by simpa using not_or.mp notLiteral |>.1, fun isKeyword => ?_⟩
      rcases List.mem_cons.mp isKeyword with same | isWord
      · exact isElse same
      · exact notLiteral (.inr isWord)
    have here : (wrap (word ++ gap) text).slice 2 (2 + word.length) = word := by
      rw [wrap_eq]
      simp [Text.slice]
    obtain ⟨label, path', same, written'⟩ := readCall_name isName blank here found
    rw [mapCall_callee, same] at called
    obtain ⟨-, rfl⟩ := Expr.path.inj called
    exact ⟨by simpa [written'] using written, isName⟩
  · rintro ⟨rfl, isName⟩
    rw [List.append_nil]
    refine ⟨_, by rw [Template.load, parse_wrap isName h], _, _, _, _, _, _, rfl, rfl⟩

end Words

end Phrasebook
