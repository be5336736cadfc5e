import Mathlib
import Phrasebook.Edit
import Phrasebook.Proofs.Template.Elsewhere
import Phrasebook.Proofs.Template.Relocation

/-!
Names and quoted strings, read back. A name is one token wherever something ends it, and a string in
quotes is one token whatever stands in it, both for the reader of tags, who looks for the closing
braces, and for the reader of tokens.
-/

namespace Phrasebook.Template

/-! ### Names -/

/-- A whole number as written. -/
def isNumeral (text : Text) : Bool :=
  let digits := match text with
    | '-' :: digits => digits
    | digits => digits
  !digits.isEmpty && digits.all isDigit

/-- The words that are not read as names. -/
def keywords : List Text :=
  ["else".toList, "true".toList, "false".toList, "null".toList, "undefined".toList]

/-- A run of name characters that is read as a name. -/
structure IsName (text : Text) : Prop where
  filled : text ≠ []
  chars : ∀ c ∈ text, isNameChar c = true
  notNumeral : isNumeral text = false
  notKeyword : text ∉ keywords

instance {text : Text} : Decidable (IsName text) :=
  decidable_of_iff
    (text ≠ [] ∧ text.all isNameChar = true ∧ isNumeral text = false ∧ ¬ keywords.contains text)
    ⟨fun ⟨filled, chars, notNumeral, notKeyword⟩ =>
        ⟨filled, List.all_eq_true.mp chars, notNumeral, mt List.contains_iff_mem.mpr notKeyword⟩,
      fun h =>
        ⟨h.filled, List.all_eq_true.mpr h.chars, h.notNumeral,
          mt List.contains_iff_mem.mp h.notKeyword⟩⟩

theorem nameChar_ne {c d : Char} (h : isNameChar c = true) (other : isNameChar d = false) : c ≠ d := by
  rintro rfl
  simp [h] at other

theorem isNameChar_blank {c : Char} (h : isNameChar c = true) : Text.isBlank c = false := by
  simp only [isNameChar, Bool.and_eq_true, Bool.not_eq_true'] at h
  exact h.1

/-- The token at the start of a text, and the tokens behind it. -/
theorem tokens_lexeme {c : Char} {word rest : Text} {kind : TokenKind} {offset : Nat}
    (solid : Text.isBlank c = false)
    (found : lexeme? c (word ++ rest) = some (kind, word.length + 1)) {later : List Token}
    (lexed : tokens (offset + (c :: word).length) rest = .ok later) :
    tokens offset (c :: word ++ rest) =
      .ok (⟨kind, c :: word, ⟨offset, offset + (c :: word).length⟩⟩ :: later) := by
  have reach : offset + 1 + word.length = offset + (c :: word).length := by
    simp only [List.length_cons]
    omega
  rw [List.cons_append, tokens_solid _ solid, found]
  simp only [Nat.add_sub_cancel, List.take_left', List.drop_left', reach, lexed]
  rfl

theorem endsName_head {c : Char} {rest : Text} (h : endsName (c :: rest) = true) :
    isNameChar c = false := by
  simp only [endsName, Bool.or_eq_true] at h
  rcases h with blank | mark
  · simp [isNameChar, blank]
  · simp only [List.contains_eq_mem, List.mem_cons, List.not_mem_nil, or_false, decide_eq_true_eq] at mark
    rcases mark with rfl | rfl | rfl | rfl | rfl | rfl | rfl <;> decide

theorem endsLiteral_nameChar {c : Char} (h : isNameChar c = true) (rest : Text) :
    endsLiteral (c :: rest) = false := by
  have mark : c ∉ ['~', '}', ')'] := by
    simp only [List.mem_cons, List.not_mem_nil, or_false, not_or]
    exact ⟨nameChar_ne h (by decide), nameChar_ne h (by decide), nameChar_ne h (by decide)⟩
  simp [endsLiteral, isNameChar_blank h, mark]

theorem endsLiteral_head {c : Char} {rest : Text} (h : endsLiteral (c :: rest) = true) :
    isNameChar c = false ∧ c ≠ '.' := by
  have notChar : isNameChar c = false := by
    by_contra isChar
    rw [Bool.not_eq_false] at isChar
    simp [endsLiteral_nameChar isChar] at h
  refine ⟨notChar, ?_⟩
  rintro rfl
  simp [endsLiteral, Text.isBlank] at h

theorem isDigit_nameChar {c : Char} (h : isDigit c = true) : isNameChar c = true := by
  obtain ⟨low, high⟩ : '0' ≤ c ∧ c ≤ '9' := by simpa [isDigit] using h
  have bounds : 48 ≤ c.toNat ∧ c.toNat ≤ 57 := ⟨low, high⟩
  have ten : ∀ n : Fin 10, isNameChar (Char.ofNat (48 + n)) = true := by decide
  have digit := ten ⟨c.toNat - 48, by omega⟩
  simp only [show 48 + (c.toNat - 48) = c.toNat by omega, Char.ofNat_toNat] at digit
  exact digit

theorem name?_name {name rest : Text} (h : IsName name) (ended : endsName rest = true) :
    name? (name ++ rest) = some name.length := by
  have taken : (name ++ rest).takeWhile isNameChar = name := by
    rw [List.takeWhile_append_of_pos h.chars]
    cases rest with
    | nil => simp
    | cons c rest => simp [endsName_head ended]
  unfold name?
  simp only [taken, List.drop_left', ended, and_true]
  rw [if_pos]
  simpa using h.filled

/-- A word of name characters at the start of a name and what ends it stands in the name. -/
theorem startsWith_name {name rest word : Text} (chars : ∀ c ∈ word, isNameChar c = true)
    (ended : endsName rest = true) (h : Text.startsWith (name ++ rest) word = true) :
    ∃ more, name = word ++ more := by
  have starts : word <+: name ++ rest := List.isPrefixOf_iff_prefix.mp h
  induction name generalizing word with
  | nil =>
    cases word with
    | nil => exact ⟨[], rfl⟩
    | cons d word =>
      obtain ⟨more, rfl⟩ := starts
      have stop := endsName_head ended
      simp [chars d List.mem_cons_self] at stop
  | cons c name ih =>
    cases word with
    | nil => exact ⟨c :: name, rfl⟩
    | cons d word =>
      rw [List.cons_append, List.cons_prefix_cons] at starts
      obtain ⟨rfl, starts⟩ := starts
      obtain ⟨more, rfl⟩ := ih (fun c member => chars c (List.mem_cons_of_mem _ member))
        (List.isPrefixOf_iff_prefix.mpr starts) starts
      exact ⟨more, rfl⟩

theorem word?_name {name rest word : Text} (h : IsName name) (ended : endsName rest = true)
    (isKeyword : word ∈ keywords) : word? word (name ++ rest) = none := by
  have chars : ∀ word ∈ keywords, word.all isNameChar = true := by decide
  unfold word?
  rw [if_neg]
  intro both
  obtain ⟨starts, ends⟩ := Bool.and_eq_true_iff.mp both
  obtain ⟨more, rfl⟩ := startsWith_name (List.all_eq_true.mp (chars word isKeyword)) ended starts
  cases more with
  | nil => exact h.notKeyword (by rwa [List.append_nil])
  | cons d more =>
    rw [List.append_assoc, List.drop_left', List.cons_append, endsLiteral_nameChar] at ends
    · simp at ends
    · exact h.chars d (by simp)
    · rfl

/-- Digits and what stands behind them are no number unless they are there and all digits. -/
theorem number?_none {text digits rest : Text} {sign : Nat}
    (isSign : sign = match text with | '-' :: _ => 1 | _ => 0) (dropped : text.drop sign = digits ++ rest)
    (chars : ∀ c ∈ digits, isNameChar c = true) (notAll : digits = [] ∨ digits.all isDigit = false)
    (ended : endsName rest = true) : number? text = none := by
  unfold number?
  extract_lets sign' whole fraction length
  obtain rfl : sign' = sign := isSign.symm
  rw [if_neg]
  rintro ⟨some, ends⟩
  have run : digits.takeWhile isDigit ++ digits.dropWhile isDigit = digits :=
    List.takeWhile_append_dropWhile
  cases behind : digits.dropWhile isDigit with
  | nil =>
    -- All of them are digits, so there are none, and what ends the name is no digit.
    have every : digits.all isDigit = true := by
      rw [behind, List.append_nil] at run
      rw [← run]
      exact List.all_takeWhile
    have noDigits : digits = [] := notAll.resolve_right (by simp [every])
    apply some
    unfold whole
    rw [dropped, noDigits, List.nil_append, List.length_eq_zero_iff]
    cases rest with
    | nil => rfl
    | cons c rest =>
      rw [List.takeWhile_cons, if_neg]
      intro digit
      have stop := endsName_head ended
      simp [isDigit_nameChar digit] at stop
  | cons d more =>
    have notDigit : isDigit d = false := by
      have stop := List.head_dropWhile_not (p := isDigit) (l := digits) (by simp [behind])
      simpa [behind] using stop
    have front : ∀ c ∈ digits.takeWhile isDigit, isDigit c = true :=
      fun c member => List.mem_takeWhile_imp member
    rw [behind] at run
    generalize digits.takeWhile isDigit = front' at run front
    subst run
    have isChar : isNameChar d = true := chars d (by simp)
    have wholeIs : whole = front'.length := by
      unfold whole
      rw [dropped, List.append_assoc, List.takeWhile_append_of_pos front]
      simp [notDigit]
    have rest' : text.drop (sign' + whole) = d :: (more ++ rest) := by
      rw [← List.drop_drop, dropped, wholeIs]
      simp
    have noPoint : fraction = 0 := by
      unfold fraction
      rw [rest']
      split
      · next same =>
        obtain rfl := (List.cons.inj same).1
        exact absurd isChar (by decide)
      · rfl
    unfold length at ends
    rw [if_pos noPoint, Nat.add_zero, rest', endsLiteral_nameChar isChar] at ends
    simp at ends

theorem number?_name {name rest : Text} (h : IsName name) (ended : endsName rest = true) :
    number? (name ++ rest) = none := by
  have notAll := h.notNumeral
  obtain ⟨c, more, rfl⟩ := List.exists_cons_of_ne_nil h.filled
  unfold isNumeral at notAll
  by_cases minus : c = '-'
  · subst minus
    simp only [Bool.and_eq_false_iff, Bool.not_eq_false', List.isEmpty_iff] at notAll
    exact @number?_none _ more rest 1 rfl rfl
      (fun c member => h.chars c (List.mem_cons_of_mem _ member)) notAll ended
  · refine @number?_none _ (c :: more) rest 0 ?_ rfl h.chars ?_ ended
    · split
      · next same => exact absurd (List.cons.inj same).1 minus
      · rfl
    · split at notAll
      · next same => exact absurd (List.cons.inj same).1 minus
      · simpa using notAll

theorem openParams?_name {name rest : Text} (chars : ∀ c ∈ name, isNameChar c = true)
    (filled : name ≠ []) (ended : endsName rest = true)
    (noBar : openParams? ('a' :: 's' :: rest) = none) : openParams? (name ++ rest) = none := by
  unfold openParams?
  split
  · next more same =>
    cases name with
    | nil => exact absurd rfl filled
    | cons c name =>
      cases name with
      | nil =>
        -- The name is the letter alone, and no other letter can stand behind it.
        rw [List.singleton_append, List.cons.injEq] at same
        rw [same.2] at ended
        exact absurd ended (by simp only [endsName]; decide)
      | cons d name =>
        simp only [List.cons_append, List.cons.injEq] at same
        obtain ⟨rfl, rfl, rfl⟩ := same
        cases name with
        | nil => simpa [openParams?] using noBar
        | cons e name =>
          have isChar := chars e (by simp)
          simp only [List.cons_append, List.takeWhile_cons, isNameChar_blank isChar, Bool.false_eq_true,
            if_false, List.length_nil, List.drop_zero]
          split
          · rfl
          · rfl
  · rfl

theorem lexeme?_name {c : Char} {name rest : Text} (h : IsName (c :: name))
    (ended : endsName rest = true) (noBar : openParams? ('a' :: 's' :: rest) = none) :
    lexeme? c (name ++ rest) = some (.name, name.length + 1) := by
  have isChar := h.chars c List.mem_cons_self
  have one (d : Char) (other : isNameChar d = false) : c ≠ d := nameChar_ne isChar other
  have noBar := openParams?_name h.chars h.filled ended noBar
  unfold lexeme?
  simp only [← List.cons_append, noBar, number?_name h ended, name?_name h ended,
    word?_name h ended (show "true".toList ∈ keywords by decide),
    word?_name h ended (show "false".toList ∈ keywords by decide),
    word?_name h ended (show "undefined".toList ∈ keywords by decide),
    word?_name h ended (show "null".toList ∈ keywords by decide)]
  have dots : Text.startsWith (c :: (name ++ rest)) ['.', '.'] = false := by
    simp [Text.startsWith, List.isPrefixOf, Ne.symm (one '.' (by decide))]
  simp [dots, one '|' (by decide), one '(' (by decide), one ')' (by decide), one '=' (by decide),
    one '"' (by decide), one '\'' (by decide), one '@' (by decide), one '.' (by decide),
    one '/' (by decide)]

theorem tokens_name {name rest : Text} (h : IsName name) (ended : endsName rest = true)
    (noBar : openParams? ('a' :: 's' :: rest) = none) {offset : Nat} {later : List Token}
    (lexed : tokens (offset + name.length) rest = .ok later) :
    tokens offset (name ++ rest) =
      .ok (⟨.name, name, ⟨offset, offset + name.length⟩⟩ :: later) := by
  obtain ⟨c, word, rfl⟩ := List.exists_cons_of_ne_nil h.filled
  exact tokens_lexeme (isNameChar_blank (h.chars c List.mem_cons_self))
    (lexeme?_name h ended noBar) lexed

/-! ### Quoted strings -/

/-- The quote around a text: one that does not occur in it, if there is one. -/
def quoteFor (text : Text) : Char :=
  if text.contains '"' && !text.contains '\'' then '\'' else '"'

/-- The text with a backslash in front of every occurrence of the quote. -/
def escape (quote : Char) (text : Text) : Text :=
  text.flatMap fun c => if c = quote then ['\\', c] else [c]

/-- The text in quotes. -/
def quoted (text : Text) : Text := quoteFor text :: (escape (quoteFor text) text ++ [quoteFor text])

theorem escape_cons (quote c : Char) (text : Text) :
    escape quote (c :: text) = (if c = quote then ['\\', c] else [c]) ++ escape quote text := rfl

theorem escape_absent {quote : Char} {text : Text} (absent : quote ∉ text) : escape quote text = text := by
  induction text with
  | nil => rfl
  | cons c text ih =>
    obtain ⟨other, later⟩ := not_or.mp (fun h => absent (List.mem_cons.mpr h))
    rw [escape_cons, if_neg (Ne.symm other), ih later]
    rfl

theorem replace_one (text : Text) (quote : Char) :
    Text.replace text [quote] ['\\', quote] = escape quote text := by
  unfold Text.replace
  induction text with
  | nil => rfl
  | cons c text ih =>
    rw [escape_cons, Text.replace.go, ← ih]
    by_cases same : c = quote
    · subst same
      simp [Text.startsWith, List.isPrefixOf]
    · simp [Text.startsWith, List.isPrefixOf, same, Ne.symm same]

theorem wrap_eq (helper text : Text) :
    wrap helper text = ['{', '{'] ++ (helper ++ ' ' :: quoted text) ++ ['}', '}'] := by
  unfold wrap quoted quoteFor
  by_cases double : text.contains '"'
  · by_cases single : text.contains '\''
    · simp only [double, single, if_true, Bool.not_true, Bool.and_false, Bool.false_eq_true, if_false,
        replace_one]
      simp
    · have absent : '\'' ∉ text := by simpa using single
      simp only [double, single, if_true, Bool.false_eq_true, if_false, Bool.not_false, Bool.and_true,
        escape_absent absent]
      simp
  · have absent : '"' ∉ text := by simpa using double
    simp only [double, Bool.false_eq_true, if_false, Bool.false_and, escape_absent absent]
    simp

theorem quoteFor_cases (text : Text) : quoteFor text = '"' ∨ quoteFor text = '\'' := by
  unfold quoteFor
  split
  · exact .inr rfl
  · exact .inl rfl

theorem quoteFor_ne (text : Text) : quoteFor text ≠ '\\' := by
  rcases quoteFor_cases text with quote | quote <;> rw [quote] <;> decide

theorem unquote_escape {quote : Char} (notEscape : quote ≠ '\\') (text : Text) :
    unquote (quote :: (escape quote text ++ [quote])) = text := by
  have step : Text.replace.go ['\\', quote] [quote] 0 (escape quote text) = text := by
    induction text with
    | nil => rfl
    | cons c text ih =>
      rw [escape_cons]
      by_cases same : c = quote
      · subst same
        simp [Text.replace.go, Text.startsWith, List.isPrefixOf, ih]
      · rw [if_neg same, List.singleton_append, Text.replace.go, if_pos, ih]
        -- A quote of the text has its own backslash in front, so none stands right behind `c`.
        cases text with
        | nil => simp [escape, Text.startsWith, List.isPrefixOf]
        | cons d text =>
          rw [escape_cons]
          by_cases next : d = quote
          · simp [next, Text.startsWith, List.isPrefixOf, notEscape]
          · simp [next, Text.startsWith, List.isPrefixOf, Ne.symm next]
  unfold unquote
  simp only [List.dropLast_concat]
  exact step

theorem unescapedMark_escape {quote before : Char} {text : Text} (notEscape : quote ≠ '\\')
    (plain : '\\' ∉ text) (unescaped : before ≠ '\\') (rest : Text) :
    unescapedMark quote before (escape quote text ++ quote :: rest) =
      some ((escape quote text).length + 1) := by
  induction text generalizing before with
  | nil => simp [escape, unescapedMark, unescaped]
  | cons c text ih =>
    obtain ⟨other, later⟩ := not_or.mp (fun h => plain (List.mem_cons.mpr h))
    rw [escape_cons]
    by_cases same : c = quote
    · subst same
      simp [unescapedMark, Ne.symm notEscape, ih later notEscape]
    · simp [unescapedMark, same, ih later (Ne.symm other)]

theorem lexeme?_quoted {text : Text} (plain : '\\' ∉ text) (rest : Text) :
    lexeme? (quoteFor text) (escape (quoteFor text) text ++ quoteFor text :: rest) =
      some (.string, (escape (quoteFor text) text).length + 2) := by
  have marked := unescapedMark_escape (quoteFor_ne text) plain (quoteFor_ne text) rest
  have quotes := quoteFor_cases text
  generalize quoteFor text = quote at quotes marked
  unfold lexeme? delimited?
  rw [marked]
  rcases quotes with rfl | rfl <;> simp [openParams?]

theorem readLiteral_quoted (text : Text) (extent : Extent) :
    readLiteral ⟨.string, quoted text, extent⟩ = .ok (.string text) := by
  unfold readLiteral
  simp only [quoted, unquote_escape (quoteFor_ne text)]

theorem lastMark_concat (mark : Char) (text : Text) :
    lastMark mark (text ++ [mark]) = some (text.length + 1) := by
  induction text with
  | nil => simp [lastMark]
  | cons c text ih => simp [lastMark, ih]

/-- No closing mark in front of the last one ends a text whose own marks were escaped. -/
theorem delimited?_escape {quote : Char} (notEscape : quote ≠ '\\') (before : Char) (text : Text) :
    delimited? before quote (escape quote text ++ [quote]) = some ((escape quote text).length + 1) := by
  have first : unescapedMark quote before (escape quote text ++ [quote]) = none ∨
      unescapedMark quote before (escape quote text ++ [quote]) = some ((escape quote text).length + 1) := by
    induction text generalizing before with
    | nil =>
      by_cases escaped : before = '\\' <;> simp [escape, unescapedMark, escaped]
    | cons c text ih =>
      rw [escape_cons]
      by_cases same : c = quote
      · subst same
        rcases ih c with later | later <;> simp [unescapedMark, Ne.symm notEscape, later]
      · rcases ih c with later | later <;> simp [unescapedMark, same, later]
  unfold delimited?
  rcases first with unmarked | found
  · rw [unmarked, lastMark_concat]
  · rw [found]

/-- A text in quotes is one token where nothing stands behind it, whatever the text. -/
theorem tokens_quoted_last (text : Text) (offset : Nat) :
    tokens offset (quoted text) =
      .ok [⟨.string, quoted text, ⟨offset, offset + (quoted text).length⟩⟩] := by
  have solid : Text.isBlank (quoteFor text) = false := by
    rcases quoteFor_cases text with quote | quote <;> rw [quote] <;> decide
  have found : lexeme? (quoteFor text) (escape (quoteFor text) text ++ [quoteFor text]) =
      some (.string, (escape (quoteFor text) text).length + 2) := by
    have marked := delimited?_escape (quoteFor_ne text) (quoteFor text) text
    have quotes := quoteFor_cases text
    generalize quoteFor text = quote at quotes marked
    unfold lexeme?
    rcases quotes with rfl | rfl <;> simp [openParams?, marked]
  have lexed := @tokens_lexeme (quoteFor text) (escape (quoteFor text) text ++ [quoteFor text]) [] .string
    offset solid (by rw [List.append_nil, found, List.length_append]; rfl) [] (tokens_nil _)
  rwa [List.append_nil] at lexed

/-! ### The end of a tag behind strings -/

/-- The cut with a text in front. -/
def Cut.prepend (text : Text) (cut : Cut) : Cut := { cut with inner := text ++ cut.inner }

/-- The search for a closer goes past a text, from the outside of strings to the outside of strings. -/
def Closer.Passes (closer : Closer) (text : Text) : Prop :=
  ∀ rest, closer.cutQuoted? .outside (text ++ rest) =
    (closer.cutQuoted? .outside rest).map (Cut.prepend text)

theorem Cut.map_prepend (text : Text) (found : Option Cut) (c : Char) :
    (found.map (Cut.prepend text)).map (Cut.cons c) = found.map (Cut.prepend (c :: text)) := by
  cases found <;> rfl

theorem Closer.Passes.nil (closer : Closer) : closer.Passes [] := by
  intro rest
  rw [List.nil_append]
  cases closer.cutQuoted? .outside rest <;> rfl

theorem Closer.Passes.append {closer : Closer} {first second : Text} (h : closer.Passes first)
    (h' : closer.Passes second) : closer.Passes (first ++ second) := by
  intro rest
  rw [List.append_assoc, h, h' rest]
  cases closer.cutQuoted? .outside rest with
  | none => rfl
  | some cut => simp [Cut.prepend]

/-- The closers of tags with expressions. -/
structure Closer.Bare (closer : Closer) : Prop where
  lead : closer.lead = []
  filled : 0 < closer.braces

theorem Closer.Bare.match?_none {closer : Closer} (h : closer.Bare) {c : Char} (notBrace : c ≠ '}')
    (notTilde : c ≠ '~') (rest : Text) : closer.match? (c :: rest) = none := by
  obtain ⟨more, braces⟩ := Nat.exists_eq_add_of_lt h.filled
  unfold Closer.match?
  rw [h.lead, braces]
  simp [Text.startsWith, List.isPrefixOf, List.replicate_succ, Ne.symm notBrace, Ne.symm notTilde]

/-- A character that neither starts a string nor ends a tag. -/
def isPlain (c : Char) : Bool := !(['"', '\'', '}', '~'].contains c)

theorem isPlain_nameChar {c : Char} (h : isNameChar c = true) : isPlain c = true := by
  simp [isPlain, nameChar_ne h (show isNameChar '"' = false by decide),
    nameChar_ne h (show isNameChar '\'' = false by decide),
    nameChar_ne h (show isNameChar '}' = false by decide),
    nameChar_ne h (show isNameChar '~' = false by decide)]

theorem Closer.Bare.passes_plain {closer : Closer} (h : closer.Bare) {text : Text}
    (plain : ∀ c ∈ text, isPlain c = true) : closer.Passes text := by
  induction text with
  | nil => exact .nil closer
  | cons c text ih =>
    intro rest
    have isPlain := plain c List.mem_cons_self
    simp only [Template.isPlain, List.contains_eq_mem, List.mem_cons, List.not_mem_nil, or_false,
      Bool.not_eq_true', decide_eq_false_iff_not, not_or] at isPlain
    obtain ⟨notDouble, notSingle, notBrace, notTilde⟩ := isPlain
    rw [List.cons_append, Closer.cutQuoted?, if_neg (not_or.mpr ⟨notDouble, notSingle⟩),
      h.match?_none notBrace notTilde, ih (fun d member => plain d (List.mem_cons_of_mem _ member)),
      Cut.map_prepend]

/-- The number of backslashes that a text ends in. -/
def slashes (text : Text) : Nat := (text.rtakeWhile (· = '\\')).length

@[simp] theorem slashes_nil : slashes [] = 0 := rfl

@[simp] theorem slashes_slash (text : Text) : slashes (text ++ ['\\']) = slashes text + 1 := by
  unfold slashes
  rw [List.rtakeWhile_concat_pos _ _ _ (by simp), List.length_append, List.length_singleton]

theorem slashes_other {c : Char} (other : c ≠ '\\') (text : Text) : slashes (text ++ [c]) = 0 := by
  unfold slashes
  rw [List.rtakeWhile_concat_neg _ _ _ (by simpa using other), List.length_nil]

theorem slashes_plain {text : Text} (plain : '\\' ∉ text) : slashes text = 0 := by
  induction text using List.reverseRecOn with
  | nil => rfl
  | append_singleton text c =>
    refine slashes_other ?_ text
    rintro rfl
    exact plain (by simp)

/-- A text that does not get out of its quotes: its last backslash shields no quote, and no backslash
of its own is in the way of one that is put in front of a quote. -/
structure Wrappable (text : Text) : Prop where
  last : Even (slashes text)
  marks : '"' ∈ text → '\'' ∈ text → ∀ n < text.length, text[n]? = some '"' → Even (slashes (text.take n))

instance {text : Text} : Decidable (Wrappable text) :=
  decidable_of_iff
    (Even (slashes text) ∧ ('"' ∈ text → '\'' ∈ text →
      ∀ n < text.length, text[n]? = some '"' → Even (slashes (text.take n))))
    ⟨fun ⟨last, marks⟩ => ⟨last, marks⟩, fun h => ⟨h.last, h.marks⟩⟩

theorem Wrappable.of_plain {text : Text} (plain : '\\' ∉ text) : Wrappable text where
  last := by simp [slashes_plain plain]
  marks := fun _ _ n _ _ => by
    rw [slashes_plain fun member => plain (List.mem_of_mem_take member)]
    exact Even.zero

/-- The quote of a text stands behind an even number of backslashes wherever it occurs in it. -/
theorem Wrappable.quote {before after text : Text} (h : Wrappable text)
    (whole : text = before ++ quoteFor text :: after) : Even (slashes before) := by
  have member : quoteFor text ∈ before ++ quoteFor text :: after := by simp
  rw [← whole] at member
  unfold quoteFor at whole member
  split at whole
  · next single =>
    rw [if_pos single] at member
    simp [member] at single
  · next notSingle =>
    rw [if_neg notSingle] at member
    have both : '\'' ∈ text := by simpa [member] using notSingle
    have even := h.marks member both before.length (by rw [whole]; simp) (by rw [whole]; simp)
    rwa [whole, List.take_left'] at even
    rfl

/-- Where the search for a closer stands in a string, behind the part of it that was seen. -/
def quotingBehind (quote : Char) (seen : Text) : Quoting :=
  if Even (slashes seen) then .inside quote else .escaped quote

theorem cutQuoted?_escape {closer : Closer} {quote : Char} {seen text : Text} (notEscape : quote ≠ '\\')
    (last : Even (slashes (seen ++ text)))
    (marks : ∀ before after, text = before ++ quote :: after → Even (slashes (seen ++ before)))
    (rest : Text) :
    closer.cutQuoted? (quotingBehind quote seen) (escape quote text ++ quote :: rest) =
      (closer.cutQuoted? .outside rest).map (Cut.prepend (escape quote text ++ [quote])) := by
  induction text generalizing seen with
  | nil =>
    rw [List.append_nil] at last
    simp only [quotingBehind, if_pos last, escape, List.flatMap_nil, List.nil_append, Closer.cutQuoted?,
      if_true]
    rfl
  | cons c text ih =>
    have ih := @ih (seen ++ [c]) (by simpa using last) (fun before after whole => by
      simpa using marks (c :: before) after (by rw [whole]; rfl))
    rw [escape_cons]
    by_cases same : c = quote
    · subst same
      have even : Even (slashes seen) := by simpa using marks [] text rfl
      rw [quotingBehind, if_pos (by simp [slashes_other notEscape])] at ih
      simp only [quotingBehind, if_pos even, if_true, List.cons_append, List.nil_append, Closer.cutQuoted?,
        if_neg (Ne.symm notEscape), ih, Cut.map_prepend]
    · -- A backslash changes whether the next character is shielded, any other ends the shielding.
      have next : closer.cutQuoted? (quotingBehind quote seen) (c :: (escape quote text ++ quote :: rest)) =
          (closer.cutQuoted? (quotingBehind quote (seen ++ [c])) (escape quote text ++ quote :: rest)).map
            (Cut.cons c) := by
        by_cases slash : c = '\\'
        · subst slash
          by_cases even : Even (slashes seen) <;>
            simp [quotingBehind, even, Nat.even_add_one, Closer.cutQuoted?, same]
        · by_cases even : Even (slashes seen) <;>
            simp [quotingBehind, even, slashes_other slash, Closer.cutQuoted?, same, slash]
      rw [if_neg same, List.singleton_append, List.cons_append, next, ih, Cut.map_prepend, List.cons_append]

theorem Closer.passes_quoted (closer : Closer) {text : Text} (h : Wrappable text) :
    closer.Passes (quoted text) := by
  intro rest
  have passed := @cutQuoted?_escape closer (quoteFor text) [] text (quoteFor_ne text) (by simpa using h.last)
    (fun before after whole => by simpa using h.quote whole) rest
  rw [quotingBehind, if_pos (by simp)] at passed
  unfold quoted
  rw [List.cons_append, Closer.cutQuoted?, if_pos (quoteFor_cases text), List.append_assoc,
    List.singleton_append, passed, Cut.map_prepend]

theorem Closer.Bare.head {closer : Closer} (h : closer.Bare) {closing : Text}
    (isClosing : closer.Closing closing) : ∃ c more, closing = c :: more ∧ (c = '}' ∨ c = '~') := by
  obtain ⟨count, braces⟩ := Nat.exists_eq_add_of_lt h.filled
  unfold Closer.Closing at isClosing
  rw [h.lead, braces, Nat.zero_add, List.replicate_succ, List.nil_append, List.nil_append] at isClosing
  rcases isClosing with same | same
  · exact ⟨_, _, same, .inl rfl⟩
  · exact ⟨_, _, same, .inr rfl⟩

theorem Closer.Passes.cut {closer : Closer} {inner closing : Text} (h : closer.Passes inner)
    (bare : closer.Bare) (isClosing : closer.Closing closing) (rest : Text) :
    closer.cutQuoted? .outside (inner ++ (closing ++ rest)) = some ⟨inner, closing, rest⟩ := by
  have matched := isClosing.match? bare.filled rest
  obtain ⟨c, more, same, isMark⟩ := bare.head isClosing
  have notQuote : ¬(c = '"' ∨ c = '\'') := by rcases isMark with rfl | rfl <;> decide
  rw [h, same, List.cons_append, Closer.cutQuoted?, if_neg notQuote, ← List.cons_append, ← same, matched]
  simp [Cut.prepend]

theorem tagCloser_bare : tagCloser.Bare := ⟨rfl, by decide⟩

/-! ### Tags with a call -/

/-- A text that starts as a path does. -/
def StartsPath (inner : Text) : Prop :=
  ∃ c more, inner = c :: more ∧ (isNameChar c = true ∨ c = '@' ∨ c = '.')

theorem StartsPath.ne {inner : Text} {c d : Char} {more : Text} (h : StartsPath inner)
    (same : inner = c :: more) (notName : isNameChar d = false) (notData : d ≠ '@') (notUp : d ≠ '.') :
    c ≠ d := by
  obtain ⟨c', more', same', isHead⟩ := h
  obtain ⟨rfl, -⟩ := List.cons.inj (same.symm.trans same')
  rintro rfl
  rcases isHead with isName | rfl | rfl
  · simp [isName] at notName
  · exact notData rfl
  · exact notUp rfl

/-- The inner text of a tag that no reader takes for another kind of tag. -/
structure StartsCall (inner : Text) : Prop where
  path : StartsPath inner
  notElse : ∀ rest, splitElse? (inner ++ '}' :: rest) = none

theorem startsCall_word {word more : Text} (filled : word ≠ []) (chars : ∀ c ∈ word, isNameChar c = true)
    (notElse : word ≠ elseWord) (ended : endsName (more ++ ['}']) = true) : StartsCall (word ++ more) := by
  obtain ⟨c, word', rfl⟩ := List.exists_cons_of_ne_nil filled
  have isName := chars c List.mem_cons_self
  refine ⟨⟨c, word' ++ more, rfl, .inl isName⟩, fun rest => ?_⟩
  have ended' : endsName (more ++ '}' :: rest) = true := by
    cases more with
    | nil => rfl
    | cons d more => exact ended
  have solid : (c :: word' ++ more ++ '}' :: rest).dropWhile Text.isBlank =
      c :: word' ++ (more ++ '}' :: rest) := by
    simp [isNameChar_blank isName]
  rw [splitElse?_eq, solid, if_neg]
  rintro ⟨starts, ends⟩
  obtain ⟨behind, same⟩ := startsWith_name (List.all_eq_true.mp (by decide)) ended' starts
  rw [same] at ends chars notElse
  cases behind with
  | nil => exact notElse (List.append_nil _)
  | cons d behind =>
    have isChar := chars d (by simp)
    have cut : (elseWord ++ d :: behind ++ (more ++ '}' :: rest)).drop 4 =
        d :: (behind ++ (more ++ '}' :: rest)) := rfl
    rw [cut] at ends
    simp [endsElse, isNameChar_blank isChar, tagCloser_bare.match?_none
      (nameChar_ne isChar (by decide)) (nameChar_ne isChar (by decide))] at ends

theorem startsCall_name {name more : Text} (h : IsName name) (ended : endsName (more ++ ['}']) = true) :
    StartsCall (name ++ more) :=
  startsCall_word h.filled h.chars (fun same => h.notKeyword (by rw [same]; decide)) ended

theorem sigil_plain {c : Char} (plain : c ∉ ['#', '^', '/', '>', '*', '&']) (text : Text) :
    sigil (c :: text) = (.mustache, [], c :: text) := by
  unfold sigil
  split <;> simp_all

theorem readBefore_mustache {inner : Text} (starts : StartsCall inner) (passes : tagCloser.Passes inner)
    (rest : Text) : ReadBefore rest (.tag ⟨.mustache, ['{', '{'], inner, ['}', '}']⟩) := by
  have cut := passes.cut tagCloser_bare (.inl rfl : tagCloser.Closing ['}', '}']) rest
  have notElse := starts.notElse ('}' :: rest)
  obtain ⟨c, more, same, -⟩ := starts.path
  have head {d : Char} := @StartsPath.ne _ c d more starts.path same
  have plain : c ∉ ['#', '^', '/', '>', '*', '&'] := by
    simp only [List.mem_cons, List.not_mem_nil, or_false, not_or]
    exact ⟨head (by decide) (by decide) (by decide), head (by decide) (by decide) (by decide),
      head (by decide) (by decide) (by decide), head (by decide) (by decide) (by decide),
      head (by decide) (by decide) (by decide), head (by decide) (by decide) (by decide)⟩
  have whole : inner ++ (['}', '}'] ++ rest) = c :: (more ++ (['}', '}'] ++ rest)) := by
    rw [same, List.cons_append]
  have notRaw : ∀ rest', c :: (more ++ (['}', '}'] ++ rest)) ≠ '{' :: '{' :: rest' :=
    fun _ both => head (by decide) (by decide) (by decide) (List.cons.inj both).1
  have notTilde : ∀ rest', c :: (more ++ (['}', '}'] ++ rest)) ≠ '~' :: rest' :=
    fun _ both => head (by decide) (by decide) (by decide) (List.cons.inj both).1
  show readTag ((inner ++ ['}', '}']) ++ rest) = _
  rw [List.append_assoc, whole, readTag_plain notRaw notTilde, readOpened_plain
    (head (by decide) (by decide) (by decide)) (head (by decide) (by decide) (by decide))
    (head (by decide) (by decide) (by decide))]
  unfold readPlainTag readExpressionTag
  rw [← whole]
  simp only [List.cons_append, List.nil_append] at notElse cut ⊢
  rw [notElse]
  simp only
  rw [same, List.cons_append, sigil_plain plain]
  simp only
  rw [← List.cons_append, ← same, cut]
  rfl

end Phrasebook.Template
