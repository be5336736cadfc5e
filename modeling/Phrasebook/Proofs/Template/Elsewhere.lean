import Phrasebook.Proofs.Template.Reading

/-!
Pieces wherever they stand. A tag is read to its closer, so it is read to the same tag in front of any
other text, and content without backslashes reaches up to the next two braces. Pieces that are each
read in front of the next are the pieces of their text.
-/

namespace Phrasebook.Template

/-! ### Closers -/

/-- The characters of a closer, with or without a tilde. -/
def Closer.Closing (closer : Closer) (closing : Text) : Prop :=
  closing = closer.lead ++ List.replicate closer.braces '}' ∨
    closing = closer.lead ++ '~' :: List.replicate closer.braces '}'

theorem startsWith_append {text part : Text} (long : part.length ≤ text.length) (more : Text) :
    Text.startsWith (text ++ more) part = Text.startsWith text part := by
  unfold Text.startsWith
  rw [Bool.eq_iff_iff, List.isPrefixOf_iff_prefix, List.isPrefixOf_iff_prefix]
  exact ⟨fun h => List.prefix_of_prefix_length_le h (List.prefix_append text more) long,
    fun h => h.trans (List.prefix_append text more)⟩

theorem startsWith_self_append (part more : Text) : Text.startsWith (part ++ more) part = true :=
  List.isPrefixOf_iff_prefix.mpr (List.prefix_append part more)

theorem Closer.match?_append (closer : Closer) {text : Text}
    (long : closer.lead.length + closer.braces < text.length) (more : Text) :
    closer.match? (text ++ more) = (closer.match? text).map fun cut => (cut.1, cut.2 ++ more) := by
  unfold Closer.match?
  simp only
  rw [startsWith_append (by simp; omega), startsWith_append (by simp; omega)]
  split
  · simp only [Option.map_some]
    rw [List.drop_append_of_le_length (by simp; omega)]
  · split
    · simp only [Option.map_some]
      rw [List.drop_append_of_le_length (by simp; omega)]
    · rfl

variable {closer : Closer} {closing : Text}

theorem Closer.Closing.length (h : closer.Closing closing) :
    closer.lead.length + closer.braces ≤ closing.length := by
  rcases h with rfl | rfl <;> simp

theorem Closer.Closing.exists_cons (h : closer.Closing closing) (filled : 0 < closer.braces) :
    ∃ c more, closing = c :: more := by
  have long := h.length
  refine List.exists_cons_of_ne_nil fun empty => ?_
  rw [empty, List.length_nil] at long
  omega

theorem Closer.Closing.of_match? {text rest : Text} (h : closer.match? text = some (closing, rest)) :
    closer.Closing closing := by
  unfold Closer.match? at h
  simp only at h
  split at h
  · obtain ⟨rfl, -⟩ := Prod.mk.inj (Option.some.inj h)
    exact .inr rfl
  · split at h
    · obtain ⟨rfl, -⟩ := Prod.mk.inj (Option.some.inj h)
      exact .inl rfl
    · simp at h

theorem Closer.Closing.match? (h : closer.Closing closing) (filled : 0 < closer.braces) (rest : Text) :
    closer.match? (closing ++ rest) = some (closing, rest) := by
  obtain ⟨more, braces⟩ := Nat.exists_eq_add_of_lt filled
  rw [Nat.zero_add] at braces
  unfold Closer.match?
  simp only
  rcases h with rfl | rfl
  · rw [startsWith_self_append, if_neg, if_pos rfl]
    · simp
    · intro starts
      obtain ⟨tail, same⟩ := List.isPrefixOf_iff_prefix.mp starts
      rw [braces, List.replicate_succ] at same
      simp at same
  · rw [startsWith_self_append, if_pos rfl]
    simp

theorem Closer.Closing.match?_append (h : closer.Closing closing) (filled : 0 < closer.braces)
    (before more : Text) :
    closer.match? (before ++ (closing ++ more)) =
      (closer.match? (before ++ closing)).map fun cut => (cut.1, cut.2 ++ more) := by
  rw [← List.append_assoc]
  cases before with
  | nil =>
    have alone := h.match? filled []
    rw [List.append_nil] at alone
    rw [List.nil_append, h.match? filled more, alone]
    rfl
  | cons c before =>
    have := h.length
    exact closer.match?_append (by simp only [List.length_append, List.length_cons]; omega) more

theorem Closer.Closing.match?_none (h : closer.Closing closing) (filled : 0 < closer.braces)
    {before rest : Text} (none : closer.match? (before ++ (closing ++ rest)) = none) (more : Text) :
    closer.match? (before ++ (closing ++ more)) = .none := by
  rw [h.match?_append filled] at none ⊢
  rw [Option.map_eq_none_iff.mp none]
  rfl

/-! ### Cuts -/

theorem Closer.cut?_closing {text : Text} {cut : Cut} (h : closer.cut? text = some cut) :
    closer.Closing cut.closing := by
  induction text generalizing cut with
  | nil => simp [Closer.cut?] at h
  | cons c rest ih =>
    unfold Closer.cut? at h
    split at h
    · next matched =>
      obtain rfl := Option.some.inj h
      exact .of_match? matched
    · obtain ⟨shorter, found, rfl⟩ := Option.map_eq_some_iff.mp h
      have closing := ih found
      exact closing

theorem Closer.cutQuoted?_closing {quoting : Quoting} {text : Text} {cut : Cut}
    (h : closer.cutQuoted? quoting text = some cut) : closer.Closing cut.closing := by
  induction text generalizing quoting cut with
  | nil => simp [Closer.cutQuoted?] at h
  | cons c rest ih =>
    have step {next : Quoting} (h : (closer.cutQuoted? next rest).map (Cut.cons c) = some cut) :
        closer.Closing cut.closing := by
      obtain ⟨shorter, found, rfl⟩ := Option.map_eq_some_iff.mp h
      have closing := ih found
      exact closing
    cases quoting with
    | outside =>
      unfold Closer.cutQuoted? at h
      split at h
      · exact step h
      · split at h
        · next matched =>
          obtain rfl := Option.some.inj h
          exact .of_match? matched
        · exact step h
    | inside quote => exact step h
    | escaped quote => exact step h

theorem Closer.cut?_here (h : closer.Closing closing) (filled : 0 < closer.braces) (rest : Text) :
    closer.cut? (closing ++ rest) = some ⟨[], closing, rest⟩ := by
  have matched := h.match? filled rest
  obtain ⟨c, more, rfl⟩ := h.exists_cons filled
  rw [List.cons_append] at matched ⊢
  rw [Closer.cut?, matched]

theorem Closer.cut?_elsewhere (filled : 0 < closer.braces) {text : Text} {cut : Cut}
    (h : closer.cut? text = some cut) (rest : Text) :
    closer.cut? (cut.inner ++ (cut.closing ++ rest)) = some ⟨cut.inner, cut.closing, rest⟩ := by
  induction text generalizing cut with
  | nil => simp [Closer.cut?] at h
  | cons c text ih =>
    have closing := closer.cut?_closing h
    have whole := Closer.append_of_cut? h
    unfold Closer.cut? at h
    split at h
    · obtain rfl := Option.some.inj h
      exact cut?_here closing filled rest
    · next noMatch =>
      obtain ⟨shorter, found, rfl⟩ := Option.map_eq_some_iff.mp h
      simp only [Cut.cons] at closing whole ⊢
      rw [← whole, List.append_assoc] at noMatch
      have stillNone := closing.match?_none filled noMatch rest
      rw [List.cons_append] at stillNone ⊢
      rw [Closer.cut?, stillNone, ih found]
      rfl

theorem Closer.cutQuoted?_elsewhere (filled : 0 < closer.braces) {quoting : Quoting} {text : Text}
    {cut : Cut} (h : closer.cutQuoted? quoting text = some cut) (rest : Text) :
    closer.cutQuoted? quoting (cut.inner ++ (cut.closing ++ rest)) =
      some ⟨cut.inner, cut.closing, rest⟩ := by
  induction text generalizing quoting cut with
  | nil => simp [Closer.cutQuoted?] at h
  | cons c text ih =>
    have closing := closer.cutQuoted?_closing h
    have whole := Closer.append_of_cutQuoted? h
    have step {next : Quoting} (h : (closer.cutQuoted? next text).map (Cut.cons c) = some cut) :
        ∃ shorter : Cut, cut = shorter.cons c ∧
          closer.cutQuoted? next (shorter.inner ++ (shorter.closing ++ rest)) =
            some ⟨shorter.inner, shorter.closing, rest⟩ := by
      obtain ⟨shorter, found, rfl⟩ := Option.map_eq_some_iff.mp h
      exact ⟨shorter, rfl, ih found⟩
    cases quoting with
    | outside =>
      unfold Closer.cutQuoted? at h
      split at h
      · next quote =>
        obtain ⟨shorter, rfl, found⟩ := step h
        simp only [Cut.cons, List.cons_append]
        rw [Closer.cutQuoted?, if_pos quote, found]
        rfl
      · next notQuote =>
        split at h
        · next closing' after matched =>
          obtain rfl := Option.some.inj h
          simp only at closing whole
          obtain ⟨d, more, rfl⟩ := closing.exists_cons filled
          obtain ⟨rfl, -⟩ := List.cons.inj whole
          have here := closing.match? filled rest
          rw [List.cons_append] at here
          simp only [List.nil_append, List.cons_append]
          rw [Closer.cutQuoted?, if_neg notQuote, here]
        · next noMatch =>
          obtain ⟨shorter, rfl, found⟩ := step h
          simp only [Cut.cons] at closing whole ⊢
          rw [← whole, List.append_assoc] at noMatch
          have stillNone := closing.match?_none filled noMatch rest
          rw [List.cons_append] at stillNone ⊢
          rw [Closer.cutQuoted?, if_neg notQuote, stillNone, found]
          rfl
    | inside quote =>
      obtain ⟨shorter, rfl, found⟩ := step h
      simp only [Cut.cons, List.cons_append]
      rw [Closer.cutQuoted?, found]
      rfl
    | escaped quote =>
      obtain ⟨shorter, rfl, found⟩ := step h
      simp only [Cut.cons, List.cons_append]
      rw [Closer.cutQuoted?, found]
      rfl

/-! ### Tags -/

theorem readComment_elsewhere {opening text : Text} {read : TagRead} (filled : 0 < closer.braces)
    (h : readComment closer opening text = .ok read) (rest : Text) :
    read.tag.opening = opening ∧ closer.Closing read.tag.closing ∧
      readComment closer opening (read.tag.inner ++ (read.tag.closing ++ rest)) =
        .ok ⟨read.tag, rest⟩ := by
  unfold readComment at h
  split at h
  · next found =>
    obtain rfl := Except.ok.inj h
    refine ⟨rfl, Closer.cut?_closing found, ?_⟩
    unfold readComment
    simp only [Cut.toTag, Closer.cut?_elsewhere filled found rest]
  · simp at h

theorem readExpressionTag_elsewhere {kind : TagKind} {opening text : Text} {read : TagRead}
    (filled : 0 < closer.braces) (h : readExpressionTag kind closer opening text = .ok read)
    (rest : Text) :
    read.tag.opening = opening ∧ closer.Closing read.tag.closing ∧
      readExpressionTag kind closer opening (read.tag.inner ++ (read.tag.closing ++ rest)) =
        .ok ⟨read.tag, rest⟩ := by
  unfold readExpressionTag at h
  split at h
  · next found =>
    obtain rfl := Except.ok.inj h
    refine ⟨rfl, Closer.cutQuoted?_closing found, ?_⟩
    unfold readExpressionTag
    simp only [Cut.toTag, Closer.cutQuoted?_elsewhere filled found rest]
  · simp at h

/-- The end of a tag does not start with a blank or a letter. -/
theorem tagCloser_head (h : tagCloser.Closing closing) :
    ∃ c more, closing = c :: more ∧ (c = '}' ∨ c = '~') ∧ 1 ≤ more.length := by
  rcases h with rfl | rfl
  · exact ⟨'}', ['}'], rfl, .inl rfl, by decide⟩
  · exact ⟨'~', ['}', '}'], rfl, .inr rfl, by decide⟩

theorem dropWhile_append_solid {solid : Char} (h : Text.isBlank solid = false) (before rest : Text) :
    (before ++ solid :: rest).dropWhile Text.isBlank =
        before.dropWhile Text.isBlank ++ solid :: rest ∧
      (before ++ solid :: rest).takeWhile Text.isBlank = before.takeWhile Text.isBlank := by
  induction before with
  | nil => simp [h]
  | cons c before ih =>
    by_cases blank : Text.isBlank c
    · simp [blank, ih]
    · simp [blank]

/-- A word without the given character is not found any further once that character comes. -/
theorem startsWith_append_stop {word : Text} {c : Char} (absent : c ∉ word) (before rest : Text) :
    Text.startsWith (before ++ c :: rest) word = Text.startsWith before word := by
  unfold Text.startsWith
  induction word generalizing before with
  | nil => simp
  | cons d word ih =>
    obtain ⟨different, later⟩ := not_or.mp (fun h => absent (List.mem_cons.mpr h))
    cases before with
    | nil => simp [List.isPrefixOf, Ne.symm different]
    | cons b before => simp [List.isPrefixOf, ih later]

/-- The word of an else tag. -/
def elseWord : Text := ['e', 'l', 's', 'e']

theorem splitElse?_eq (text : Text) : splitElse? text =
    if Text.startsWith (text.dropWhile Text.isBlank) elseWord ∧
        endsElse ((text.dropWhile Text.isBlank).drop 4) then
      some (text.takeWhile Text.isBlank ++ elseWord, (text.dropWhile Text.isBlank).drop 4)
    else none := by
  unfold splitElse?
  simp only
  split
  · next rest found =>
    simp [found, elseWord, Text.startsWith]
  · next other =>
    rw [if_neg]
    rintro ⟨starts, -⟩
    obtain ⟨rest, same⟩ := List.isPrefixOf_iff_prefix.mp starts
    exact other rest same.symm

theorem endsElse_append (h : tagCloser.Closing closing) (before more : Text) :
    endsElse (before ++ (closing ++ more)) = endsElse (before ++ closing) := by
  have matched := h.match?_append (by decide) before more
  have unfolded (text : Text) (filled : text ≠ []) : endsElse text =
      (Text.isBlank (text.headD ' ') || (tagCloser.match? text).isSome) := by
    cases text with
    | nil => exact absurd rfl filled
    | cons c text => rfl
  obtain ⟨c, closing, rfl, -⟩ := tagCloser_head h
  rw [unfolded _ (by simp), unfolded _ (by simp), matched, Option.isSome_map]
  cases before <;> rfl

theorem splitElse?_append (h : tagCloser.Closing closing) (before more : Text) :
    splitElse? (before ++ (closing ++ more)) =
      (splitElse? (before ++ closing)).map fun split => (split.1, split.2 ++ more) := by
  obtain ⟨c, tail, same, isMark, -⟩ := tagCloser_head h
  have solid : Text.isBlank c = false := by rcases isMark with rfl | rfl <;> decide
  have absent : c ∉ elseWord := by rcases isMark with rfl | rfl <;> decide
  obtain ⟨dropped, taken⟩ := dropWhile_append_solid solid before (tail ++ more)
  obtain ⟨dropped', taken'⟩ := dropWhile_append_solid solid before tail
  rw [← List.cons_append, ← same] at dropped taken
  rw [← same] at dropped' taken'
  rw [splitElse?_eq, splitElse?_eq, dropped, dropped', taken, taken']
  generalize before.dropWhile Text.isBlank = word
  rw [same, List.cons_append, startsWith_append_stop absent, startsWith_append_stop absent]
  by_cases starts : Text.startsWith word elseWord
  · obtain ⟨rest, rfl⟩ := List.isPrefixOf_iff_prefix.mp starts
    have cut (text : Text) : (elseWord ++ rest ++ text).drop 4 = rest ++ text := rfl
    rw [← List.cons_append, ← same, cut, cut, endsElse_append h]
    split
    · simp
    · rfl
  · simp [starts]

theorem splitInverse?_append (h : tagCloser.Closing closing) (before more : Text) :
    splitInverse? (before ++ (closing ++ more)) =
      (splitInverse? (before ++ closing)).map fun split => (split.1, split.2 ++ more) := by
  obtain ⟨c, tail, same, isMark, -⟩ := tagCloser_head h
  have solid : Text.isBlank c = false := by rcases isMark with rfl | rfl <;> decide
  obtain ⟨dropped, taken⟩ := dropWhile_append_solid solid before (tail ++ more)
  obtain ⟨dropped', taken'⟩ := dropWhile_append_solid solid before tail
  rw [← List.cons_append, ← same] at dropped taken
  rw [← same] at dropped' taken'
  unfold splitInverse?
  rw [dropped, dropped', taken, taken', h.match?_append (by decide)]
  cases tagCloser.match? (before.dropWhile Text.isBlank ++ closing) <;> rfl

theorem exists_two {text : Text} (two : 2 ≤ text.length) :
    ∃ first second rest, text = first :: second :: rest :=
  match text, two with
  | first :: second :: rest, _ => ⟨first, second, rest, rfl⟩

theorem sigil_before {text : Text} (two : 2 ≤ text.length) (more : Text) :
    sigil (text ++ more) = ((sigil text).1, (sigil text).2.1, (sigil text).2.2 ++ more) := by
  obtain ⟨first, second, rest, rfl⟩ := exists_two two
  simp only [List.cons_append]
  by_cases hash : first = '#'
  · subst hash
    by_cases isPartial : second = '>'
    · subst isPartial
      rfl
    · by_cases isDecorator : second = '*'
      · subst isDecorator
        rfl
      · simp [sigil, isPartial, isDecorator]
  · unfold sigil
    split <;> simp_all

/-- A tag behind its opening, in front of any other text: `sign` are the characters of its opening that
announce its kind. -/
def ReadsElsewhere (reader : Text → Text → Except Cause TagRead) (opening : Text) (tag : Tag) : Prop :=
  ∃ sign, tag.opening = opening ++ sign ∧ tagCloser.Closing tag.closing ∧
    ∀ rest, reader opening (sign ++ (tag.inner ++ (tag.closing ++ rest))) = .ok ⟨tag, rest⟩

theorem readPlainTag_elsewhere {opening text : Text} {read : TagRead}
    (h : readPlainTag opening text = .ok read) : ReadsElsewhere readPlainTag opening read.tag := by
  have whole := readPlainTag_append h
  -- Whatever announces the kind of the tag, the text goes on with the rest of the tag.
  have parts {sign : Text} (opened : read.tag.opening = opening ++ sign) :
      text = (sign ++ read.tag.inner) ++ (read.tag.closing ++ read.rest) := by
    rw [Tag.text, opened, List.append_assoc, List.append_assoc, List.append_assoc] at whole
    rw [← List.append_cancel_left whole]
    simp
  unfold readPlainTag at h
  split at h
  · next word behind split =>
    have elsewhere := readExpressionTag_elsewhere (by decide) h
    obtain ⟨opened, closing, -⟩ := elsewhere []
    have text := parts opened
    have followed := append_of_splitElse? split
    rw [text, List.append_assoc] at followed
    have behindIs := List.append_cancel_left followed
    rw [text, splitElse?_append closing] at split
    obtain ⟨⟨_, left⟩, found, same⟩ := Option.map_eq_some_iff.mp split
    simp only [Prod.mk.injEq] at same
    obtain ⟨rfl, reached⟩ := same
    rw [behindIs, ← List.append_assoc] at reached
    obtain rfl := List.append_cancel_right reached
    refine ⟨_, opened, closing, fun rest => ?_⟩
    rw [← List.append_assoc]
    unfold readPlainTag
    rw [splitElse?_append closing, found]
    simp only [Option.map_some, List.append_assoc]
    exact (elsewhere rest).2.2
  · next noElse =>
    have followed := sigil_append text
    rcases announced : sigil text with ⟨kind, sign, behind⟩
    rw [announced] at h followed
    simp only at h followed
    have elsewhere := readExpressionTag_elsewhere (by decide) h
    obtain ⟨opened, closing, -⟩ := elsewhere []
    have text := parts opened
    obtain ⟨c, more, same, -, long⟩ := tagCloser_head closing
    have two : 2 ≤ (sign ++ read.tag.inner ++ read.tag.closing).length := by
      simp only [List.length_append, same, List.length_cons]
      omega
    rw [text, List.append_assoc] at followed
    have behindIs := List.append_cancel_left followed
    rw [text, ← List.append_assoc, sigil_before two, Prod.mk.injEq, Prod.mk.injEq, behindIs,
      ← List.append_assoc] at announced
    obtain ⟨isKind, isSign, reached⟩ := announced
    have left := List.append_cancel_right reached
    rw [text, splitElse?_append closing] at noElse
    have plain := Option.map_eq_none_iff.mp noElse
    refine ⟨sign, opened, closing, fun rest => ?_⟩
    unfold readPlainTag
    rw [← List.append_assoc, splitElse?_append closing, plain, ← List.append_assoc, sigil_before two]
    simp only [Option.map_none, isKind, isSign, left]
    rw [List.append_assoc]
    exact (elsewhere rest).2.2

theorem splitInverse?_elsewhere {text after : Text} (h : splitInverse? text = some (closing, after)) :
    2 ≤ closing.length ∧ ∀ rest, splitInverse? (closing ++ rest) = some (closing, rest) := by
  have unfolded := h
  unfold splitInverse? at unfolded
  split at unfolded
  · next bare left matched =>
    have isClosing := Closer.Closing.of_match? matched
    obtain ⟨rfl, rfl⟩ := Prod.mk.inj (Option.some.inj unfolded)
    have whole : text = text.takeWhile Text.isBlank ++ (bare ++ left) := by
      rw [Closer.append_of_match? matched, List.takeWhile_append_dropWhile]
    rw [whole, splitInverse?_append isClosing, ← whole] at h
    obtain ⟨⟨_, nothing⟩, found, same⟩ := Option.map_eq_some_iff.mp h
    simp only [Prod.mk.injEq, List.append_left_eq_self] at same
    obtain ⟨rfl, rfl⟩ := same
    refine ⟨?_, fun rest => ?_⟩
    · have : 2 ≤ bare.length := isClosing.length
      simp only [List.length_append]
      omega
    · rw [List.append_assoc, splitInverse?_append isClosing, found]
      rfl
  · simp at unfolded

theorem starts_append {text : Text} (two : 2 ≤ text.length) {first second : Char} {more rest : Text}
    (h : text ++ more = first :: second :: rest) (other : Text) :
    ∃ rest, text ++ other = first :: second :: rest := by
  obtain ⟨one, next, behind, rfl⟩ := exists_two two
  simp only [List.cons_append, List.cons.injEq] at h ⊢
  exact ⟨behind ++ other, h.1, h.2.1, rfl⟩

theorem readOpened_bang {opening text : Text} (h : ∀ rest, text ≠ '-' :: '-' :: rest) :
    readOpened opening ('!' :: text) = readComment tagCloser (opening ++ ['!']) text := by
  unfold readOpened
  split <;> simp_all

theorem readOpened_plain {opening text : Text} {c : Char} (notComment : c ≠ '!') (notTriple : c ≠ '{')
    (notInverse : c ≠ '^') : readOpened opening (c :: text) = readPlainTag opening (c :: text) := by
  unfold readOpened
  split <;> simp_all

theorem readOpened_caret {opening text : Text} (h : splitInverse? text = none) :
    readOpened opening ('^' :: text) = readPlainTag opening ('^' :: text) := by
  unfold readOpened
  simp only [h]

/-- The characters of a tag behind its opening braces, its closing braces included, are at least two
and decide how any text that starts with them is read. -/
def ReadAlike (opening : Text) (tag : Tag) : Prop :=
  ∃ sign, tag.opening = opening ++ sign ∧ 2 ≤ (sign ++ tag.inner ++ tag.closing).length ∧
    ∀ rest, readOpened opening (sign ++ (tag.inner ++ (tag.closing ++ rest))) = .ok ⟨tag, rest⟩

section ReadAlike

variable {opening text : Text} {read : TagRead}

theorem parts_of_readOpened {sign : Text} (h : readOpened opening text = .ok read)
    (opened : read.tag.opening = opening ++ sign) :
    text = sign ++ (read.tag.inner ++ (read.tag.closing ++ read.rest)) := by
  have whole := readOpened_append h
  rw [Tag.text, opened, List.append_assoc, List.append_assoc, List.append_assoc] at whole
  exact (List.append_cancel_left whole).symm

theorem readAlike_bang (notDashes : ∀ rest, text ≠ '-' :: '-' :: rest)
    (h : readComment tagCloser (opening ++ ['!']) text = .ok read) : ReadAlike opening read.tag := by
  have elsewhere := readComment_elsewhere (by decide) h
  obtain ⟨opened, closing, -⟩ := elsewhere []
  have long : 2 ≤ read.tag.closing.length := closing.length
  have two : 2 ≤ (read.tag.inner ++ read.tag.closing).length := by
    simp only [List.length_append]
    omega
  rw [← readOpened_bang notDashes] at h
  have behindIs := (List.cons.inj (parts_of_readOpened h opened)).2
  refine ⟨['!'], opened, ?_, fun rest => ?_⟩
  · simp only [List.length_append]
    omega
  · have shown := (elsewhere rest).2.2
    rw [← List.append_assoc] at shown behindIs ⊢
    rw [List.append_assoc, List.singleton_append, readOpened_bang]
    · rw [← List.append_assoc]
      exact shown
    · intro tail same
      rw [← List.append_assoc] at same
      obtain ⟨tail', same'⟩ := starts_append two same read.rest
      exact notDashes tail' (behindIs.trans same')

theorem readAlike_inverse {closing after : Text} (split : splitInverse? text = some (closing, after)) :
    ReadAlike opening ⟨.stop .inverse, opening ++ ['^'], [], closing⟩ := by
  obtain ⟨long, here⟩ := splitInverse?_elsewhere split
  refine ⟨['^'], rfl, by simp only [List.length_append]; omega, fun rest => ?_⟩
  simp only [List.nil_append, List.singleton_append]
  unfold readOpened
  simp only [here rest]

theorem readAlike_caret (noInverse : splitInverse? text = none)
    (h : readPlainTag opening ('^' :: text) = .ok read) : ReadAlike opening read.tag := by
  obtain ⟨sign, opened, closing, here⟩ := readPlainTag_elsewhere h
  rw [← readOpened_caret noInverse] at h
  have parts := parts_of_readOpened h opened
  obtain ⟨c, more, isClosing, isMark, long⟩ := tagCloser_head closing
  refine ⟨sign, opened, ?_, fun rest => ?_⟩
  · simp only [List.length_append, isClosing, List.length_cons]
    omega
  · rw [← List.append_assoc] at parts ⊢
    cases front : sign ++ read.tag.inner with
    | nil =>
      rw [front, isClosing] at parts
      obtain rfl := (List.cons.inj parts).1
      rcases isMark with isMark | isMark <;> exact absurd isMark (by decide)
    | cons first front' =>
      rw [front, List.cons_append, List.cons.injEq] at parts
      obtain ⟨rfl, behindIs⟩ := parts
      rw [behindIs, splitInverse?_append closing, Option.map_eq_none_iff] at noInverse
      have stillNone : splitInverse? (front' ++ (read.tag.closing ++ rest)) = none := by
        rw [splitInverse?_append closing, noInverse, Option.map_none]
      rw [List.cons_append, readOpened_caret stillNone, ← List.cons_append, ← front, List.append_assoc]
      exact here rest

theorem readAlike_plain (notComment : ∀ rest, text ≠ '!' :: rest) (notTriple : ∀ rest, text ≠ '{' :: rest)
    (notInverse : ∀ rest, text ≠ '^' :: rest) (whole : readOpened opening text = .ok read)
    (h : readPlainTag opening text = .ok read) : ReadAlike opening read.tag := by
  obtain ⟨sign, opened, closing, here⟩ := readPlainTag_elsewhere h
  have parts := parts_of_readOpened whole opened
  have long : 2 ≤ read.tag.closing.length := closing.length
  have two : 2 ≤ (sign ++ read.tag.inner ++ read.tag.closing).length := by
    simp only [List.length_append]
    omega
  refine ⟨sign, opened, two, fun rest => ?_⟩
  obtain ⟨first, second, more, same⟩ := exists_two two
  have before (rest : Text) : sign ++ (read.tag.inner ++ (read.tag.closing ++ rest)) =
      first :: second :: (more ++ rest) := by
    rw [← List.cons_append, ← List.cons_append, ← same]
    simp
  have shown := here rest
  rw [before] at shown parts ⊢
  rw [readOpened_plain]
  · exact shown
  · rintro rfl
    exact notComment _ parts
  · rintro rfl
    exact notTriple _ parts
  · rintro rfl
    exact notInverse _ parts

/-- A tag is read alike from any text that starts with its characters. -/
theorem readOpened_elsewhere (h : readOpened opening text = .ok read) : ReadAlike opening read.tag := by
  have whole := h
  unfold readOpened at h
  split at h
  · have elsewhere := readComment_elsewhere (by decide) h
    exact ⟨_, (elsewhere []).1, by simp, fun rest => (elsewhere rest).2.2⟩
  · next notDashes => exact readAlike_bang notDashes h
  · have elsewhere := readExpressionTag_elsewhere (by decide) h
    obtain ⟨opened, closing, -⟩ := elsewhere []
    have long : 3 ≤ read.tag.closing.length := closing.length
    refine ⟨['{'], opened, ?_, fun rest => (elsewhere rest).2.2⟩
    simp only [List.length_append]
    omega
  · split at h
    · next split =>
      obtain rfl := Except.ok.inj h
      exact readAlike_inverse split
    · next noInverse => exact readAlike_caret noInverse h
  · next notDashes notComment notTriple notInverse =>
    exact readAlike_plain notComment notTriple notInverse whole h

end ReadAlike

theorem readTag_plain {text : Text} (notRaw : ∀ rest, text ≠ '{' :: '{' :: rest)
    (notTilde : ∀ rest, text ≠ '~' :: rest) : readTag text = readOpened ['{', '{'] text := by
  unfold readTag
  split
  · exact absurd rfl (notRaw _)
  · exact absurd rfl (notTilde _)
  · rfl

/-- A tag that is read in front of one text is read in front of any other. -/
theorem ReadBefore.elsewhere {tag : Tag} {rest : Text} (h : ReadBefore rest (.tag tag)) (other : Text) :
    ReadBefore other (.tag tag) := by
  have behind {opening sign : Text} (opened : tag.opening = opening ++ sign) (text : Text) :
      tag.text ++ text = opening ++ (sign ++ (tag.inner ++ (tag.closing ++ text))) := by
    simp [Tag.text, opened]
  have read : readTag ((tag.text ++ rest).drop 2) = .ok ⟨tag, rest⟩ := h
  show readTag ((tag.text ++ other).drop 2) = .ok ⟨tag, other⟩
  unfold readTag at read
  split at read
  · simp at read
  · obtain ⟨sign, opened, -, here⟩ := readOpened_elsewhere read
    rw [behind opened]
    exact here other
  · next notRaw notTilde =>
    obtain ⟨sign, opened, two, here⟩ := readOpened_elsewhere read
    rw [behind opened] at notRaw notTilde ⊢
    simp only [List.cons_append, List.nil_append, List.drop_succ_cons, List.drop_zero] at *
    rw [← List.append_assoc, ← List.append_assoc] at notRaw notTilde
    rw [readTag_plain]
    · exact here other
    · intro more same
      rw [← List.append_assoc, ← List.append_assoc] at same
      obtain ⟨more', same'⟩ := starts_append two same rest
      exact notRaw more' same'
    · intro more same
      obtain ⟨first, second, between, start⟩ := exists_two two
      rw [← List.append_assoc, ← List.append_assoc, start, List.cons_append, List.cons.injEq] at same
      refine notTilde (second :: (between ++ rest)) ?_
      rw [start, same.1]
      rfl

/-! ### Content without backslashes -/

theorem readContent_opened (rest : Text) :
    readContent ('{' :: '{' :: rest) = ⟨[], [], '{' :: '{' :: rest⟩ := by
  simp [readContent]

theorem readContent_cons {c : Char} {text : Text} (notEscape : c ≠ '\\')
    (notOpened : ∀ rest, c :: text ≠ '{' :: '{' :: rest) :
    readContent (c :: text) =
      ⟨c :: (readContent text).written, c :: (readContent text).value, (readContent text).rest⟩ := by
  rw [readContent.eq_def]
  split <;> simp_all

/-- Content may end in front of a text: the text is empty, or it opens a tag and the content does not
end in a brace. -/
def EndsBefore (content rest : Text) : Prop :=
  rest = [] ∨ content.getLast? ≠ some '{' ∧ ∃ more, rest = '{' :: '{' :: more

theorem EndsBefore.tail {c : Char} {content rest : Text} (h : EndsBefore (c :: content) rest) :
    EndsBefore content rest := by
  rcases h with ended | ⟨last, opened⟩
  · exact .inl ended
  · refine .inr ⟨fun brace => last ?_, opened⟩
    rw [List.getLast?_cons, brace]
    rfl

theorem readContent_plain {content rest : Text} (plain : '\\' ∉ content)
    (single : ¬['{', '{'] <:+: content) (next : EndsBefore content rest) :
    readContent (content ++ rest) = ⟨content, content, rest⟩ := by
  induction content with
  | nil =>
    rcases next with rfl | ⟨-, more, rfl⟩
    · rfl
    · exact readContent_opened more
  | cons c content ih =>
    obtain ⟨notEscape, later⟩ := not_or.mp (fun h => plain (List.mem_cons.mpr h))
    rw [List.infix_cons_iff, not_or] at single
    have notOpened : ∀ more, c :: (content ++ rest) ≠ '{' :: '{' :: more := by
      intro more same
      obtain ⟨rfl, behind⟩ := List.cons.inj same
      cases content with
      | nil =>
        rcases next with rfl | ⟨last, -⟩
        · simp at behind
        · exact last rfl
      | cons d content =>
        obtain rfl := (List.cons.inj behind).1
        exact single.1 ⟨content, rfl⟩
    rw [List.cons_append, readContent_cons (Ne.symm notEscape) notOpened, ih later single.2 next.tail]

theorem plain_of_readContent {written value rest : Text} (plain : '\\' ∉ written)
    (h : readContent (written ++ rest) = ⟨written, value, rest⟩) :
    value = written ∧ ¬['{', '{'] <:+: written ∧ EndsBefore written rest := by
  induction written generalizing value with
  | nil =>
    have nothing := readContent_rest rest
    rw [List.nil_append] at h
    rw [h] at nothing
    rcases nothing with rfl | ⟨more, rfl⟩
    · exact ⟨(ContentRead.mk.inj h).2.1.symm, by simp, .inl rfl⟩
    · rw [readContent_opened] at h
      exact ⟨(ContentRead.mk.inj h).2.1.symm, by simp, .inr ⟨by simp, more, rfl⟩⟩
  | cons c written ih =>
    obtain ⟨notEscape, later⟩ := not_or.mp (fun h => plain (List.mem_cons.mpr h))
    have notOpened : ∀ more, c :: (written ++ rest) ≠ '{' :: '{' :: more := by
      intro more same
      rw [List.cons_append, same, readContent_opened] at h
      simp at h
    rw [List.cons_append, readContent_cons (Ne.symm notEscape) notOpened] at h
    rcases inner : readContent (written ++ rest) with ⟨written', value', rest'⟩
    rw [inner] at h
    simp only [ContentRead.mk.injEq, List.cons.injEq, true_and] at h
    obtain ⟨rfl, rfl, rfl⟩ := h
    obtain ⟨rfl, single, next⟩ := ih later inner
    refine ⟨rfl, ?_, ?_⟩
    · rw [List.infix_cons_iff, not_or]
      refine ⟨fun ⟨more, same⟩ => ?_, single⟩
      rw [List.cons_append, List.cons.injEq] at same
      refine notOpened (more ++ rest') ?_
      rw [← same.1, ← same.2]
      rfl
    · rcases next with ended | ⟨last, more, opened⟩
      · exact .inl ended
      · refine .inr ⟨fun brace => ?_, more, opened⟩
        rw [List.getLast?_cons, Option.some.injEq] at brace
        cases end' : value'.getLast? with
        | none =>
          rw [end'] at brace
          rw [List.getLast?_eq_none_iff.mp end', List.nil_append, opened] at notOpened
          exact notOpened ('{' :: more) (by rw [show c = '{' from brace])
        | some d =>
          rw [end'] at brace last
          exact last (congrArg some brace)

/-! ### All pieces -/

/-- The pieces behind the content at the start of a text. -/
def piecesBehind : Text → Pieces
  | '{' :: '{' :: rest =>
    match readTag rest with
    | .ok next => (pieces next.rest).cons (.tag next.tag)
    | .error cause => ⟨[], some cause⟩
  | _ => ⟨[], none⟩

theorem pieces_eq (text : Text) : pieces text =
    if (readContent text).written.isEmpty then piecesBehind (readContent text).rest
    else (piecesBehind (readContent text).rest).cons
      (.content (readContent text).written (readContent text).value) := by
  obtain ⟨after, same, whole⟩ : ∃ after, after = piecesBehind (readContent text).rest ∧
      pieces text = if (readContent text).written.isEmpty then after
        else after.cons (.content (readContent text).written (readContent text).value) := by
    rw [pieces]
    refine ⟨_, ?_, rfl⟩
    split
    · next rest found =>
      rw [congrArg piecesBehind found, piecesBehind]
      split
      · next tagged => simp only [tagged]
      · next tagged => simp only [tagged]
    · next notOpened =>
      rcases readContent_rest text with ended | ⟨more, opened⟩
      · rw [congrArg piecesBehind ended]
        rfl
      · exact absurd opened (notOpened more)
  rw [whole, same]

theorem pieces_content {text : Text} (filled : (readContent text).written ≠ []) :
    pieces text = (pieces (readContent text).rest).cons
      (.content (readContent text).written (readContent text).value) := by
  have whole := readContent_written_append_rest (readContent text).rest
  have nothing := readContent_rest_written text
  rw [nothing, List.nil_append] at whole
  rw [pieces_eq text, pieces_eq (readContent text).rest, nothing, whole]
  simp [filled]

theorem textOf_append (first second : List Piece) :
    textOf (first ++ second) = textOf first ++ textOf second := by
  simp [textOf]

/-- Pieces that are each read in front of the next are the pieces of their text. -/
theorem pieces_textOf {list : List Piece} (turns : ReadInTurn list) :
    pieces (textOf list) = ⟨list, none⟩ := by
  induction list with
  | nil => rw [pieces_eq]; rfl
  | cons piece rest ih =>
    obtain ⟨read, turns⟩ := turns
    rw [textOf_cons]
    cases piece with
    | content written value =>
      obtain ⟨filled, read⟩ := read
      have content : (Piece.content written value).text = written := rfl
      rw [content, pieces_content (by rw [read]; exact filled), read]
      simp only
      rw [ih turns]
      rfl
    | tag tag =>
      have tagged : readTag ((tag.text ++ textOf rest).drop 2) = .ok ⟨tag, textOf rest⟩ := read
      have opened := readTag_append tagged
      have same : (Piece.tag tag).text = tag.text := rfl
      simp only at opened
      rw [same, pieces_eq, opened, readContent_opened]
      simp only [List.isEmpty_nil, if_true, piecesBehind, tagged, ih turns]
      rfl

end Phrasebook.Template
