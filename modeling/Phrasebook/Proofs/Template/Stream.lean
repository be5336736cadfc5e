import Phrasebook.Proofs.Template.Spelling

/-!
Where faults lie in a text. The tokens of a tag stand one behind the other inside of it, and a number that
is too long to be read is a run of digits of the text.
-/

namespace Phrasebook.Template

/-! ### Faults of a text -/

/-- A number ends before the rest of a text: neither a digit nor a point follows. -/
def EndsNumber (rest : Text) : Prop := ∀ c ∈ rest.head?, isDigit c = false ∧ c ≠ '.'

/-- A fault lies in a text: it shows at an offset of the text, or it is a run of too many digits, with no
point behind it. -/
inductive Founded (text : Text) : Fault → Prop where
  | malformed (cause : Cause) {offset : Nat} (inside : offset ≤ text.length) :
    Founded text (.malformed cause offset)
  | longInteger {before digits after : Text} (split : text = before ++ digits ++ after)
      (isDigits : ∀ c ∈ digits, isDigit c = true) (long : Text.maxDigits < digits.length)
      (ends : EndsNumber after) : Founded text (.longInteger digits.length)

theorem endsLiteral_number {rest more : Text} (h : endsLiteral rest = true) (ends : EndsNumber more) :
    EndsNumber (rest ++ more) := by
  cases rest with
  | nil => exact ends
  | cons c rest =>
    obtain ⟨notChar, notPoint⟩ := endsLiteral_head h
    intro other isHead
    obtain rfl : c = other := by simpa using isHead
    refine ⟨?_, notPoint⟩
    by_contra digit
    rw [Bool.not_eq_false] at digit
    rw [isDigit_nameChar digit] at notChar
    cases notChar

/-- The number at the start of a text is a sign and digits, if it has no point. -/
theorem number?_whole {text : Text} {length : Nat} (found : number? text = some length)
    (plain : '.' ∉ text.take length) :
    ∃ sign digits rest, text = sign ++ digits ++ rest ∧ text.take length = sign ++ digits ∧
      (sign = [] ∨ sign = ['-']) ∧ digits ≠ [] ∧ (∀ c ∈ digits, isDigit c = true) ∧
      endsLiteral rest = true := by
  unfold number? at found
  extract_lets sign whole fraction reach at found
  split at found
  · next holds =>
    obtain ⟨filled, ended⟩ := holds
    obtain rfl := Option.some.inj found
    have noFraction : fraction = 0 := by
      by_contra point
      have isReach : reach = sign + whole + (1 + fraction) := by
        unfold reach
        rw [if_neg point]
      have behind : ∃ rest, text.drop (sign + whole) = '.' :: rest := by
        unfold fraction at point
        split at point
        · next rest behind => exact ⟨rest, behind⟩
        · exact absurd rfl point
      obtain ⟨rest, behind⟩ := behind
      refine plain ?_
      rw [isReach, List.take_add, behind]
      simp [Nat.add_comm 1]
    have isReach : reach = sign + whole := by
      unfold reach
      rw [if_pos noFraction, Nat.add_zero]
    have isDigits : (text.drop sign).take whole = (text.drop sign).takeWhile isDigit :=
      List.prefix_iff_eq_take.mp (List.takeWhile_prefix isDigit) |>.symm
    refine ⟨text.take sign, (text.drop sign).take whole, text.drop reach, ?_, ?_, ?_, ?_, ?_, ended⟩
    · rw [isReach, ← List.take_add, List.take_append_drop]
    · rw [isReach, List.take_add]
    · unfold sign
      split
      · exact .inr rfl
      · exact .inl rfl
    · rw [isDigits]
      exact fun empty => filled (congrArg List.length empty)
    · rw [isDigits]
      exact fun c member => List.mem_takeWhile_imp member
  · cases found

theorem number?_pos {text : Text} {length : Nat} (found : number? text = some length) : 0 < length := by
  unfold number? at found
  extract_lets sign whole fraction reach at found
  split at found
  · next holds =>
    obtain rfl := Option.some.inj found
    have := holds.1
    unfold reach
    omega
  · cases found

/-- A number that is too long to be read is a run of digits. -/
theorem number?_founded {before text after : Text} {length : Nat} {fault : Fault}
    (found : number? text = some length) (failed : Number.read (text.take length) = .error fault)
    (ends : EndsNumber after) : Founded (before ++ text ++ after) fault := by
  unfold Number.read at failed
  extract_lets negative written whole at failed
  split at failed
  · cases failed
  · next noPoint =>
    split at failed
    · next long =>
      obtain rfl := Except.error.inj failed
      obtain ⟨sign, digits, rest, split, taken, isSign, filled, isDigits, ended⟩ :=
        number?_whole found (by simpa using noPoint)
      have same : written = digits := by
        unfold written negative
        rw [taken]
        rcases isSign with rfl | rfl
        · obtain ⟨c, others, rfl⟩ := List.exists_cons_of_ne_nil filled
          have notMinus : c ≠ '-' := by
            rintro rfl
            exact absurd (isDigits '-' List.mem_cons_self) (by decide)
          simp [notMinus]
        · simp
      rw [same] at long ⊢
      have whole : before ++ text ++ after = (before ++ sign) ++ digits ++ (rest ++ after) := by
        rw [split]
        simp only [List.append_assoc]
      exact .longInteger whole isDigits long (endsLiteral_number ended ends)
    · cases failed

theorem number?_of_lexeme? {c : Char} {rest : Text} {length : Nat}
    (found : lexeme? c rest = some (.number, length)) : number? (c :: rest) = some length := by
  unfold lexeme? at found
  simp only [Option.orElse_eq_orElse, Option.orElse_eq_or, Option.or_eq_some_iff, Option.map_eq_some_iff,
    Option.ite_none_right_eq_some, Option.some.injEq, Prod.mk.injEq, reduceCtorEq, false_and, and_false,
    exists_false, false_or, or_false, true_and, exists_eq_right] at found
  exact found.2.2.2.2.2.2.2

/-! ### Readings of a text -/

/-- A reading of a text comes to a good value, or to a fault that lies in the text. -/
inductive Lands {α : Type} (text : Text) (good : α → Prop) : Except Fault α → Prop where
  | ok {value : α} (h : good value) : Lands text good (.ok value)
  | fault {fault : Fault} (h : Founded text fault) : Lands text good (.error fault)

theorem Lands.bind {α β : Type} {text : Text} {good : α → Prop} {good' : β → Prop} {first : Except Fault α}
    {next : α → Except Fault β} (h : Lands text good first)
    (later : ∀ value, good value → Lands text good' (next value)) : Lands text good' (first >>= next) := by
  cases h with
  | ok h => exact later _ h
  | fault h => exact .fault h

theorem Lands.mono {α : Type} {text : Text} {good good' : α → Prop} {result : Except Fault α}
    (h : Lands text good result) (weaker : ∀ value, good value → good' value) : Lands text good' result := by
  cases h with
  | ok h => exact .ok (weaker _ h)
  | fault h => exact .fault h

/-! ### Tokens at their places -/

/-- A token stands at its place in a text, and if it is a literal that cannot be read, the fault lies in
the text. -/
structure Token.At (text : Text) (token : Token) : Prop where
  forward : token.extent.start < token.extent.stop
  bounded : token.extent.stop ≤ text.length
  literal : Lands text (fun _ => True) (readLiteral token)

theorem Token.At.inside {text : Text} {token : Token} (h : token.At text) : token.extent.start ≤ text.length :=
  Nat.le_of_lt (Nat.lt_of_lt_of_le h.forward h.bounded)

/-- Tokens stand at their places, one behind the other from an offset on. -/
def InOrder (text : Text) : Nat → List Token → Prop
  | _, [] => True
  | start, token :: rest => start ≤ token.extent.start ∧ token.At text ∧ InOrder text token.extent.stop rest

theorem InOrder.mono {text : Text} {start earlier : Nat} {tokens : List Token} (h : InOrder text start tokens)
    (le : earlier ≤ start) : InOrder text earlier tokens := by
  cases tokens with
  | nil => trivial
  | cons token rest => exact ⟨Nat.le_trans le h.1, h.2⟩

theorem token_at (before : Text) {rest after : Text} {c : Char} {kind : TokenKind} {length : Nat}
    (found : lexeme? c rest = some (kind, length)) (ends : EndsNumber after) :
    Token.At (before ++ (c :: rest) ++ after)
      ⟨kind, c :: rest.take (length - 1), ⟨before.length, before.length + 1 + (length - 1)⟩⟩ := by
  have reach := lexeme?_le found
  have inside : before.length + 1 + (length - 1) ≤ (before ++ (c :: rest) ++ after).length := by
    simp only [List.length_append, List.length_cons]
    omega
  refine ⟨by simp only; omega, inside, ?_⟩
  unfold readLiteral
  cases kind with
  | number =>
    have number := number?_of_lexeme? found
    have written : (c :: rest).take length = c :: rest.take (length - 1) := by
      obtain ⟨more, rfl⟩ := Nat.exists_eq_succ_of_ne_zero (Nat.pos_iff_ne_zero.mp (number?_pos number))
      rfl
    have read : Lands (before ++ (c :: rest) ++ after) (fun _ => True)
        (Number.read (c :: rest.take (length - 1))) := by
      cases read : Number.read (c :: rest.take (length - 1)) with
      | ok value => exact .ok trivial
      | error fault => exact .fault (number?_founded number (by rw [written, read]) ends)
    exact read.bind fun _ _ => .ok trivial
  | string | boolean | undefined | null => exact .ok trivial
  | _ => exact .fault (.malformed _ (by simp only; omega))

/-- The tokens of a part of a text stand in order, up to a fault. -/
theorem tokens_lands {text before inner after : Text} {offset : Nat} (split : text = before ++ inner ++ after)
    (here : before.length = offset) (ends : EndsNumber after) :
    Lands text (InOrder text offset) (tokens offset inner) := by
  induction size : inner.length using Nat.strongRecOn generalizing before inner offset with
  | ind size ih =>
    rw [tokens.eq_def]
    split
    · exact .ok trivial
    · next c rest =>
      simp only [List.length_cons] at size
      split
      · have shifted : text = (before ++ [c]) ++ rest ++ after := by simp [split]
        have next : (before ++ [c]).length = offset + 1 := by simp [here]
        have found := ih rest.length (by omega) shifted next rfl
        exact found.mono fun tokens inOrder => inOrder.mono (Nat.le_succ _)
      · split
        · refine .fault (.malformed _ ?_)
          rw [split]
          simp [here]
        · next kind length found =>
          have shifted : text = (before ++ c :: rest.take (length - 1)) ++ rest.drop (length - 1) ++ after := by
            simp [split]
          have reach := lexeme?_le found
          have next : (before ++ c :: rest.take (length - 1)).length = offset + 1 + (length - 1) := by
            simp only [List.length_append, List.length_cons, List.length_take]
            omega
          have first := token_at before found ends
          rw [here, ← split] at first
          refine (ih _ (by rw [List.length_drop]; omega) shifted next rfl).bind fun others inOrder => .ok ?_
          exact ⟨Nat.le_refl _, first, inOrder⟩

/-! ### The ends of tags -/

/-- A number ends before the characters that close a tag with an expression. -/
def Tag.EndsNumbers (tag : Tag) : Prop :=
  tag.kind ≠ .comment → tag.kind ≠ .stop .inverse → ∀ more, EndsNumber (tag.closing ++ more)

theorem Closer.Closing.endsNumber {closer : Closer} {closing : Text} (h : closer.Closing closing)
    (bare : closer.lead = []) (filled : 0 < closer.braces) (more : Text) : EndsNumber (closing ++ more) := by
  obtain ⟨braces, isBraces⟩ := Nat.exists_eq_succ_of_ne_zero (Nat.pos_iff_ne_zero.mp filled)
  intro c isHead
  rcases h with rfl | rfl
  · obtain rfl : '}' = c := by simpa [bare, isBraces, List.replicate_succ] using isHead
    decide
  · obtain rfl : '~' = c := by simpa [bare] using isHead
    decide

theorem readExpressionTag_endsNumbers {kind : TagKind} {closer : Closer} {opening text : Text} {read : TagRead}
    (h : readExpressionTag kind closer opening text = .ok read) (bare : closer.lead = [])
    (filled : 0 < closer.braces) : read.tag.EndsNumbers := by
  unfold readExpressionTag at h
  split at h
  · next cut found =>
    obtain rfl := Except.ok.inj h
    exact fun _ _ => (Closer.cutQuoted?_closing found).endsNumber bare filled
  · cases h

theorem readOpened_endsNumbers {opening text : Text} {read : TagRead} (h : readOpened opening text = .ok read) :
    read.tag.EndsNumbers := by
  have comment {closer : Closer} {opening text : Text} (h : readComment closer opening text = .ok read) :
      read.tag.EndsNumbers := by
    unfold readComment at h
    split at h
    · obtain rfl := Except.ok.inj h
      exact fun notComment => absurd rfl notComment
    · cases h
  have plain (h : readPlainTag opening text = .ok read) : read.tag.EndsNumbers := by
    unfold readPlainTag at h
    split at h
    · exact readExpressionTag_endsNumbers h rfl (by decide)
    · exact readExpressionTag_endsNumbers h rfl (by decide)
  unfold readOpened at h
  split at h
  · exact comment h
  · exact comment h
  · exact readExpressionTag_endsNumbers h rfl (by decide)
  · split at h
    · obtain rfl := Except.ok.inj h
      exact fun _ notInverse => absurd rfl notInverse
    · exact plain h
  · exact plain h

theorem readTag_endsNumbers {text : Text} {read : TagRead} (h : readTag text = .ok read) :
    read.tag.EndsNumbers := by
  unfold readTag at h
  split at h
  · cases h
  · exact readOpened_endsNumbers h
  · exact readOpened_endsNumbers h

/-! ### Pieces at their places -/

/-- A piece is not empty, and a number inside of a tag ends where the tag does. -/
def Piece.Sound : Piece → Prop
  | .content written _ => written ≠ []
  | .tag read => read.opening ≠ [] ∧ read.EndsNumbers

theorem readTag_sound {text : Text} {read : TagRead} (h : readTag text = .ok read) :
    (Piece.tag read.tag).Sound := by
  obtain ⟨more, opening⟩ := (readTag_braces h).1
  exact ⟨by simp [opening], readTag_endsNumbers h⟩

/-- The pieces of a text are sound, and put together they are the text up to some place. -/
theorem pieces_sound (text : Text) :
    ∃ rest, text = textOf (pieces text).pieces ++ rest ∧ ∀ piece ∈ (pieces text).pieces, piece.Sound := by
  induction size : text.length using Nat.strongRecOn generalizing text with
  | ind size ih =>
    obtain ⟨after, behind, eq⟩ := pieces_behind text
    have tail : ∃ rest, (readContent text).rest = textOf after.pieces ++ rest ∧ ∀ piece ∈ after.pieces, piece.Sound := by
      cases behind with
      | @tag more next found tagged =>
        obtain ⟨rest, joined, sound⟩ := ih _ (size ▸ readTag_rest_shorter found tagged) next.rest rfl
        refine ⟨rest, ?_, List.forall_mem_cons.mpr ⟨readTag_sound tagged, sound⟩⟩
        calc (readContent text).rest
            = next.tag.text ++ next.rest := found.trans (readTag_append tagged).symm
          _ = next.tag.text ++ (textOf (pieces next.rest).pieces ++ rest) := congrArg _ joined
          _ = textOf ((pieces next.rest).cons (.tag next.tag)).pieces ++ rest := by simp [Pieces.cons, Piece.text]
      | fault cause => exact ⟨_, rfl, by simp⟩
      | ended ended => exact ⟨_, rfl, by simp⟩
    obtain ⟨rest, joined, sound⟩ := tail
    have written := readContent_written_append_rest text
    rw [joined] at written
    rw [eq]
    split
    · next empty =>
      rw [List.isEmpty_iff.mp empty] at written
      exact ⟨rest, written.symm, sound⟩
    · next filled =>
      refine ⟨rest, ?_, List.forall_mem_cons.mpr ⟨by simpa [Piece.Sound] using filled, sound⟩⟩
      calc text
          = (readContent text).written ++ (textOf after.pieces ++ rest) := written.symm
        _ = textOf (after.cons (.content (readContent text).written (readContent text).value)).pieces ++ rest := by
          simp [Pieces.cons, Piece.text]

/-- Sound pieces stand one behind the other in a text, from an offset on. -/
structure Onward (text : Text) (offset : Nat) (pieces : List Piece) : Prop where
  place : ∃ before after, text = before ++ textOf pieces ++ after ∧ before.length = offset
  sound : ∀ piece ∈ pieces, piece.Sound

theorem Onward.inside {text : Text} {offset : Nat} {pieces : List Piece} (h : Onward text offset pieces) :
    offset ≤ text.length := by
  obtain ⟨⟨before, after, split, rfl⟩, -⟩ := h
  have whole := congrArg List.length split
  simp only [List.length_append] at whole
  omega

theorem Onward.tail {text : Text} {offset : Nat} {piece : Piece} {rest : List Piece}
    (h : Onward text offset (piece :: rest)) :
    offset + piece.text.length ≤ text.length ∧ Onward text (offset + piece.text.length) rest := by
  obtain ⟨⟨before, after, split, rfl⟩, sound⟩ := h
  have joined : text = (before ++ piece.text) ++ textOf rest ++ after := by simp [split]
  have left : Onward text (before.length + piece.text.length) rest :=
    ⟨⟨before ++ piece.text, after, joined, List.length_append⟩, (List.forall_mem_cons.mp sound).2⟩
  exact ⟨left.inside, left⟩

theorem onward_pieces (text : Text) : Onward text 0 (pieces text).pieces := by
  obtain ⟨rest, joined, sound⟩ := pieces_sound text
  exact ⟨⟨[], rest, joined, rfl⟩, sound⟩

end Phrasebook.Template
