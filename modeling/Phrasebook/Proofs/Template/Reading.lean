import Phrasebook.Template.Piece

/-!
The pieces of a text that can be read to its end. Put together they are the text, every tag starts
with two opening braces and ends with two closing ones, and every piece is what the reader finds at
its place with the rest of the text behind it.
-/

namespace Phrasebook.Template

/-! ### The braces around a tag -/

/-- The text ends with two closing braces. -/
def ClosesTag (text : Text) : Prop := ∃ before, text = before ++ ['}', '}']

theorem ClosesTag.append {text : Text} (before : Text) (h : ClosesTag text) :
    ClosesTag (before ++ text) := by
  obtain ⟨more, rfl⟩ := h
  exact ⟨before ++ more, (List.append_assoc ..).symm⟩

theorem closesTag_replicate {count : Nat} (two : 2 ≤ count) : ClosesTag (List.replicate count '}') := by
  obtain ⟨more, rfl⟩ := Nat.exists_eq_add_of_le' two
  exact ⟨List.replicate more '}', by rw [List.replicate_succ', List.replicate_succ']; simp⟩

theorem Closer.closesTag_of_match? {closer : Closer} (two : 2 ≤ closer.braces) {text closing rest : Text}
    (h : closer.match? text = some (closing, rest)) : ClosesTag closing := by
  have braces := closesTag_replicate two
  unfold Closer.match? at h
  simp only at h
  split at h
  · obtain ⟨rfl, -⟩ := Prod.mk.inj (Option.some.inj h)
    exact ClosesTag.append _ (ClosesTag.append ['~'] braces)
  · split at h
    · obtain ⟨rfl, -⟩ := Prod.mk.inj (Option.some.inj h)
      exact ClosesTag.append _ braces
    · simp at h

theorem Closer.closesTag_of_cut? {closer : Closer} (two : 2 ≤ closer.braces) {text : Text} {cut : Cut}
    (h : closer.cut? text = some cut) : ClosesTag cut.closing := by
  induction text generalizing cut with
  | nil => simp [Closer.cut?] at h
  | cons c rest ih =>
    simp only [Closer.cut?] at h
    split at h
    · next matched =>
      obtain rfl := Option.some.inj h
      exact closesTag_of_match? two matched
    · obtain ⟨shorter, found, rfl⟩ := Option.map_eq_some_iff.mp h
      simpa [Cut.cons] using ih found

theorem Closer.closesTag_of_cutQuoted? {closer : Closer} (two : 2 ≤ closer.braces) {quoting : Quoting}
    {text : Text} {cut : Cut} (h : closer.cutQuoted? quoting text = some cut) :
    ClosesTag cut.closing := by
  induction text generalizing quoting cut with
  | nil => simp [Closer.cutQuoted?] at h
  | cons c rest ih =>
    have step {next : Quoting} (h : (closer.cutQuoted? next rest).map (Cut.cons c) = some cut) :
        ClosesTag cut.closing := by
      obtain ⟨shorter, found, rfl⟩ := Option.map_eq_some_iff.mp h
      simpa [Cut.cons] using ih found
    cases quoting with
    | outside =>
      simp only [Closer.cutQuoted?] at h
      split at h
      · exact step h
      · split at h
        · next matched =>
          obtain rfl := Option.some.inj h
          exact closesTag_of_match? two matched
        · exact step h
    | inside quote => exact step h
    | escaped quote => exact step h

theorem readComment_closes {closer : Closer} (two : 2 ≤ closer.braces) {opening text : Text}
    {read : TagRead} (h : readComment closer opening text = .ok read) :
    ClosesTag read.tag.closing := by
  simp only [readComment] at h
  split at h
  · next found =>
    obtain rfl := Except.ok.inj h
    exact Closer.closesTag_of_cut? two found
  · simp at h

theorem readExpressionTag_closes {kind : TagKind} {closer : Closer} (two : 2 ≤ closer.braces)
    {opening text : Text} {read : TagRead}
    (h : readExpressionTag kind closer opening text = .ok read) : ClosesTag read.tag.closing := by
  simp only [readExpressionTag] at h
  split at h
  · next found =>
    obtain rfl := Except.ok.inj h
    exact Closer.closesTag_of_cutQuoted? two found
  · simp at h

theorem readPlainTag_closes {opening text : Text} {read : TagRead}
    (h : readPlainTag opening text = .ok read) : ClosesTag read.tag.closing := by
  have two : 2 ≤ tagCloser.braces := Nat.le_refl 2
  simp only [readPlainTag] at h
  split at h
  · exact readExpressionTag_closes two h
  · exact readExpressionTag_closes two h

theorem readOpened_closes {opening text : Text} {read : TagRead}
    (h : readOpened opening text = .ok read) : ClosesTag read.tag.closing := by
  unfold readOpened at h
  split at h
  · exact readComment_closes (Nat.le_refl 2) h
  · exact readComment_closes (Nat.le_refl 2) h
  · exact readExpressionTag_closes (by decide : 2 ≤ tripleCloser.braces) h
  · split at h
    · next closing after split =>
      obtain rfl := Except.ok.inj h
      simp only [splitInverse?] at split
      split at split
      · next matched =>
        obtain ⟨rfl, -⟩ := Prod.mk.inj (Option.some.inj split)
        exact ClosesTag.append _ (Closer.closesTag_of_match? (Nat.le_refl 2) matched)
      · simp at split
    · exact readPlainTag_closes h
  · exact readPlainTag_closes h

/-- A tag starts with two opening braces, and more characters of it follow before its two closing
braces or none. -/
theorem readTag_braces {text : Text} {read : TagRead} (h : readTag text = .ok read) :
    (∃ more, read.tag.opening = '{' :: '{' :: more) ∧ ClosesTag read.tag.closing := by
  unfold readTag at h
  split at h
  · simp at h
  · obtain ⟨more, opening⟩ := readOpened_opening h
    exact ⟨⟨_, opening⟩, readOpened_closes h⟩
  · obtain ⟨more, opening⟩ := readOpened_opening h
    exact ⟨⟨_, opening⟩, readOpened_closes h⟩

/-- A tag as written, with the given text between its braces. -/
def tagged (inner : String) : Text := "\x7b\x7b".toList ++ inner.toList ++ "\x7d\x7d".toList

/-! ### Pieces in turn -/

/-- The text of pieces that stand one behind the other. -/
def textOf (pieces : List Piece) : Text := (pieces.map Piece.text).flatten

@[simp] theorem textOf_nil : textOf [] = [] := rfl

@[simp] theorem textOf_cons (piece : Piece) (rest : List Piece) :
    textOf (piece :: rest) = piece.text ++ textOf rest := rfl

/-- A piece is what the reader finds in front of the given rest of a text. -/
def ReadBefore (rest : Text) : Piece → Prop
  | .content written value =>
    written ≠ [] ∧ readContent (written ++ rest) = ⟨written, value, rest⟩
  | .tag tag => readTag ((tag.text ++ rest).drop 2) = .ok ⟨tag, rest⟩

/-- Every piece is what the reader finds in front of the pieces behind it. -/
def ReadInTurn : List Piece → Prop
  | [] => True
  | piece :: rest => ReadBefore (textOf rest) piece ∧ ReadInTurn rest

theorem readContent_rest (text : Text) :
    (readContent text).rest = [] ∨ ∃ more, (readContent text).rest = '{' :: '{' :: more := by
  fun_induction readContent text with
  | case1 => exact .inl rfl
  | case2 rest => exact .inr ⟨rest, rfl⟩
  | case3 rest read ih => exact ih
  | case4 rest => exact .inr ⟨rest, rfl⟩
  | case5 c rest _ _ _ read ih => exact ih

theorem readContent_rest_written (text : Text) :
    (readContent (readContent text).rest).written = [] := by
  rcases readContent_rest text with ended | ⟨more, opened⟩
  · rw [ended]
    rfl
  · rw [opened]
    simp [readContent]

/-- The pieces behind the content at the start of a text: a tag and the pieces of what follows it,
nothing because the tag cannot be read, or nothing because the text has ended. -/
inductive Behind (text : Text) : Pieces → Prop where
  | tag {rest : Text} {next : TagRead} (found : (readContent text).rest = '{' :: '{' :: rest)
      (tagged : readTag rest = .ok next) : Behind text ((pieces next.rest).cons (.tag next.tag))
  | fault (cause : Cause) : Behind text ⟨[], some cause⟩
  | ended (ended : (readContent text).rest = []) : Behind text ⟨[], none⟩

theorem pieces_behind (text : Text) : ∃ after, Behind text after ∧
    pieces text = if (readContent text).written.isEmpty then after
      else after.cons (.content (readContent text).written (readContent text).value) := by
  rw [pieces]
  refine ⟨_, ?_, rfl⟩
  split
  · next rest found =>
    split
    · next next tagged => exact .tag found tagged
    · next cause _ => exact .fault cause
  · next notOpened =>
    rcases readContent_rest text with ended | ⟨more, opened⟩
    · exact .ended ended
    · exact absurd opened (notOpened more)

/-- Without a fault the pieces are the whole text, each read in front of the next. -/
theorem pieces_readInTurn {text : Text} (whole : (pieces text).fault = none) :
    textOf (pieces text).pieces = text ∧ ReadInTurn (pieces text).pieces := by
  induction size : text.length using Nat.strongRecOn generalizing text with
  | ind size ih =>
    obtain ⟨after, behind, eq⟩ := pieces_behind text
    have rest (noFault : after.fault = none) :
        textOf after.pieces = (readContent text).rest ∧ ReadInTurn after.pieces := by
      cases behind with
      | @tag rest next found tagged =>
        obtain ⟨joined, turns⟩ := ih _ (size ▸ readTag_rest_shorter found tagged) noFault rfl
        have opened := readTag_append tagged
        refine ⟨by rw [found, ← opened]; simp [Pieces.cons, Piece.text, joined], ?_, turns⟩
        rw [ReadBefore, joined, opened]
        exact tagged
      | fault cause => simp at noFault
      | ended ended => exact ⟨ended.symm, trivial⟩
    have written := readContent_written_append_rest text
    by_cases empty : (readContent text).written.isEmpty
    · rw [if_pos empty] at eq
      rw [eq] at whole ⊢
      obtain ⟨joined, turns⟩ := rest whole
      rw [List.isEmpty_iff.mp empty] at written
      exact ⟨joined.trans written, turns⟩
    · rw [if_neg empty] at eq
      rw [eq] at whole ⊢
      obtain ⟨joined, turns⟩ := rest whole
      refine ⟨by simp [Pieces.cons, Piece.text, joined, written], ⟨?_, ?_⟩, turns⟩
      · simpa using empty
      · rw [joined, written]

end Phrasebook.Template
