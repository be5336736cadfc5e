import Phrasebook.Json.Writer
import Phrasebook.Proofs.Json.Members
import Phrasebook.Proofs.Json.Reading

/-!
# Reading what was written

Indented JSON, read back. Line breaks may be put in the place of the newlines of the text, because no
string has a newline in it: `readValue_laidOut` holds for any breaks and any steps of indentation that are
blank. `Plain` are the values that are written exactly.
-/

namespace Phrasebook.Json

/-! ### Plain values -/

mutual

/-- A value without numbers that are not whole or too long to be read, and without a name that occurs
twice in an object. -/
def Plain : Json → Prop
  | .null | .bool _ | .string _ => True
  | .int value => (Nat.toDigits 10 value.natAbs).length ≤ Text.maxDigits
  | .float _ => False
  | .array items => PlainItems items
  | .object members => (Members.names members).Nodup ∧ PlainMembers members

/-- All items are plain. -/
def PlainItems : List Json → Prop
  | [] => True
  | item :: rest => Plain item ∧ PlainItems rest

/-- The values of all members are plain. -/
def PlainMembers : List (CodePoints × Json) → Prop
  | [] => True
  | (_, value) :: rest => Plain value ∧ PlainMembers rest

end

/-! ### Line breaks -/

theorem withBreaks_append (newline first second : CodePoints) :
    withBreaks newline (first ++ second) = withBreaks newline first ++ withBreaks newline second :=
  List.flatMap_append

theorem withBreaks_cons (newline : CodePoints) (c : CodePoint) (rest : CodePoints) :
    withBreaks newline (c :: rest) = (if c = '\n' then newline else [c]) ++ withBreaks newline rest :=
  List.flatMap_cons

theorem withBreaks_solid {c : CodePoint} (solid : c ≠ '\n') (newline rest : CodePoints) :
    withBreaks newline (c :: rest) = c :: withBreaks newline rest := by
  rw [withBreaks_cons, if_neg solid, List.singleton_append]

theorem withBreaks_of_not_mem {text : CodePoints} (absent : .char '\n' ∉ text) (newline : CodePoints) :
    withBreaks newline text = text := by
  induction text with
  | nil => rfl
  | cons c rest ih =>
    obtain ⟨notHere, notLater⟩ := not_or.mp fun member => absent (List.mem_cons.mpr member)
    rw [withBreaks_solid (Ne.symm notHere), ih notLater]

/-! ### Strings -/

theorem hexDigit?_digitChar : ∀ d < 16, hexDigit? (Nat.digitChar d) = some d := by decide

theorem hex4?_hex4 {n : Nat} (small : n < 65536) :
    ∃ a b c d, hex4 n = [a, b, c, d] ∧ hex4? a b c d = some n := by
  have digit (m : Nat) : hexDigit? (Nat.digitChar (m % 16)) = some (m % 16) :=
    hexDigit?_digitChar _ (Nat.mod_lt _ (by decide))
  refine ⟨_, _, _, _, rfl, ?_⟩
  simp only [hex4?, digit, Option.bind_eq_bind, Option.bind_some, Option.some.injEq]
  omega

theorem ofUnit_control {n : Nat} (small : n < 0x20) : isHigh n = false ∧ ofUnit n = Char.ofNat n := by
  refine ⟨?_, dif_neg (by omega)⟩
  simp only [isHigh, Bool.and_eq_false_iff, decide_eq_false_iff_not]
  omega

/-- A code point below the blank is a character. -/
theorem eq_ofNat_of_value_lt {c : CodePoint} (small : c.value < 0x20) : c = Char.ofNat c.value := by
  cases c with
  | char c => exact congrArg CodePoint.char (Char.ofNat_toNat c).symm
  | half unit => exact absurd small (by simp only [CodePoint.value]; omega)

/-- How a character is written in a string: behind a backslash as a letter or as a code unit, or as it
is. -/
theorem escapePoint_cases (c : CodePoint) :
    (∃ letter, escapePoint false c = [.char '\\', letter] ∧ escape? letter = some c) ∨
      (c.value < 0x20 ∧ escapePoint false c = escapeUnit c.value) ∨
      (0x20 ≤ c.value ∧ c ≠ '"' ∧ c ≠ '\\' ∧ escapePoint false c = [c]) := by
  unfold escapePoint
  split
  case h_1 | h_2 | h_3 | h_4 | h_5 | h_6 | h_7 => exact .inl ⟨_, rfl, rfl⟩
  case h_8 notQuote notEscape _ _ _ _ _ =>
    by_cases small : c.value < 0x20
    · exact .inr (.inl ⟨small, if_pos small⟩)
    · exact .inr (.inr ⟨by omega, notQuote, notEscape, by simp [small]⟩)

theorem readString_escapePoint {left : Nat} {c : CodePoint} {text value rest : CodePoints} (more : text ≠ [])
    (h : Gives (readString left text) value rest) :
    Gives (readString left (escapePoint false c ++ text)) (c :: value) rest := by
  rcases escapePoint_cases c with ⟨letter, written, stands⟩ | ⟨small, written⟩ | ⟨large, notQuote, notEscape, written⟩
  · rw [written]
    exact readString_letter stands h
  · obtain ⟨a, b, c', d, digits, unit⟩ := @hex4?_hex4 c.value (by omega)
    obtain ⟨single, same⟩ := ofUnit_control small
    have read := readString_unit unit single more h
    rw [same, ← eq_ofNat_of_value_lt small] at read
    rw [written, escapeUnit, digits]
    exact read
  · rw [written]
    exact readString_plain notQuote notEscape large h

theorem readString_escaped (left : Nat) (text rest : CodePoints) :
    Gives (readString left (text.flatMap (escapePoint false) ++ .char '"' :: rest)) text rest := by
  induction text with
  | nil => exact readString_end left rest
  | cons c text ih =>
    rw [List.flatMap_cons, List.append_assoc]
    exact readString_escapePoint (by simp) ih

theorem newline_not_mem_escapePoint (c : CodePoint) : .char '\n' ∉ escapePoint false c := by
  rcases escapePoint_cases c with ⟨letter, written, stands⟩ | ⟨small, written⟩ | ⟨large, -, -, written⟩
  · rw [written]
    intro member
    obtain rfl : '\n' = letter := by simpa using member
    simp [escape?] at stands
  · have units : ∀ n < 0x20, .char '\n' ∉ escapeUnit n := by decide
    exact written ▸ units _ small
  · rw [written, List.mem_singleton]
    rintro rfl
    exact absurd large (by decide)

theorem withBreaks_quote (newline text : CodePoints) :
    withBreaks newline (quote false text) = quote false text := by
  refine withBreaks_of_not_mem (fun member => ?_) newline
  simp only [quote, List.mem_cons, List.mem_append, List.mem_flatMap, List.not_mem_nil, or_false] at member
  rcases member with same | ⟨c, -, inside⟩ | same
  · exact absurd same (by decide)
  · exact newline_not_mem_escapePoint c inside
  · exact absurd same (by decide)

/-! ### Numbers -/

/-- The sign of a number as it is written. -/
def signText (value : Int) : CodePoints := if value < 0 then ['-'] else []

/-- The decimal digits of a number. -/
def decimal (n : Nat) : CodePoints := Text.points (Nat.toDigits 10 n)

theorem decimal_ne_nil (n : Nat) : decimal n ≠ [] := by simp [decimal, Text.points]

theorem ofString_toString (value : Int) :
    CodePoints.ofString (toString value) = signText value ++ decimal value.natAbs := by
  cases value with
  | ofNat n => exact congrArg Text.points Nat.toList_repr
  | negSucc n =>
    simp [toString, Int.repr, Nat.repr, signText, decimal, Int.negSucc_lt_zero, CodePoints.ofString,
      Text.points]

theorem head_toDigits {n : Nat} (positive : 0 < n) : (Nat.toDigits 10 n).head? ≠ some '0' := by
  induction n using Nat.strongRecOn with
  | ind n ih =>
    rcases Nat.lt_or_ge n 10 with small | large
    · rw [Nat.toDigits_of_lt_base small]
      have digits : ∀ n < 10, 0 < n → [Nat.digitChar n].head? ≠ some '0' := by decide
      exact digits n small positive
    · rw [Nat.toDigits_of_base_le (by decide) large, List.head?_append]
      have more := ih (n / 10) (by omega) (by omega)
      obtain ⟨c, rest, same⟩ := List.exists_cons_of_ne_nil (Nat.toDigits_ne_nil (n := n / 10) (b := 10))
      rw [same] at more ⊢
      exact more

theorem head_decimal {n : Nat} (positive : 0 < n) : (decimal n).head? ≠ some (.char '0') := by
  simpa [decimal, Text.points] using head_toDigits positive

theorem isDigit_of_mem_decimal {n : Nat} {c : CodePoint} (member : c ∈ decimal n) : isDigit c = true := by
  obtain ⟨d, inside, rfl⟩ := List.mem_map.mp member
  have digit := Nat.isDigit_of_mem_toDigits (by decide) (by decide) inside
  simpa [Char.isDigit, isDigit, Char.le_def] using digit

theorem numberPoints (value : Int) :
    ∀ c ∈ signText value ++ decimal value.natAbs, c = '-' ∨ isDigit c = true := by
  intro c member
  rcases List.mem_append.mp member with isSign | digit
  · unfold signText at isSign
    split at isSign
    · exact .inl (List.mem_singleton.mp isSign)
    · simp at isSign
  · exact .inr (isDigit_of_mem_decimal digit)

theorem numberPoint_ne {c d : CodePoint} (h : c = '-' ∨ isDigit c = true) (other : d ≠ '-' ∧ isDigit d = false) :
    c ≠ d := by
  rintro rfl
  rcases h with rfl | digit
  · exact other.1 rfl
  · simp [digit] at other

theorem digitsValue_decimal (n : Nat) : digitsValue (decimal n) = n := by
  unfold digitsValue decimal Text.points
  rw [List.foldl_map]
  exact Nat.ofDigitChars_ten_toDigits

/-- A text does not go on with what a number can go on with. -/
def EndsNumber (rest : CodePoints) : Prop :=
  ∀ c ∈ rest.head?, isDigit c = false ∧ c ≠ '.' ∧ c ≠ 'e' ∧ c ≠ 'E'

theorem wholeDigits_decimal (n : Nat) {rest : CodePoints} (ended : EndsNumber rest) :
    wholeDigits (decimal n ++ rest) = decimal n := by
  have taken : (decimal n ++ rest).takeWhile isDigit = decimal n := by
    rw [List.takeWhile_append_of_pos fun c => isDigit_of_mem_decimal]
    cases rest with
    | nil => simp
    | cons c rest => simp [(ended c rfl).1]
  rcases Nat.eq_zero_or_pos n with rfl | positive
  · rfl
  · unfold wholeDigits
    split
    · next same =>
      have head := head_decimal positive
      obtain ⟨c, digits, split⟩ := List.exists_cons_of_ne_nil (decimal_ne_nil n)
      rw [split, List.cons_append] at same
      rw [split, (List.cons.inj same).1] at head
      exact absurd rfl head
    · exact taken

theorem fractionDigits_nil {rest : CodePoints} (ended : EndsNumber rest) : fractionDigits rest = [] := by
  unfold fractionDigits
  split
  · exact absurd rfl (ended '.' rfl).2.1
  · rfl

theorem exponent?_none {rest : CodePoints} (ended : EndsNumber rest) : exponent? rest = none := by
  unfold exponent?
  dsimp only
  split
  · exact absurd rfl (ended 'e' rfl).2.2.1
  · exact absurd rfl (ended 'E' rfl).2.2.2
  · rfl

theorem head?_signed (value : Int) (rest : CodePoints) :
    (signText value ++ decimal value.natAbs ++ rest).head? = some (.char '-') ↔ value < 0 := by
  unfold signText
  split
  · next negative => simp [negative]
  · next positive =>
    obtain ⟨c, digits, same⟩ := List.exists_cons_of_ne_nil (decimal_ne_nil value.natAbs)
    have digit : isDigit c = true := isDigit_of_mem_decimal (n := value.natAbs) (by simp [same])
    rw [same]
    simp only [List.nil_append, List.cons_append, List.head?_cons, Option.some.injEq, positive, iff_false]
    rintro rfl
    exact absurd digit (by decide)

theorem number?_written {value : Int} {rest : CodePoints}
    (short : (Nat.toDigits 10 value.natAbs).length ≤ Text.maxDigits) (ended : EndsNumber rest) :
    number? (signText value ++ decimal value.natAbs ++ rest) =
      some (.ok (.int value), (signText value).length + (decimal value.natAbs).length) := by
  have negative := head?_signed value rest
  have sign : (if value < 0 then 1 else 0) = (signText value).length := by
    unfold signText
    split <;> rfl
  have dropped : (signText value ++ decimal value.natAbs ++ rest).drop (signText value).length =
      decimal value.natAbs ++ rest := by
    rw [List.append_assoc, List.drop_left]
  have behind : (signText value ++ decimal value.natAbs ++ rest).drop
      ((signText value).length + (decimal value.natAbs).length) = rest := by
    rw [← List.drop_drop, dropped, List.drop_left]
  have short : (decimal value.natAbs).length ≤ Text.maxDigits := by simpa [decimal, Text.points] using short
  have filled : (decimal value.natAbs).isEmpty = false := by simp [decimal_ne_nil]
  have back : (if value < 0 then -(value.natAbs : Int) else value.natAbs) = value := by
    split <;> omega
  generalize signText value ++ decimal value.natAbs ++ rest = text at *
  unfold number?
  simp only [negative, sign, dropped, wholeDigits_decimal _ ended, behind, fractionDigits_nil ended, filled,
    List.isEmpty_nil, List.drop_zero, exponent?_none ended, digitsValue_decimal, if_true,
    if_neg (Nat.not_lt.mpr short), back, Bool.false_eq_true, if_false]

theorem readPlain_number {value : Int} {rest : CodePoints}
    (short : (Nat.toDigits 10 value.natAbs).length ≤ Text.maxDigits) (ended : EndsNumber rest) :
    Gives (readPlain (signText value ++ decimal value.natAbs ++ rest)) (.int value) rest := by
  have noWord : words.find? (fun word => word.1.isPrefixOf
      (signText value ++ decimal value.natAbs ++ rest)) = none := by
    obtain ⟨c, digits, same⟩ := List.exists_cons_of_ne_nil (decimal_ne_nil value.natAbs)
    have digit : isDigit c = true := isDigit_of_mem_decimal (n := value.natAbs) (by simp [same])
    have other (d : Char) (noDigit : isDigit d = false) : CodePoint.char d ≠ c := by
      rintro rfl
      simp [digit] at noDigit
    rw [same]
    unfold signText
    split
    · simp [words, CodePoints.ofString, Text.points, other 'I' (by decide)]
    · simp [words, CodePoints.ofString, Text.points, other 'n' (by decide), other 't' (by decide),
        other 'f' (by decide), other 'N' (by decide), other 'I' (by decide), other '-' (by decide)]
  have left : (signText value ++ decimal value.natAbs ++ rest).drop
      ((signText value).length + (decimal value.natAbs).length) = rest := by
    rw [← List.length_append, List.drop_left]
  unfold readPlain
  rw [noWord, number?_written short ended]
  exact Gives.of_read left

/-! ### Values -/

theorem isSpace_cases {c : CodePoint} (space : isSpace c = true) : c = ' ' ∨ c = '\t' ∨ c = '\n' ∨ c = '\r' := by
  simpa [isSpace, or_assoc] using space

theorem endsNumber_cons {c : CodePoint} (ends : isDigit c = false ∧ c ≠ '.' ∧ c ≠ 'e' ∧ c ≠ 'E') (rest : CodePoints) :
    EndsNumber (c :: rest) := by
  intro d member
  obtain rfl : c = d := by simpa using member
  exact ends

theorem endsNumber_blanks {blanks rest : CodePoints} (isBlank : ∀ c ∈ blanks, isSpace c = true)
    (ended : EndsNumber rest) : EndsNumber (blanks ++ rest) := by
  cases blanks with
  | nil => exact ended
  | cons c blanks =>
    refine endsNumber_cons ?_ _
    rcases isSpace_cases (isBlank c List.mem_cons_self) with rfl | rfl | rfl | rfl <;> decide

theorem isSpace_withBreaks {newline blanks : CodePoints} (isBreak : ∀ c ∈ newline, isSpace c = true)
    (isBlank : ∀ c ∈ blanks, isSpace c = true) : ∀ c ∈ withBreaks newline blanks, isSpace c = true := by
  intro c member
  obtain ⟨d, inside, here⟩ := List.mem_flatMap.mp member
  split at here
  · exact isBreak c here
  · rw [List.mem_singleton.mp here]
    exact isBlank d inside

theorem isSpace_break {step : CodePoints} (isStep : ∀ c ∈ step, isSpace c = true) (depth : Nat) :
    ∀ c ∈ (indentedStyle step).break depth, isSpace c = true := by
  intro c member
  rcases List.mem_cons.mp member with rfl | member
  · rfl
  · obtain ⟨step', copied, inside⟩ := List.mem_flatten.mp member
    rw [(List.mem_replicate.mp copied).2] at inside
    exact isStep c inside

/-- A written value starts with a character that is neither blank nor a closing bracket, nor the mark that
a text must not start with. -/
theorem writeAt_head (style : Style) (depth : Nat) {value : Json} (plain : Plain value) :
    ∃ c more, writeAt style depth value = c :: more ∧ isSpace c = false ∧ c ≠ ']' ∧ c ≠ '\uFEFF' := by
  match value, plain with
  | .null, _ => exact ⟨_, _, rfl, by decide, by decide, by decide⟩
  | .bool true, _ => exact ⟨_, _, rfl, by decide, by decide, by decide⟩
  | .bool false, _ => exact ⟨_, _, rfl, by decide, by decide, by decide⟩
  | .string _, _ => exact ⟨_, _, rfl, by decide, by decide, by decide⟩
  | .array [], _ => exact ⟨_, _, rfl, by decide, by decide, by decide⟩
  | .array (_ :: _), _ => exact ⟨_, _, rfl, by decide, by decide, by decide⟩
  | .object [], _ => exact ⟨_, _, rfl, by decide, by decide, by decide⟩
  | .object ((_, _) :: _), _ => exact ⟨_, _, rfl, by decide, by decide, by decide⟩
  | .int value, _ =>
    obtain ⟨c, more, same⟩ := List.exists_cons_of_ne_nil (l := signText value ++ decimal value.natAbs)
      (by simp [decimal_ne_nil])
    have isChar := numberPoints value c (by simp [same])
    refine ⟨c, more, (ofString_toString value).trans same, ?_, numberPoint_ne isChar (by decide),
      numberPoint_ne isChar (by decide)⟩
    cases space : isSpace c with
    | false => rfl
    | true =>
      rcases isSpace_cases space with same | same | same | same <;>
        exact absurd same (numberPoint_ne isChar (by decide))

theorem fresh_of_nodup {before members : List (CodePoints × Json)} {name : CodePoints} {value : Json}
    (distinct : (Members.names (before ++ (name, value) :: members)).Nodup) : name ∉ Members.names before := by
  intro member
  rw [Members.names, List.map_append, List.map_cons] at distinct
  exact (List.nodup_append.mp distinct).2.2 name member name List.mem_cons_self rfl

section RoundTrip

variable {newline step : CodePoints}

/-- A plain value laid out with the given breaks. -/
def laidOut (newline step : CodePoints) (depth : Nat) (value : Json) : CodePoints :=
  withBreaks newline (writeAt (indentedStyle step) depth value)

/-- The break before an item at the given depth. -/
def laidBreak (newline step : CodePoints) (depth : Nat) : CodePoints :=
  withBreaks newline ((indentedStyle step).break depth)

theorem laidOut_array (depth : Nat) (item : Json) (items : List Json) (rest : CodePoints) :
    laidOut newline step depth (.array (item :: items)) ++ rest =
      .char '[' :: (laidBreak newline step (depth + 1) ++ (laidOut newline step (depth + 1) item ++
        (withBreaks newline (writeItems (indentedStyle step) (depth + 1) items) ++
          (laidBreak newline step depth ++ .char ']' :: rest)))) := by
  simp only [laidOut, laidBreak, writeAt, withBreaks_solid (by decide : CodePoint.char '[' ≠ '\n'), withBreaks_append,
    List.append_assoc, List.cons_append]
  rfl

theorem laidOut_object (depth : Nat) (name : CodePoints) (value : Json) (members : List (CodePoints × Json)) (rest : CodePoints) :
    laidOut newline step depth (.object ((name, value) :: members)) ++ rest =
      .char '{' :: (laidBreak newline step (depth + 1) ++ .char '"' :: (name.flatMap (escapePoint false) ++ .char '"' :: .char ':' :: .char ' ' ::
        (laidOut newline step (depth + 1) value ++
          (withBreaks newline (writeMembers (indentedStyle step) (depth + 1) members) ++
            (laidBreak newline step depth ++ .char '}' :: rest))))) := by
  have isAscii : (indentedStyle step).ascii = false := rfl
  simp only [laidOut, laidBreak, writeAt, withBreaks_solid (by decide : CodePoint.char '{' ≠ '\n'), withBreaks_append,
    List.append_assoc, isAscii, withBreaks_quote]
  simp only [quote, List.cons_append, List.append_assoc, List.nil_append]
  rfl

theorem laidOut_head {depth : Nat} {value : Json} (plain : Plain value) :
    ∃ c more, laidOut newline step depth value = c :: more ∧ isSpace c = false ∧ c ≠ ']' ∧ c ≠ '\uFEFF' := by
  obtain ⟨c, more, same, solid, others⟩ := writeAt_head (indentedStyle step) depth plain
  have notNewline : c ≠ '\n' := by
    rintro rfl
    exact absurd solid (by decide)
  exact ⟨c, _, by rw [laidOut, same, withBreaks_solid notNewline], solid, others⟩

theorem skip_laidOut {depth : Nat} {value : Json} (plain : Plain value) (rest : CodePoints) :
    skip (laidOut newline step depth value ++ rest) = laidOut newline step depth value ++ rest := by
  obtain ⟨c, more, same, solid, -⟩ := @laidOut_head newline step depth value plain
  rw [same, List.cons_append, skip_solid solid]

theorem skip_spaced {depth : Nat} {value : Json} (plain : Plain value) (rest : CodePoints) :
    skip (.char ' ' :: (laidOut newline step depth value ++ rest)) = laidOut newline step depth value ++ rest := by
  rw [skip, List.dropWhile_cons_of_pos (by decide)]
  exact skip_laidOut plain rest

section Blank

variable (isBreak : ∀ c ∈ newline, isSpace c = true) (isStep : ∀ c ∈ step, isSpace c = true)
include isBreak isStep

theorem isSpace_laidBreak (depth : Nat) : ∀ c ∈ laidBreak newline step depth, isSpace c = true :=
  isSpace_withBreaks isBreak (isSpace_break isStep depth)

theorem skip_laidBreak (depth : Nat) {c : CodePoint} (solid : isSpace c = false) (rest : CodePoints) :
    skip (laidBreak newline step depth ++ c :: rest) = c :: rest := by
  rw [skip_blanks (isSpace_laidBreak isBreak isStep depth), skip_solid solid]

mutual

/-- A plain value is read back from its text, in front of anything that ends a number. -/
theorem readValue_laidOut : ∀ (value : Json), Plain value → ∀ (depth : Nat) {rest : CodePoints}, EndsNumber rest →
    Gives (readValue (laidOut newline step depth value ++ rest)) value rest
  | .null, _, _, rest, _ => readValue_word (by decide) (fun _ => rfl) rest
  | .bool true, _, _, rest, _ => readValue_word (by decide) (fun _ => rfl) rest
  | .bool false, _, _, rest, _ => readValue_word (by decide) (fun _ => rfl) rest
  | .int value, short, depth, rest, ended => by
    -- Only a number needs its end: its text has no line to break, and what follows must not go on with it.
    have absent : .char '\n' ∉ CodePoints.ofString (toString value) := by
      rw [ofString_toString]
      exact fun member => numberPoint_ne (numberPoints value _ member) (by decide) rfl
    have written : laidOut newline step depth (.int value) = signText value ++ decimal value.natAbs :=
      (withBreaks_of_not_mem absent newline).trans (ofString_toString value)
    have read := readPlain_number short ended
    obtain ⟨c, more, same⟩ := List.exists_cons_of_ne_nil (l := signText value ++ decimal value.natAbs)
      (by simp [decimal_ne_nil])
    have isChar := numberPoints value c (by simp [same])
    rw [same] at read written
    rw [written]
    exact readValue_plain ⟨numberPoint_ne isChar (by decide), numberPoint_ne isChar (by decide),
      numberPoint_ne isChar (by decide)⟩ read
  | .string text, _, depth, rest, _ => by
    have written : laidOut newline step depth (.string text) = quote false text := withBreaks_quote newline text
    rw [written, quote, List.cons_append, List.append_assoc]
    exact readValue_string fun left => readString_escaped left text rest
  | .array [], _, depth, rest, _ => readValue_emptyArray rest
  | .array (item :: items), ⟨plain, plains⟩, depth, rest, ended => by
    have skipped : skip (laidBreak newline step (depth + 1) ++ (laidOut newline step (depth + 1) item ++
          (withBreaks newline (writeItems (indentedStyle step) (depth + 1) items) ++
            (laidBreak newline step depth ++ .char ']' :: rest)))) = _ :=
      (skip_blanks (isSpace_laidBreak isBreak isStep _) _).trans (skip_laidOut plain _)
    rw [laidOut_array]
    refine readValue_array ?_ ?_
    · rw [skipped]
      obtain ⟨c, more, same, -, other, -⟩ := @laidOut_head newline step (depth + 1) item plain
      rw [same]
      simpa using other
    · rw [skipped]
      exact readItems_laidOut items plains depth _ rest item (readValue_laidOut item plain (depth + 1))
  | .object [], _, depth, rest, _ => readValue_emptyObject rest
  | .object ((name, value) :: members), ⟨distinct, plain, plains⟩, depth, rest, ended => by
    rw [laidOut_object]
    refine readValue_object ?_ ?_
    · rw [skip_laidBreak isBreak isStep _ (by decide)]
      simp
    · rw [skip_laidBreak isBreak isStep _ (by decide)]
      exact readMembers_laidOut members plains depth [] name value _ rest distinct
        fun ended => (skip_spaced plain _).symm ▸ readValue_laidOut value plain (depth + 1) ended

/-- Items are read back behind the one before them, whose reader decides whether there are more. -/
theorem readItems_laidOut : ∀ (items : List Json), PlainItems items →
    ∀ (depth : Nat) (text rest : CodePoints) (item : Json),
      (∀ {after : CodePoints}, EndsNumber after → Gives (readValue (text ++ after)) item after) →
      Gives (readItems (text ++ (withBreaks newline (writeItems (indentedStyle step) (depth + 1) items) ++
        (laidBreak newline step depth ++ .char ']' :: rest)))) (item :: items) rest
  | [], _, depth, text, rest, item, reads => by
    have ended : EndsNumber (laidBreak newline step depth ++ .char ']' :: rest) :=
      endsNumber_blanks (isSpace_laidBreak isBreak isStep depth) (endsNumber_cons (by decide) rest)
    exact readItems_last (reads ended) (skip_laidBreak isBreak isStep depth (by decide) rest)
  | next :: items, ⟨plain, plains⟩, depth, text, rest, item, reads => by
    have written (after : CodePoints) :
        withBreaks newline (writeItems (indentedStyle step) (depth + 1) (next :: items)) ++ after =
          .char ',' :: (laidBreak newline step (depth + 1) ++ (laidOut newline step (depth + 1) next ++
            (withBreaks newline (writeItems (indentedStyle step) (depth + 1) items) ++ after))) := by
      simp only [laidOut, laidBreak, writeItems, Style.separator, indentedStyle, withBreaks_append,
        List.append_assoc, List.cons_append, withBreaks_solid (by decide : CodePoint.char ',' ≠ '\n')]
    rw [written]
    refine readItems_more (reads (endsNumber_cons (by decide) _)) (skip_solid (by decide) _) ?_
    rw [skip_blanks (isSpace_laidBreak isBreak isStep _), skip_laidOut plain]
    exact readItems_laidOut items plains depth _ rest next (readValue_laidOut next plain (depth + 1))

/-- Members are read back behind those before them, when no name occurs twice. -/
theorem readMembers_laidOut : ∀ (members : List (CodePoints × Json)), PlainMembers members →
    ∀ (depth : Nat) (before : List (CodePoints × Json)) (name : CodePoints) (value : Json) (text rest : CodePoints),
      (Members.names (before ++ (name, value) :: members)).Nodup →
      (∀ {after : CodePoints}, EndsNumber after → Gives (readValue (skip (.char ' ' :: (text ++ after)))) value after) →
      Gives (readMembers before (.char '"' :: (name.flatMap (escapePoint false) ++ .char '"' :: .char ':' :: .char ' ' :: (text ++
        (withBreaks newline (writeMembers (indentedStyle step) (depth + 1) members) ++
          (laidBreak newline step depth ++ .char '}' :: rest))))))
        (before ++ (name, value) :: members) rest
  | [], _, depth, before, name, value, text, rest, distinct, reads => by
    have ended : EndsNumber (laidBreak newline step depth ++ .char '}' :: rest) :=
      endsNumber_blanks (isSpace_laidBreak isBreak isStep depth) (endsNumber_cons (by decide) rest)
    rw [← Members.put_of_not_mem (fresh_of_nodup distinct)]
    exact readMembers_last (fun left => readString_escaped left name _) (skip_solid (by decide) _) (reads ended)
      (skip_laidBreak isBreak isStep depth (by decide) rest)
  | (next, more) :: members, ⟨plain, plains⟩, depth, before, name, value, text, rest, distinct, reads => by
    have written (after : CodePoints) :
        withBreaks newline (writeMembers (indentedStyle step) (depth + 1) ((next, more) :: members)) ++ after =
          .char ',' :: (laidBreak newline step (depth + 1) ++ .char '"' :: (next.flatMap (escapePoint false) ++
            .char '"' :: .char ':' :: .char ' ' :: (laidOut newline step (depth + 1) more ++
              (withBreaks newline (writeMembers (indentedStyle step) (depth + 1) members) ++ after)))) := by
      simp only [laidOut, laidBreak, writeMembers, Style.separator, indentedStyle, withBreaks_append,
        List.append_assoc, withBreaks_solid (by decide : CodePoint.char ',' ≠ '\n'), withBreaks_quote]
      simp only [quote, List.cons_append, List.append_assoc, List.nil_append]
      rfl
    rw [written]
    refine readMembers_more (fun left => readString_escaped left name _) (skip_solid (by decide) _)
      (reads (endsNumber_cons (by decide) _)) (skip_solid (by decide) _) ?_
    have behind : before ++ (name, value) :: (next, more) :: members =
        before ++ [(name, value)] ++ (next, more) :: members := List.append_cons _ _ _
    rw [skip_laidBreak isBreak isStep _ (by decide), Members.put_of_not_mem (fresh_of_nodup distinct), behind]
    exact readMembers_laidOut members plains depth _ next more _ rest (behind ▸ distinct)
      fun ended => (skip_spaced plain _).symm ▸ readValue_laidOut more plain (depth + 1) ended

end

end Blank

end RoundTrip

end Phrasebook.Json
