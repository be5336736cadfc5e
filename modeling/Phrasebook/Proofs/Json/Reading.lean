import Mathlib
import Phrasebook.Json.Reader

/-!
# What the reader of JSON gives

One lemma for each way in which a reader goes on. `Gives` says what a reader makes of a text: the value
it reads, and what it leaves of the text.
-/

namespace Phrasebook.Json

/-- A reader gives a value and leaves a rest. -/
def Gives {β : Type} {bound : Nat} (result : Except Fault (Read β bound)) (value : β) (rest : CodePoints) :
    Prop :=
  ∃ bounded, result = .ok ⟨value, rest, bounded⟩

theorem Gives.map {β γ : Type} {bound loose : Nat} {result : Except Fault (Read β bound)} {value : β}
    {rest : CodePoints} (h : Gives result value rest) (f : β → γ) (le : bound ≤ loose) :
    Gives (result.bind fun read => .ok (read.map f le)) (f value) rest := by
  obtain ⟨bounded, rfl⟩ := h
  exact ⟨Nat.le_trans bounded le, rfl⟩

theorem Gives.of_read {β : Type} {bound : Nat} {read : Read β bound} {rest : CodePoints} (left : read.rest = rest) :
    Gives (.ok read) read.value rest := by
  subst left
  exact ⟨read.bounded, rfl⟩

/-! ### Blanks -/

theorem skip_blanks {blanks : CodePoints} (isBlank : ∀ c ∈ blanks, isSpace c = true) (rest : CodePoints) :
    skip (blanks ++ rest) = skip rest :=
  List.dropWhile_append_of_pos isBlank

theorem skip_solid {c : CodePoint} (solid : isSpace c = false) (rest : CodePoints) : skip (c :: rest) = c :: rest := by
  simp [skip, solid]

/-! ### Strings -/

theorem readString_end (left : Nat) (rest : CodePoints) : Gives (readString left ('"' :: rest)) [] rest := by
  rw [readString]
  exact ⟨_, rfl⟩

theorem readString_letter {left : Nat} {letter c : CodePoint} {text value rest : CodePoints}
    (stands : escape? letter = some c) (h : Gives (readString left text) value rest) :
    Gives (readString left ('\\' :: letter :: text)) (c :: value) rest := by
  have notUnit : letter ≠ 'u' := by
    rintro rfl
    simp [escape?] at stands
  rw [readString.eq_6 _ _ _ (fun _ _ _ _ _ _ same => absurd same notUnit) notUnit, stands]
  exact h.map _ _

theorem readString_unit {left unit : Nat} {a b c d : CodePoint} {text value rest : CodePoints}
    (digits : hex4? a b c d = some unit) (single : isHigh unit = false) (more : text ≠ [])
    (h : Gives (readString left text) value rest) :
    Gives (readString left ('\\' :: 'u' :: a :: b :: c :: d :: text)) (ofUnit unit :: value) rest := by
  obtain ⟨e, text, rfl⟩ := List.exists_cons_of_ne_nil more
  rw [readString.eq_3]
  simp only [digits, single, Bool.false_eq_true, if_false]
  exact h.map _ _

theorem readString_plain {left : Nat} {c : CodePoint} {text value rest : CodePoints} (notQuote : c ≠ '"')
    (notEscape : c ≠ '\\') (printable : 0x20 ≤ c.value) (h : Gives (readString left text) value rest) :
    Gives (readString left (c :: text)) (c :: value) rest := by
  rw [readString.eq_7 _ _ _ notQuote (fun _ _ _ _ _ _ same => absurd same notEscape)
    (fun _ same => absurd same notEscape) (fun same => absurd same notEscape)
    (fun _ _ same => absurd same notEscape), if_neg (by omega)]
  exact h.map _ _

/-! ### Values -/

theorem readPlain_word {word : CodePoints} {value : Json}
    (known : ∀ rest, words.find? (fun other => other.1.isPrefixOf (word ++ rest)) = some (word, value))
    (rest : CodePoints) : Gives (readPlain (word ++ rest)) value rest := by
  have left : (word ++ rest).drop word.length = rest := List.drop_left
  unfold readPlain
  rw [known]
  exact Gives.of_read left

theorem readValue_plain {c : CodePoint} {text rest : CodePoints} {value : Json} (plain : c ≠ '"' ∧ c ≠ '{' ∧ c ≠ '[')
    (h : Gives (readPlain (c :: text)) value rest) : Gives (readValue (c :: text)) value rest := by
  rw [readValue.eq_4 _ (fun _ same => plain.1 (List.cons.inj same).1)
    (fun _ same => plain.2.1 (List.cons.inj same).1) (fun _ same => plain.2.2 (List.cons.inj same).1)]
  exact h

theorem readValue_word {c : CodePoint} {word : CodePoints} {value : Json} (plain : c ≠ '"' ∧ c ≠ '{' ∧ c ≠ '[')
    (known : ∀ rest, words.find? (fun other => other.1.isPrefixOf (c :: word ++ rest)) = some (c :: word, value))
    (rest : CodePoints) : Gives (readValue (c :: word ++ rest)) value rest :=
  readValue_plain plain (readPlain_word known rest)

theorem readValue_string {text value rest : CodePoints} (h : ∀ left, Gives (readString left text) value rest) :
    Gives (readValue ('"' :: text)) (.string value) rest := by
  rw [readValue]
  exact (h _).map _ _

theorem readValue_emptyArray (rest : CodePoints) : Gives (readValue ('[' :: ']' :: rest)) (.array []) rest := by
  have inside : skip (.char ']' :: rest) = .char ']' :: rest := skip_solid (by decide) rest
  rw [readValue]
  split
  · next same =>
    obtain ⟨-, rfl⟩ := List.cons.inj (same.symm.trans inside)
    exact ⟨_, rfl⟩
  · next other => exact absurd inside (other _)

theorem readValue_array {text rest : CodePoints} {items : List Json} (filled : (skip text).head? ≠ some (.char ']'))
    (h : Gives (readItems (skip text)) items rest) : Gives (readValue ('[' :: text)) (.array items) rest := by
  rw [readValue]
  split
  · next same => simp [same] at filled
  · exact h.map _ _

theorem readValue_emptyObject (rest : CodePoints) : Gives (readValue ('{' :: '}' :: rest)) (.object []) rest := by
  have inside : skip (.char '}' :: rest) = .char '}' :: rest := skip_solid (by decide) rest
  rw [readValue]
  split
  · next same =>
    obtain ⟨-, rfl⟩ := List.cons.inj (same.symm.trans inside)
    exact ⟨_, rfl⟩
  · next other => exact absurd inside (other _)

theorem readValue_object {text rest : CodePoints} {members : List (CodePoints × Json)}
    (filled : (skip text).head? ≠ some (.char '}')) (h : Gives (readMembers [] (skip text)) members rest) :
    Gives (readValue ('{' :: text)) (.object members) rest := by
  rw [readValue]
  split
  · next same => simp [same] at filled
  · exact h.map _ _

/-! ### Items -/

theorem readItems_last {text after rest : CodePoints} {item : Json} (h : Gives (readValue text) item after)
    (closed : skip after = .char ']' :: rest) : Gives (readItems text) [item] rest := by
  obtain ⟨bounded, read⟩ := h
  rw [readItems, read]
  simp only [bind, Except.bind]
  split
  · next same =>
    obtain ⟨-, rfl⟩ := List.cons.inj (same.symm.trans closed)
    exact ⟨_, rfl⟩
  · next same => simp [closed] at same
  · next other _ => exact absurd closed (other _)

theorem readItems_more {text after next rest : CodePoints} {item : Json} {items : List Json}
    (h : Gives (readValue text) item after) (separated : skip after = .char ',' :: next)
    (more : Gives (readItems (skip next)) items rest) : Gives (readItems text) (item :: items) rest := by
  obtain ⟨bounded, read⟩ := h
  rw [readItems, read]
  simp only [bind, Except.bind]
  split
  · next same => simp [separated] at same
  · next same =>
    obtain ⟨-, rfl⟩ := List.cons.inj (same.symm.trans separated)
    exact more.map _ _
  · next _ other => exact absurd separated (other _)

/-! ### Members -/

section Members

variable {before members : List (CodePoints × Json)} {text name afterName afterColon after rest : CodePoints}
  {value : Json}

theorem readMembers_last (named : ∀ left, Gives (readString left text) name afterName)
    (colon : skip afterName = .char ':' :: afterColon) (h : Gives (readValue (skip afterColon)) value after)
    (closed : skip after = .char '}' :: rest) :
    Gives (readMembers before ('"' :: text)) (Members.put before name value) rest := by
  obtain ⟨bounded, readName⟩ := named (text.length + 1)
  obtain ⟨bounded', read⟩ := h
  rw [readMembers, readName]
  simp only [bind, Except.bind]
  split
  · next same =>
    obtain ⟨-, rfl⟩ := List.cons.inj (same.symm.trans colon)
    rw [read]
    dsimp only
    split
    · next same =>
      obtain ⟨-, rfl⟩ := List.cons.inj (same.symm.trans closed)
      exact ⟨_, rfl⟩
    · next same => simp [closed] at same
    · next other _ => exact absurd closed (other _)
  · next other => exact absurd colon (other _)

theorem readMembers_more {next : CodePoints} (named : ∀ left, Gives (readString left text) name afterName)
    (colon : skip afterName = .char ':' :: afterColon) (h : Gives (readValue (skip afterColon)) value after)
    (separated : skip after = .char ',' :: next)
    (more : Gives (readMembers (Members.put before name value) (skip next)) members rest) :
    Gives (readMembers before ('"' :: text)) members rest := by
  obtain ⟨bounded, readName⟩ := named (text.length + 1)
  obtain ⟨bounded', read⟩ := h
  rw [readMembers, readName]
  simp only [bind, Except.bind]
  split
  · next same =>
    obtain ⟨-, rfl⟩ := List.cons.inj (same.symm.trans colon)
    rw [read]
    dsimp only
    split
    · next same => simp [separated] at same
    · next same =>
      obtain ⟨-, rfl⟩ := List.cons.inj (same.symm.trans separated)
      exact more.map _ _
    · next _ other => exact absurd separated (other _)
  · next other => exact absurd colon (other _)

end Members

end Phrasebook.Json
