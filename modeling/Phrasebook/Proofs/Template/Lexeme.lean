import Phrasebook.Proofs.Template.Call

/-!
How tokens are cut from a text, and how far they reach: no token goes beyond the text that it is cut from.
-/

namespace Phrasebook.Template

theorem tokens_nil (offset : Nat) : tokens offset [] = .ok [] := by
  rw [tokens.eq_def]

theorem tokens_blank {c : Char} {rest : Text} (offset : Nat) (blank : Text.isBlank c = true) :
    tokens offset (c :: rest) = tokens (offset + 1) rest := by
  rw [tokens.eq_def]
  exact if_pos blank

theorem tokens_solid {c : Char} {rest : Text} (offset : Nat) (solid : Text.isBlank c = false) :
    tokens offset (c :: rest) =
      (match lexeme? c rest with
      | none => .error (.malformed (.unexpectedCharacter c) offset)
      | some (kind, length) => do
        let others ← tokens (offset + 1 + (length - 1)) (rest.drop (length - 1))
        .ok (⟨kind, c :: rest.take (length - 1), ⟨offset, offset + 1 + (length - 1)⟩⟩ :: others)) := by
  rw [tokens.eq_def]
  exact if_neg (by simp [solid])

theorem unescapedMark_le {mark before : Char} {text : Text} {n : Nat}
    (h : unescapedMark mark before text = some n) : n ≤ text.length := by
  induction text generalizing before n with
  | nil => simp [unescapedMark] at h
  | cons c rest ih =>
    unfold unescapedMark at h
    split at h
    · obtain rfl := Option.some.inj h
      simp
    · obtain ⟨shorter, found, rfl⟩ := Option.map_eq_some_iff.mp h
      have := ih found
      simp only [List.length_cons]
      omega

theorem lastMark_le {mark : Char} {text : Text} {n : Nat} (h : lastMark mark text = some n) :
    n ≤ text.length := by
  induction text generalizing n with
  | nil => simp [lastMark] at h
  | cons c rest ih =>
    unfold lastMark at h
    split at h
    · next shorter found =>
      obtain rfl := Option.some.inj h
      have := ih found
      simp only [List.length_cons]
      omega
    · split at h
      · obtain rfl := Option.some.inj h
        simp
      · simp at h

theorem delimited?_le {opening mark : Char} {text : Text} {n : Nat}
    (h : delimited? opening mark text = some n) : n ≤ text.length := by
  unfold delimited? at h
  split at h
  · next found =>
    obtain rfl := Option.some.inj h
    exact unescapedMark_le found
  · exact lastMark_le h

theorem takeWhile_drop_le (keep : Char → Bool) {text : Text} {skipped : Nat}
    (h : skipped ≤ text.length) :
    skipped + ((text.drop skipped).takeWhile keep).length ≤ text.length := by
  have : ((text.drop skipped).takeWhile keep).length ≤ (text.drop skipped).length :=
    (List.takeWhile_sublist keep).length_le
  simp only [List.length_drop] at this
  omega

theorem number?_le {text : Text} {n : Nat} (h : number? text = some n) : n ≤ text.length := by
  unfold number? at h
  extract_lets sign whole fraction length at h
  have signLe : sign ≤ text.length := by
    unfold sign
    split <;> simp
  have wholeLe : sign + whole ≤ text.length := takeWhile_drop_le isDigit signLe
  have lengthLe : length ≤ text.length := by
    unfold length
    split
    · omega
    · next positive =>
      have fractionLe : 1 + fraction ≤ text.length - (sign + whole) := by
        unfold fraction at positive ⊢
        rw [← List.length_drop]
        split
        · next rest found =>
          have : (rest.takeWhile isDigit).length ≤ rest.length :=
            (List.takeWhile_sublist isDigit).length_le
          simp only [found, List.length_cons]
          omega
        · next other => exact absurd (by split <;> simp_all) positive
      omega
  split at h
  · obtain rfl := Option.some.inj h
    exact lengthLe
  · simp at h

theorem word?_le {word text : Text} {n : Nat} (h : word? word text = some n) : n ≤ text.length := by
  unfold word? at h
  split at h
  · next matched =>
    obtain rfl := Option.some.inj h
    simp only [Bool.and_eq_true, Text.startsWith] at matched
    exact (List.isPrefixOf_iff_prefix.mp matched.1).length_le
  · simp at h

theorem name?_le {text : Text} {n : Nat} (h : name? text = some n) : n ≤ text.length := by
  unfold name? at h
  extract_lets length at h
  split at h
  · obtain rfl := Option.some.inj h
    exact (List.takeWhile_sublist _).length_le
  · simp at h

theorem openParams?_le {text : Text} {n : Nat} (h : openParams? text = some n) :
    n ≤ text.length := by
  unfold openParams? at h
  split at h
  · next rest =>
    simp only at h
    split at h
    · next more bar =>
      split at h
      · simp at h
      · obtain rfl := Option.some.inj h
        have := congrArg List.length bar
        simp only [List.length_drop, List.length_cons] at this ⊢
        omega
    · simp at h
  · simp at h

section Alternatives

variable {limit : Nat} {kind : TokenKind}

/-- Where a token is found, it is not longer than `limit`. -/
def AtMost (limit : Nat) (found : Option (TokenKind × Nat)) : Prop :=
  ∀ lexeme, found = some lexeme → lexeme.2 ≤ limit

theorem AtMost.orElse {first second : Option (TokenKind × Nat)} (h : AtMost limit first)
    (h' : AtMost limit second) : AtMost limit (first <|> second) := by
  cases first with
  | none => exact h'
  | some lexeme => exact h

theorem AtMost.map {found : Option Nat} (longer : Nat) (h : ∀ n, found = some n → n + longer ≤ limit) :
    AtMost limit (found.map fun n => (kind, n + longer)) := by
  intro lexeme isFound
  obtain ⟨n, here, rfl⟩ := Option.map_eq_some_iff.mp isFound
  exact h n here

theorem AtMost.ite {test : Prop} [Decidable test] {found : Option (TokenKind × Nat)}
    (h : test → AtMost limit found) : AtMost limit (if test then found else none) := by
  split
  · next holds => exact h holds
  · intro lexeme isFound
    simp at isFound

theorem AtMost.some {n : Nat} (h : n ≤ limit) : AtMost limit (some (kind, n)) := by
  intro lexeme isFound
  obtain rfl := Option.some.inj isFound
  exact h

end Alternatives

theorem lexeme?_le {c : Char} {rest : Text} {kind : TokenKind} {n : Nat}
    (h : lexeme? c rest = some (kind, n)) : n ≤ rest.length + 1 := by
  have one {kind : TokenKind} : AtMost (rest.length + 1) (some (kind, 1)) := .some (by omega)
  have delimited {opening mark : Char} {kind : TokenKind} : AtMost (rest.length + 1)
      ((delimited? opening mark rest).map fun n => (kind, n + 1)) :=
    .map 1 fun n found => by have := delimited?_le found; omega
  have dots : Text.startsWith (c :: rest) ['.', '.'] = true → 2 ≤ rest.length + 1 := fun starts =>
    (List.isPrefixOf_iff_prefix.mp starts).length_le
  suffices AtMost (rest.length + 1) (lexeme? c rest) from this _ h
  unfold lexeme?
  exact .orElse (.map 0 fun n => openParams?_le) <|
    .orElse (.ite fun _ => one) <| .orElse (.ite fun _ => one) <| .orElse (.ite fun _ => one) <|
    .orElse (.ite fun _ => one) <| .orElse (.ite fun _ => delimited) <| .orElse (.ite fun _ => one) <|
    .orElse (.map 0 fun n => number?_le) <|
    .orElse (.map 0 fun n => word?_le) <| .orElse (.map 0 fun n => word?_le) <|
    .orElse (.map 0 fun n => word?_le) <| .orElse (.map 0 fun n => word?_le) <|
    .orElse (.ite fun starts => .some (dots starts)) <| .orElse (.ite fun _ => one) <|
    .orElse (.ite fun _ => one) <| .orElse (.map 0 fun n => name?_le) <|
    .ite fun _ => delimited

end Phrasebook.Template
