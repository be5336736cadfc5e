import Mathlib.Data.List.Infix
import Phrasebook.Markup.Event
import Phrasebook.Proofs.Markup.StartTag
import Phrasebook.Proofs.Markup.RawText

/-!
# What markup depends on

Markup ends with a closing mark, and the step that takes it is the same in front of another rest without
new quotes: `openStep_elsewhere`. The readers for ends of constructs look at nothing behind the closing
mark that they find, so each of them has a lemma about texts with a closing mark in them.
-/

namespace Phrasebook.Markup

open Text

/-! ### Ends of constructs -/

/-- A reader takes a text up to and with a closing mark, and does the same in front of another rest. -/
def Closes (read : Text → Option Nat) (text : Text) (length : Nat) : Prop :=
  ∃ part rest, text = part ++ '>' :: rest ∧ length = part.length + 1 ∧
    ∀ rest', read (part ++ '>' :: rest') = some length

theorem distanceTo?_closes {text : Text} {distance : Nat} (h : distanceTo? '>' text = some distance) :
    Closes (fun text => (distanceTo? '>' text).map (· + 1)) text (distance + 1) := by
  obtain ⟨inside, found, before⟩ := List.findIdx?_eq_some_iff_getElem.mp h
  have here : text[distance] = '>' := by simpa using found
  have long : (text.take distance).length = distance := by
    rw [List.length_take]
    omega
  have noBracket : (text.take distance).findIdx? (· = '>') = none := by
    rw [List.findIdx?_eq_none_iff]
    intro c member
    obtain ⟨index, bounded, rfl⟩ := List.mem_iff_getElem.mp member
    rw [List.getElem_take]
    simpa using before index (by omega)
  refine ⟨text.take distance, text.drop (distance + 1), ?_, by rw [long], fun rest' => ?_⟩
  · rw [← here, List.cons_getElem_drop_succ, List.take_append_drop]
  · dsimp only
    rw [distanceTo?, List.findIdx?_append, List.findIdx?_cons, if_pos (by simp), noBracket, long]
    simp

theorem closing?_bracket {marks : List Char} (plain : '>' ∉ marks) (part rest rest' : Text) :
    closing? (marks ++ ['>']) (part ++ '>' :: rest') = closing? (marks ++ ['>']) (part ++ '>' :: rest) := by
  induction marks generalizing part with
  | nil =>
    have room := length_takeWhile_le isBlank part
    simp only [List.nil_append, closing?, takeWhile_bracket isBlank_bracket, drop_bracket room]
    cases part.drop (part.takeWhile isBlank).length <;> rfl
  | cons mark marks ih =>
    obtain ⟨other, plain⟩ := not_or.mp (fun h => plain (List.mem_cons.mpr h))
    have room := length_takeWhile_le isBlank part
    simp only [List.cons_append, closing?, takeWhile_bracket isBlank_bracket, drop_bracket room]
    cases part.drop (part.takeWhile isBlank).length with
    | nil => simp only [List.nil_append, if_neg other]
    | cons c more => simp only [List.cons_append, ih plain]

theorem closing?_closes {marks : List Char} (plain : '>' ∉ marks) {text : Text} {length : Nat}
    (h : closing? (marks ++ ['>']) text = some length) : Closes (closing? (marks ++ ['>'])) text length := by
  suffices parts : ∃ part rest, text = part ++ '>' :: rest ∧ length = part.length + 1 by
    obtain ⟨part, rest, rfl, long⟩ := parts
    exact ⟨part, rest, rfl, long, fun rest' => (closing?_bracket plain part rest rest').trans h⟩
  clear plain
  induction marks generalizing text length with
  | nil =>
    simp only [List.nil_append, closing?] at h
    split at h
    · next c rest dropped =>
      obtain ⟨rfl, rfl⟩ : c = '>' ∧ (text.takeWhile isBlank).length + 1 = length := by
        simpa [Nat.add_comm] using h
      refine ⟨text.takeWhile isBlank, rest, ?_, rfl⟩
      rw [← dropped]
      exact List.prefix_append_drop (List.takeWhile_prefix isBlank)
    · simp at h
  | cons mark marks ih =>
    simp only [List.cons_append, closing?] at h
    split at h
    · next c rest dropped =>
      split at h
      · obtain ⟨shorter, found, rfl⟩ := Option.map_eq_some_iff.mp h
        obtain ⟨part, behind, rfl, rfl⟩ := ih found
        refine ⟨text.takeWhile isBlank ++ c :: part, behind, ?_, ?_⟩
        · rw [List.append_assoc, List.cons_append, ← dropped]
          exact List.prefix_append_drop (List.takeWhile_prefix isBlank)
        · simp only [List.length_append, List.length_cons]
          omega
      · simp at h
    · simp at h

theorem throughClosing?_pos {first : Char} {marks : List Char} {text : Text} {length : Nat}
    (h : throughClosing? first marks text = some length) : 0 < length := by
  cases text with
  | nil => simp [throughClosing?] at h
  | cons c rest =>
    rw [throughClosing?] at h
    split at h
    · obtain rfl := Option.some.inj h
      exact Nat.succ_pos _
    · obtain ⟨shorter, -, rfl⟩ := Option.map_eq_some_iff.mp h
      exact Nat.succ_pos _

theorem throughClosing?_bracket {first : Char} {marks : List Char} (other : first ≠ '>')
    (plain : '>' ∉ marks) {part rest : Text} {length : Nat}
    (h : throughClosing? first (marks ++ ['>']) (part ++ '>' :: rest) = some length)
    (near : length ≤ part.length + 1) (rest' : Text) :
    throughClosing? first (marks ++ ['>']) (part ++ '>' :: rest') = some length := by
  induction part generalizing length with
  | nil =>
    simp only [List.nil_append, throughClosing?, if_neg other.symm] at h
    obtain ⟨shorter, found, rfl⟩ := Option.map_eq_some_iff.mp h
    have := throughClosing?_pos found
    simp only [List.length_nil] at near
    omega
  | cons c part ih =>
    simp only [List.cons_append, throughClosing?, closing?_bracket plain part rest rest'] at h ⊢
    generalize (if c = first then closing? (marks ++ ['>']) (part ++ '>' :: rest) else none) = closed at h ⊢
    cases closed with
    | some found => exact h
    | none =>
      obtain ⟨shorter, found, rfl⟩ := Option.map_eq_some_iff.mp h
      rw [List.length_cons] at near
      simp only [ih found (by omega), Option.map_some]

theorem throughClosing?_closes {first : Char} {marks : List Char} (other : first ≠ '>')
    (plain : '>' ∉ marks) {text : Text} {length : Nat}
    (h : throughClosing? first (marks ++ ['>']) text = some length) :
    Closes (throughClosing? first (marks ++ ['>'])) text length := by
  suffices parts : ∃ part rest, text = part ++ '>' :: rest ∧ length = part.length + 1 by
    obtain ⟨part, rest, rfl, long⟩ := parts
    exact ⟨part, rest, rfl, long, throughClosing?_bracket other plain h (Nat.le_of_eq long)⟩
  induction text generalizing length with
  | nil => simp [throughClosing?] at h
  | cons c rest ih =>
    rw [throughClosing?] at h
    split at h
    · next found closed =>
      obtain rfl := Option.some.inj h
      split at closed
      · obtain ⟨part, behind, rfl, rfl, -⟩ := closing?_closes plain closed
        exact ⟨c :: part, behind, rfl, rfl⟩
      · simp at closed
    · obtain ⟨shorter, found, rfl⟩ := Option.map_eq_some_iff.mp h
      obtain ⟨part, behind, rfl, rfl⟩ := ih found
      exact ⟨c :: part, behind, rfl, rfl⟩

theorem throughComment?_cons (c : Char) (rest : Text) : throughComment? (c :: rest) =
    match if c = '-' ∧ rest.head? = some '-' then closing? ['>'] rest.tail else none with
    | some length => some (length + 2)
    | none => (throughComment? rest).map (· + 1) := by
  by_cases dashes : c = '-' ∧ rest.head? = some '-'
  · obtain ⟨rfl, first⟩ := dashes
    obtain ⟨more, rfl⟩ := List.head?_eq_some_iff.mp first
    rw [throughComment?, if_pos ⟨rfl, rfl⟩]
    rfl
  · rw [if_neg dashes, throughComment?]
    rintro more rfl rfl
    exact dashes ⟨rfl, rfl⟩

theorem throughComment?_pos {text : Text} {length : Nat} (h : throughComment? text = some length) :
    0 < length := by
  cases text with
  | nil => simp [throughComment?] at h
  | cons c rest =>
    rw [throughComment?_cons] at h
    split at h
    · obtain rfl := Option.some.inj h
      exact Nat.succ_pos _
    · obtain ⟨shorter, -, rfl⟩ := Option.map_eq_some_iff.mp h
      exact Nat.succ_pos _

theorem throughComment?_bracket {part rest : Text} {length : Nat}
    (h : throughComment? (part ++ '>' :: rest) = some length) (near : length ≤ part.length + 1)
    (rest' : Text) : throughComment? (part ++ '>' :: rest') = some length := by
  induction part generalizing length with
  | nil =>
    rw [List.nil_append, throughComment?_cons, if_neg (by simp)] at h
    obtain ⟨shorter, found, rfl⟩ := Option.map_eq_some_iff.mp h
    have := throughComment?_pos found
    simp only [List.length_nil] at near
    omega
  | cons c part ih =>
    -- What is looked at behind a dash is the same for both rests.
    have same : (if c = '-' ∧ (part ++ '>' :: rest').head? = some '-' then
          closing? ['>'] (part ++ '>' :: rest').tail else none) =
        if c = '-' ∧ (part ++ '>' :: rest).head? = some '-' then
          closing? ['>'] (part ++ '>' :: rest).tail else none := by
      rw [head?_bracket part rest rest']
      cases part with
      | nil => simp
      | cons d part => exact ite_congr rfl (fun _ => @closing?_bracket [] (by simp) part rest rest') fun _ => rfl
    rw [List.cons_append, throughComment?_cons] at h ⊢
    rw [same]
    split at h
    · exact h
    · obtain ⟨shorter, found, rfl⟩ := Option.map_eq_some_iff.mp h
      rw [List.length_cons] at near
      rw [ih found (by omega), Option.map_some]

theorem throughComment?_closes {text : Text} {length : Nat} (h : throughComment? text = some length) :
    Closes throughComment? text length := by
  suffices parts : ∃ part rest, text = part ++ '>' :: rest ∧ length = part.length + 1 by
    obtain ⟨part, rest, rfl, long⟩ := parts
    exact ⟨part, rest, rfl, long, throughComment?_bracket h (Nat.le_of_eq long)⟩
  induction text generalizing length with
  | nil => simp [throughComment?] at h
  | cons c rest ih =>
    rw [throughComment?_cons] at h
    split at h
    · next found closed =>
      obtain rfl := Option.some.inj h
      split at closed
      · next dashes =>
        obtain ⟨more, rfl⟩ := List.head?_eq_some_iff.mp dashes.2
        obtain ⟨part, behind, same, rfl, -⟩ := @closing?_closes [] (by simp) _ _ closed
        rw [List.tail_cons] at same
        exact ⟨c :: '-' :: part, behind, by rw [same]; rfl, rfl⟩
      · simp at closed
    · obtain ⟨shorter, found, rfl⟩ := Option.map_eq_some_iff.mp h
      obtain ⟨part, behind, rfl, rfl⟩ := ih found
      exact ⟨c :: part, behind, rfl, rfl⟩

/-! ### Raw elements -/

theorem asciiLower_bracket : asciiLower '>' = '>' := by decide

theorem endTagOf?_bracket {element : Text} (plain : '>' ∉ element) (part rest rest' : Text) :
    endTagOf? element (part ++ '>' :: rest') = endTagOf? element (part ++ '>' :: rest) := by
  rcases part with _ | ⟨c, _ | ⟨d, part⟩⟩
  · rfl
  · rw [endTagOf?.eq_def, endTagOf?.eq_def]
    split
    · next h => simp at h
    · split
      · next h => simp at h
      · rfl
  · by_cases opened : c = '<' ∧ d = '/'
    · obtain ⟨rfl, rfl⟩ := opened
      have room := length_takeWhile_le isBlank part
      obtain ⟨behind, isBehind⟩ : ∃ behind, part.drop (part.takeWhile isBlank).length = behind := ⟨_, rfl⟩
      simp only [List.cons_append, endTagOf?, takeWhile_bracket isBlank_bracket, ← List.drop_drop,
        drop_bracket room, isBehind]
      by_cases long : element.length ≤ behind.length
      · have same := @closing?_bracket [] (by simp) (behind.drop element.length) rest rest'
        rw [List.nil_append] at same
        simp only [drop_bracket long, List.take_append_of_le_length long, same]
      · -- A closing mark stands where the name would have to be.
        have differs (rest : Text) : ((behind ++ '>' :: rest).take element.length).map asciiLower ≠ element := by
          intro same
          apply plain
          rw [← same]
          refine List.mem_map.mpr ⟨'>', ?_, asciiLower_bracket⟩
          rw [List.take_append]
          obtain ⟨count, isCount⟩ : ∃ count, element.length - behind.length = count + 1 :=
            ⟨element.length - behind.length - 1, by omega⟩
          rw [isCount, List.take_succ_cons]
          exact List.mem_append_right _ List.mem_cons_self
        rw [if_neg (differs rest), if_neg (differs rest')]
    · have other (rest : Text) : endTagOf? element (c :: d :: part ++ '>' :: rest) = none := by
        rw [endTagOf?.eq_def]
        split
        · next same =>
          simp only [List.cons_append, List.cons.injEq] at same
          exact absurd ⟨same.1, same.2.1⟩ opened
        · rfl
      rw [other, other]

theorem endTagOf?_closes {element : Text} (plain : '>' ∉ element) {text : Text} {length : Nat}
    (h : endTagOf? element text = some length) : Closes (endTagOf? element) text length := by
  suffices parts : ∃ part rest, text = part ++ '>' :: rest ∧ length = part.length + 1 by
    obtain ⟨part, rest, rfl, long⟩ := parts
    exact ⟨part, rest, rfl, long, fun rest' => (endTagOf?_bracket plain part rest rest').trans h⟩
  unfold endTagOf? at h
  split at h
  · next more =>
    dsimp only at h
    obtain ⟨blanks, isBlanks⟩ : ∃ blanks, (more.takeWhile isBlank).length = blanks := ⟨_, rfl⟩
    simp only [isBlanks] at h
    split at h
    · obtain ⟨shorter, found, rfl⟩ := Option.map_eq_some_iff.mp h
      obtain ⟨part, rest, same, rfl, -⟩ := @closing?_closes [] (by simp) _ _ found
      have cut := List.take_append_drop (blanks + element.length) more
      have long : (more.take (blanks + element.length)).length = blanks + element.length := by
        have := congrArg List.length same
        simp only [List.length_drop, List.length_append, List.length_cons] at this
        rw [List.length_take]
        omega
      refine ⟨'<' :: '/' :: more.take (blanks + element.length) ++ part, rest, ?_, ?_⟩
      · rw [List.append_assoc, ← same, List.cons_append, List.cons_append, cut]
      · simp only [List.length_append, List.length_cons, long]
        omega
    · simp at h
  · simp at h

theorem distanceToEnd?_bracket {element : Text} (plain : '>' ∉ element) {part rest : Text} {distance : Nat}
    (h : distanceToEnd? element (part ++ '>' :: rest) = some distance) (near : distance ≤ part.length)
    (rest' : Text) : distanceToEnd? element (part ++ '>' :: rest') = some distance := by
  induction part generalizing distance with
  | nil =>
    obtain rfl : distance = 0 := Nat.le_zero.mp near
    rw [List.nil_append, distanceToEnd?] at h
    split at h
    · next ends => simp [endTagOf?] at ends
    · obtain ⟨shorter, -, wrong⟩ := Option.map_eq_some_iff.mp h
      simp at wrong
  | cons c part ih =>
    have same := endTagOf?_bracket plain (c :: part) rest rest'
    rw [List.cons_append, List.cons_append] at same
    rw [List.cons_append, distanceToEnd?] at h ⊢
    rw [same]
    split at h
    · next ends => rwa [if_pos ends]
    · next goesOn =>
      obtain ⟨shorter, found, rfl⟩ := Option.map_eq_some_iff.mp h
      rw [List.length_cons] at near
      rw [if_neg goesOn, ih found (by omega), Option.map_some]

/-! ### Opening marks -/

/-- A step takes markup up to and with a closing mark, and the same markup in front of another rest. -/
def TakenAlike (rest : Text) (found : Step) : Prop :=
  ∃ part behind, rest = part ++ '>' :: behind ∧ found.tail? = some (part.length + 1) ∧
    ∀ behind', NoNewQuotes behind behind' → openStep (part ++ '>' :: behind') = found

theorem throughBracket_takenAlike {c : Char} {rest : Text} {tail : Nat}
    (h : (throughBracket 1 rest).tail? = some tail)
    (same : ∀ part behind behind', rest = part ++ '>' :: behind →
      openStep (c :: (part ++ '>' :: behind')) = throughBracket 1 (part ++ '>' :: behind')) :
    TakenAlike (c :: rest) (throughBracket 1 rest) := by
  unfold throughBracket at h
  split at h
  · next distance found =>
    obtain ⟨part, behind, parts, long, elsewhere⟩ := distanceTo?_closes found
    have read : throughBracket 1 rest = .markup (1 + distance + 1) := by rw [throughBracket, found]
    refine ⟨c :: part, behind, by rw [parts]; rfl, ?_, fun behind' _ => ?_⟩
    · rw [read, List.length_cons, ← long]
      exact congrArg some (by omega)
    · have found' : distanceTo? '>' (part ++ '>' :: behind') = some distance := by
        simpa using elsewhere behind'
      rw [List.cons_append, same part behind behind' parts, read, throughBracket, found']
  · simp [Step.tail?] at h

theorem openStep_slash {more : Text} (closes : more.head? ≠ some '>') :
    openStep ('/' :: more) = throughBracket 1 more := by
  rw [openStep]
  rintro rest rfl
  exact closes rfl

theorem openStep_bang {more : Text} (comment : ¬['-', '-'] <+: more) (bracket : more.head? ≠ some '[') :
    openStep ('!' :: more) = throughBracket 1 more := by
  rw [openStep]
  · rintro rest rfl
    exact comment ⟨rest, rfl⟩
  · rintro rest rfl
    exact bracket rfl

/-- How the end of a marked section is found, by the name of the section. -/
def sectionEnd? (name rest : Text) : Option (Option Nat) :=
  let word := String.ofList (name.map asciiLower)
  if ["temp", "cdata", "ignore", "include", "rcdata"].contains word then
    some (throughClosing? ']' [']', '>'] rest)
  else if ["if", "else", "endif"].contains word then some (throughClosing? ']' ['>'] rest)
  else none

theorem sectionStep_cons (c : Char) (more : Text) : sectionStep (c :: more) =
    if !isAsciiLetter c then .refuse .badDeclaration
    else
      let name := (c :: more).takeWhile isSectionChar
      if (((c :: more).drop name.length).dropWhile isBlank).isEmpty then .incomplete
      else match sectionEnd? name (c :: more) with
        | some (some length) => .markup (length + 2)
        | some none => .incomplete
        | none => .refuse .badDeclaration := by
  rw [sectionStep]
  unfold sectionEnd?
  dsimp only
  split
  · rfl
  · split
    · rfl
    · split
      · cases throughClosing? ']' [']', '>'] (c :: more) <;> rfl
      · split
        · cases throughClosing? ']' ['>'] (c :: more) <;> rfl
        · rfl

theorem sectionEnd?_closes {name rest : Text} {length : Nat} (h : sectionEnd? name rest = some (some length)) :
    Closes (fun rest => (sectionEnd? name rest).join) rest length := by
  unfold sectionEnd? at h ⊢
  dsimp only at h ⊢
  split at h
  · next here =>
    simp only [if_pos here, Option.join_some]
    exact @throughClosing?_closes ']' [']'] (by decide) (by decide) _ _ (Option.some.inj h)
  · next other =>
    split at h
    · next here =>
      simp only [if_neg other, if_pos here, Option.join_some]
      exact @throughClosing?_closes ']' [] (by decide) (by decide) _ _ (Option.some.inj h)
    · simp at h

theorem sectionStep_takenAlike {rest : Text} {tail : Nat} (h : (sectionStep rest).tail? = some tail) :
    TakenAlike ('!' :: '[' :: rest) (sectionStep rest) := by
  rcases rest with _ | ⟨c, more⟩
  · simp [sectionStep, Step.tail?] at h
  obtain ⟨found, isFound⟩ : ∃ found, sectionStep (c :: more) = found := ⟨_, rfl⟩
  rw [isFound] at h ⊢
  have read := isFound
  rw [sectionStep_cons] at read
  dsimp only at read
  split at read
  · simp [← read, Step.tail?] at h
  · next letter =>
    split at read
    · simp [← read, Step.tail?] at h
    · split at read
      · next length ends =>
        obtain ⟨part, behind, parts, rfl, elsewhere⟩ := sectionEnd?_closes ends
        rcases part with _ | ⟨d, part⟩
        · obtain ⟨rfl, -⟩ := List.cons.inj parts
          simp [isAsciiLetter] at letter
        obtain ⟨rfl, isMore⟩ : c = d ∧ more = part ++ '>' :: behind := List.cons.inj parts
        subst isMore
        refine ⟨'!' :: '[' :: c :: part, behind, rfl, by rw [← read]; rfl, fun behind' _ => ?_⟩
        have room := length_takeWhile_le isSectionChar (c :: part)
        have name := @takeWhile_bracket isSectionChar (by decide) (c :: part)
        have filled (rest : Text) : ((c :: part ++ '>' :: rest).drop
            ((c :: part).takeWhile isSectionChar).length).dropWhile isBlank ≠ [] := by
          rw [drop_bracket room, ne_eq, List.dropWhile_eq_nil_iff]
          intro all
          exact absurd (all '>' (List.mem_append_right _ List.mem_cons_self)) (by decide)
        have ends' := elsewhere behind'
        dsimp only at ends'
        rw [← List.cons_append, name] at ends'
        have ends' := Option.join_eq_some_iff.mp ends'
        have step : openStep ('!' :: '[' :: c :: part ++ '>' :: behind') =
            sectionStep (c :: (part ++ '>' :: behind')) := rfl
        rw [step, sectionStep_cons, if_neg letter]
        dsimp only
        rw [← List.cons_append, name, if_neg (by simpa using filled behind'), ends']
        exact read
      · simp [← read, Step.tail?] at h
      · simp [← read, Step.tail?] at h

theorem openStep_letter {c : Char} (letter : isAsciiLetter c = true) (more : Text) :
    openStep (c :: more) =
      match startTag ('<' :: c :: more) with
      | .incomplete => .incomplete
      | .text length => .text (length - 1)
      | .longReference digits => .refuse (.longReference digits)
      | .selfClosing length => .markup (length - 1)
      | .element name length =>
        if rawElements.contains name then .enter name (length - 1) else .markup (length - 1) := by
  have other {mark : Char} {rest : Text} (same : c :: more = mark :: rest) : isAsciiLetter mark = true :=
    (List.cons.inj same).1 ▸ letter
  rw [openStep.eq_def]
  split
  · next same => cases same
  · next same => exact absurd (other same) (by decide)
  · next same => exact absurd (other same) (by decide)
  · next same => exact absurd (other same) (by decide)
  · next same => exact absurd (other same) (by decide)
  · next same => exact absurd (other same) (by decide)
  · next same => exact absurd (other same) (by decide)
  · next same =>
    obtain ⟨rfl, rfl⟩ := List.cons.inj same
    exact (if_pos letter).trans (by cases startTag ('<' :: c :: more) <;> rfl)

/-- Markup is taken alike in front of every other rest. -/
theorem openStep_takenAlike {rest : Text} {tail : Nat} (h : (openStep rest).tail? = some tail)
    (notText : ∀ tail, openStep rest ≠ .text tail) : TakenAlike rest (openStep rest) := by
  rcases rest with _ | ⟨c, more⟩
  · simp [openStep, Step.tail?] at h
  by_cases slash : c = '/'
  · subst slash
    by_cases closes : more.head? = some '>'
    · obtain ⟨rest, rfl⟩ := List.head?_eq_some_iff.mp closes
      exact ⟨['/'], rest, rfl, rfl, fun _ _ => rfl⟩
    · rw [openStep_slash closes] at h ⊢
      refine throughBracket_takenAlike h fun part behind behind' parts => openStep_slash ?_
      rwa [head?_bracket part behind behind', ← parts]
  by_cases bang : c = '!'
  · subst bang
    by_cases comment : ['-', '-'] <+: more
    · obtain ⟨rest, rfl⟩ := comment
      have read (other : Text) : openStep ('!' :: (['-', '-'] ++ other)) =
        match throughComment? other with
        | some length => .markup (length + 3)
        | none => .incomplete := rfl
      cases found : throughComment? rest with
      | none =>
        rw [read, found] at h
        cases h
      | some length =>
        obtain ⟨part, behind, rfl, rfl, elsewhere⟩ := throughComment?_closes found
        refine ⟨'!' :: '-' :: '-' :: part, behind, rfl, by rw [read, found]; rfl, fun behind' _ => ?_⟩
        refine (read (part ++ '>' :: behind')).trans ?_
        rw [elsewhere, read, found]
    by_cases bracket : more.head? = some '['
    · obtain ⟨rest, rfl⟩ := List.head?_eq_some_iff.mp bracket
      exact sectionStep_takenAlike h
    · rw [openStep_bang comment bracket] at h ⊢
      refine throughBracket_takenAlike h fun part behind behind' parts => openStep_bang ?_ ?_
      · intro opened
        refine comment ?_
        rw [parts]
        rcases part with _ | ⟨d, _ | ⟨e, part⟩⟩
        · simp at opened
        · simp at opened
        · simpa using opened
      · rwa [head?_bracket part behind behind', ← parts]
  by_cases question : c = '?'
  · subst question
    exact throughBracket_takenAlike h fun _ _ _ _ => rfl
  by_cases letter : isAsciiLetter c = true
  · have read := openStep_letter letter more
    -- Every tag that is markup is found again in front of another rest.
    have tag {length : Nat} (found : startTag ('<' :: c :: more) = .selfClosing length ∨
        ∃ name, startTag ('<' :: c :: more) = .element name length)
        (taken : (openStep (c :: more)).tail? = some (length - 1)) :
        TakenAlike (c :: more) (openStep (c :: more)) := by
      obtain ⟨part, behind, parts, long, elsewhere⟩ := startTag_elsewhere found
      rcases part with _ | ⟨d, part⟩
      · obtain ⟨rfl, -⟩ := List.cons.inj parts
        cases letter
      obtain ⟨rfl, isMore⟩ : c = d ∧ more = part ++ '>' :: behind := List.cons.inj parts
      refine ⟨c :: part, behind, parts, ?_, fun behind' quotes => ?_⟩
      · rw [taken, long]
        rfl
      · have same := elsewhere behind' quotes
        rw [List.cons_append] at same
        rw [List.cons_append, openStep_letter letter, same, read]
    cases found : startTag ('<' :: c :: more) with
    | incomplete | longReference digits => simp [read, found, Step.tail?] at h
    | text length => exact absurd (by rw [read, found]) (notText (length - 1))
    | selfClosing length => exact tag (.inl found) (by rw [read, found]; rfl)
    | element name length =>
      refine tag (.inr ⟨name, found⟩) ?_
      rw [read, found]
      dsimp only
      split <;> rfl
  · have text : openStep (c :: more) = .text 0 := by
      rw [openStep.eq_def]
      split <;> simp_all
    exact absurd text (notText 0)

end Phrasebook.Markup
