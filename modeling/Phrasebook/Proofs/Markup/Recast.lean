import Mathlib.Data.List.Forall2
import Phrasebook.Proofs.Markup.Blocks

/-!
# Runs in other words

Runs of text may be replaced by others that hold no construct of their own: `textRuns_recast` shows that
the markup between them is read as before, and that the runs of the new text are the new runs.
-/

namespace Phrasebook.Markup

open Text

/-! ### Calm texts -/

/-- Whether a character makes a construct of the opening mark in front of it. -/
def opensMarkup (c : Char) : Bool := isAsciiLetter c || c = '/' || c = '!' || c = '?'

/-- No opening mark of a text starts a construct, and every number sign behind an ampersand belongs to a
numeric reference. -/
structure Calm (text : Text) : Prop where
  marks : ∀ front c rest, text = front ++ '<' :: c :: rest → opensMarkup c = false
  numbers : ∀ front rest, text = front ++ '&' :: '#' :: rest → numericLength? (rest ++ ['<']) ≠ none

theorem Calm.suffix {front text : Text} (h : Calm (front ++ text)) : Calm text where
  marks before c rest parts := h.marks (front ++ before) c rest (by rw [parts, List.append_assoc])
  numbers before rest parts := h.numbers (front ++ before) rest (by rw [parts, List.append_assoc])

theorem Calm.drop {text : Text} (h : Calm text) (count : Nat) : Calm (text.drop count) := by
  rw [← List.take_append_drop count text] at h
  exact h.suffix

theorem openStep_plain {c : Char} (plain : opensMarkup c = false) (rest : Text) : openStep (c :: rest) = .text 0 := by
  simp only [opensMarkup, Bool.or_eq_false_iff, decide_eq_false_iff_not] at plain
  obtain ⟨⟨⟨notLetter, notSlash⟩, notBang⟩, notQuestion⟩ := plain
  rw [openStep.eq_def]
  split <;> simp_all

theorem takeWhile_mark {belongs : Char → Bool} {mark : Char} (stops : belongs mark = false) (part rest : Text) :
    (part ++ mark :: rest).takeWhile belongs = part.takeWhile belongs := by
  rw [List.takeWhile_append, List.takeWhile_cons_of_neg (by simp [stops]), List.append_nil]
  split
  · next all => exact ((List.takeWhile_prefix belongs).eq_of_length all).symm
  · rfl

/-- The length of a numeric reference whose digits are those of a kind. -/
def digitsLength? (before : Nat) (belongs : Char → Bool) (rest : Text) : Option Nat :=
  match rest.drop (rest.takeWhile belongs).length with
  | [] => none
  | c :: more =>
    if (rest.takeWhile belongs).length = 0 || isHex c then none
    else some (withSemicolon (before + (rest.takeWhile belongs).length) (c :: more))

theorem numericLength?_eq (text : Text) : numericLength? text =
    match text with
    | 'x' :: rest => digitsLength? 1 isHex rest
    | 'X' :: rest => digitsLength? 1 isHex rest
    | _ => digitsLength? 0 (fun c => '0' ≤ c && c ≤ '9') text := rfl

/-- Whether a character leaves the constructs in front of it as they are. -/
def isNeutral (c : Char) : Bool := !(opensMarkup c || isHex c || c = '#' || c = ';')

theorem isNeutral_iff {c : Char} :
    isNeutral c = true ↔ opensMarkup c = false ∧ isHex c = false ∧ c ≠ '#' ∧ c ≠ ';' := by
  simp [isNeutral, and_assoc]

theorem withSemicolon_mark {mark : Char} (other : mark ≠ ';') (length : Nat) (part rest : Text) :
    withSemicolon length (part ++ mark :: rest) = withSemicolon length part ∧
      withSemicolon length part ≤ length + part.length := by
  have plain {c : Char} (other : c ≠ ';') (more : Text) : withSemicolon length (c :: more) = length := by
    rw [withSemicolon]
    rintro rest same
    exact other (List.cons.inj same).1
  rcases part with _ | ⟨c, part⟩
  · exact ⟨plain other rest, Nat.le_refl _⟩
  · by_cases semicolon : c = ';'
    · subst semicolon
      refine ⟨rfl, ?_⟩
      simp [withSemicolon]
    · exact ⟨by rw [List.cons_append, plain semicolon, plain semicolon], by rw [plain semicolon]; omega⟩

theorem digitsLength?_eq {before count : Nat} {belongs : Char → Bool} {rest : Text}
    (isCount : (rest.takeWhile belongs).length = count) :
    digitsLength? before belongs rest = (rest.drop count).head?.bind fun c =>
      if count = 0 || isHex c then none else some (withSemicolon (before + count) (rest.drop count)) := by
  subst isCount
  unfold digitsLength?
  cases rest.drop (rest.takeWhile belongs).length <;> rfl

theorem digitsLength?_mark {before : Nat} {belongs : Char → Bool} {mark : Char} (neutral : isNeutral mark = true)
    (stops : ∀ c, isHex c = false → belongs c = false) (part rest : Text) :
    digitsLength? before belongs (part ++ mark :: rest) = digitsLength? before belongs (part ++ ['<']) ∧
      ∀ length, digitsLength? before belongs (part ++ ['<']) = some length → length ≤ before + part.length := by
  obtain ⟨count, isCount⟩ : ∃ count, (part.takeWhile belongs).length = count := ⟨_, rfl⟩
  have room : count ≤ part.length := isCount ▸ length_takeWhile_le belongs part
  have size : (part.drop count).length = part.length - count := List.length_drop
  have eq {mark : Char} (notHex : isHex mark = false) (other : mark ≠ ';') (rest : Text) :
      digitsLength? before belongs (part ++ mark :: rest) =
        if count = 0 || isHex ((part.drop count).headD '<') then none
        else some (withSemicolon (before + count) (part.drop count)) := by
    rw [@digitsLength?_eq before count belongs _ (by rw [takeWhile_mark (stops mark notHex), isCount]),
      List.drop_append_of_le_length room, (withSemicolon_mark other _ _ _).1]
    cases part.drop count with
    | nil => simp [notHex, show isHex '<' = false by decide]
    | cons c more => rfl
  obtain ⟨-, notHex, -, other⟩ := isNeutral_iff.mp neutral
  have opening := @eq '<' (by decide) (by decide)
  refine ⟨(eq notHex other rest).trans (opening []).symm, fun length found => ?_⟩
  rw [opening] at found
  obtain ⟨-, found⟩ := Option.ite_none_left_eq_some.mp found
  obtain rfl := Option.some.inj found
  have bound := (@withSemicolon_mark '<' (by decide) (before + count) (part.drop count) []).2
  omega

theorem isDigit_of_not_hex (c : Char) (notHex : isHex c = false) : ('0' ≤ c && c ≤ '9') = false := by
  simp only [isHex, Bool.or_eq_false_iff] at notHex
  exact notHex.1.1

/-- The length of a numeric reference does not depend on what stands behind a neutral character. -/
theorem numericLength?_mark {mark : Char} (neutral : isNeutral mark = true) (part rest : Text) :
    numericLength? (part ++ mark :: rest) = numericLength? (part ++ ['<']) ∧
      ∀ length, numericLength? (part ++ ['<']) = some length → length ≤ part.length := by
  have decimal (part : Text) := @digitsLength?_mark 0 (fun c => '0' ≤ c && c ≤ '9') mark neutral isDigit_of_not_hex part rest
  simp only [Nat.zero_add] at decimal
  have other {c : Char} (lower : c ≠ 'x') (upper : c ≠ 'X') (rest : Text) :
      numericLength? (c :: rest) = digitsLength? 0 (fun c => '0' ≤ c && c ≤ '9') (c :: rest) := by
    rw [numericLength?_eq]
    split
    · next same => exact absurd (List.cons.inj same).1 lower
    · next same => exact absurd (List.cons.inj same).1 upper
    · rfl
  rcases part with _ | ⟨c, part⟩
  · obtain ⟨plain, -⟩ := isNeutral_iff.mp neutral
    rw [List.nil_append, other (by rintro rfl; exact absurd plain (by decide))
      (by rintro rfl; exact absurd plain (by decide))]
    exact decimal []
  have hex := @digitsLength?_mark 1 isHex mark neutral (fun _ => id) part rest
  rw [Nat.add_comm] at hex
  by_cases lower : c = 'x'
  · subst lower
    exact hex
  by_cases upper : c = 'X'
  · subst upper
    exact hex
  simp only [List.cons_append, other lower upper]
  exact decimal (c :: part)

/-- Calm texts may stand one behind the other if the second starts with a neutral character. -/
theorem Calm.append {first second : Text} (h : Calm first) (h' : Calm second)
    (neutral : ∀ c ∈ second.head?, isNeutral c = true) : Calm (first ++ second) where
  marks front c rest parts := by
    rcases List.append_eq_append_iff.mp parts with ⟨before, -, inSecond⟩ | ⟨behind, inFirst, cut⟩
    · exact h'.marks before c rest inSecond
    · rcases behind with _ | ⟨mark, _ | ⟨d, behind⟩⟩
      · exact h'.marks [] c rest cut.symm
      · obtain ⟨-, rfl⟩ := List.cons.inj cut
        exact (isNeutral_iff.mp (neutral c rfl)).1
      · simp only [List.cons_append, List.cons.injEq] at cut
        obtain ⟨rfl, rfl, -⟩ := cut
        exact h.marks front c behind inFirst
  numbers front rest parts := by
    rcases List.append_eq_append_iff.mp parts with ⟨before, -, inSecond⟩ | ⟨behind, inFirst, cut⟩
    · exact h'.numbers before rest inSecond
    · rcases behind with _ | ⟨mark, _ | ⟨d, behind⟩⟩
      · exact h'.numbers [] rest cut.symm
      · obtain ⟨-, rfl⟩ := List.cons.inj cut
        exact absurd rfl (isNeutral_iff.mp (neutral '#' rfl)).2.2.1
      · simp only [List.cons_append, List.cons.injEq] at cut
        obtain ⟨rfl, rfl, rfl⟩ := cut
        have number := h.numbers front behind inFirst
        cases second with
        | nil => rwa [List.append_nil]
        | cons c second => rwa [List.append_assoc, List.cons_append, (numericLength?_mark (neutral c rfl) _ _).1]

/-- Whether a character neither starts a construct nor changes those in front of it. -/
def isInert (c : Char) : Bool := isNeutral c && c ≠ '<' && c ≠ '&'

/-- Inert characters in front of a calm text leave it calm. -/
theorem Calm.behind {front text : Text} (inert : ∀ c ∈ front, isInert c = true) (h : Calm text) :
    Calm (front ++ text) := by
  induction front with
  | nil => exact h
  | cons d front ih =>
    obtain ⟨here, later⟩ := List.forall_mem_cons.mp inert
    have calm := ih later
    simp only [isInert, Bool.and_eq_true, decide_eq_true_eq] at here
    refine ⟨fun before c rest parts => ?_, fun before rest parts => ?_⟩
    · rcases before with _ | ⟨e, before⟩
      · exact absurd (List.cons.inj parts).1 here.1.2
      · exact calm.marks before c rest (List.cons.inj parts).2
    · rcases before with _ | ⟨e, before⟩
      · exact absurd (List.cons.inj parts).1 here.2
      · exact calm.numbers before rest (List.cons.inj parts).2

theorem calm_of_inert {text : Text} (inert : ∀ c ∈ text, isInert c = true) : Calm text := by
  rw [← List.append_nil text]
  exact Calm.behind inert ⟨by simp, by simp⟩

theorem isInert_of_isBlank {c : Char} (blank : isBlank c = true) : isInert c = true := by
  have eq (d : Char) : c = d ↔ c.toNat = d.toNat := by
    rw [Char.ext_iff, ← UInt32.toNat_inj]
    rfl
  have le (d e : Char) : d ≤ e ↔ d.toNat ≤ e.toNat := Iff.rfl
  simp only [isBlank, Bool.or_eq_true, Bool.and_eq_true, decide_eq_true_eq, beq_iff_eq] at blank
  simp only [isInert, isNeutral, opensMarkup, isAsciiLetter, isHex, Bool.and_eq_true, Bool.not_eq_true',
    Bool.or_eq_false_iff, Bool.and_eq_false_iff, decide_eq_true_eq, decide_eq_false_iff_not, ne_eq, le, eq]
  simp only [Char.reduceToNat]
  omega

theorem isNeutral_of_isInert {c : Char} (inert : isInert c = true) : isNeutral c = true := by
  simp only [isInert, Bool.and_eq_true] at inert
  exact inert.1.1

theorem namedLength?_cons {c : Char} (letter : isAsciiLetter c = true) {rest after : Text} {count : Nat}
    (isCount : (rest.takeWhile isReferenceChar).length = count) (isAfter : rest.drop count = after)
    (filled : after ≠ []) : namedLength? (c :: rest) = some (withSemicolon (count + 1) after) := by
  subst isCount isAfter
  rw [namedLength?, if_pos letter]
  dsimp only
  split
  · next empty => exact absurd empty filled
  · rfl

theorem Calm.head {text : Text} (h : Calm ('<' :: text)) (rest : Text) :
    ∃ c more, text ++ '<' :: rest = c :: more ∧ opensMarkup c = false := by
  cases text with
  | nil => exact ⟨'<', rest, rfl, by decide⟩
  | cons c more => exact ⟨c, more ++ '<' :: rest, rfl, h.marks [] c more rfl⟩

theorem referenceStep_number (final : Bool) (more : Text) : referenceStep final ('#' :: more) =
    match numericLength? more with
    | some length => .text (length + 1)
    | none => if more.contains ';' then .textThenStop 1 else .stop := rfl

theorem referenceStep_other {final : Bool} {c : Char} (other : c ≠ '#') (more : Text) :
    referenceStep final (c :: more) =
      match namedLength? (c :: more) with
      | some length => .text length
      | none =>
        if isAsciiLetter c then if final && more.isEmpty then .skip 0 else .stop
        else .text 0 := by
  rw [referenceStep.eq_def]
  split
  · next same => cases same
  · next same => exact absurd (List.cons.inj same).1 other
  · next same =>
    obtain ⟨rfl, rfl⟩ := List.cons.inj same
    cases namedLength? (c :: more) <;> rfl

/-- In front of an opening mark a calm text is taken as text, a part at a time. -/
theorem Calm.takes {c : Char} {text : Text} (h : Calm (c :: text)) (final : Bool) (rest : Text) :
    ∃ tail, step final none c (text ++ '<' :: rest) = .text tail ∧ tail ≤ text.length := by
  rw [step]
  by_cases mark : c = '<'
  · subst mark
    obtain ⟨d, more, whole, plain⟩ := h.head rest
    rw [if_pos rfl, whole, openStep_plain plain]
    exact ⟨0, rfl, Nat.zero_le _⟩
  rw [if_neg mark]
  by_cases reference : c = '&'
  · subst reference
    rw [if_pos rfl]
    rcases text with _ | ⟨d, more⟩
    · exact ⟨0, rfl, Nat.le_refl _⟩
    rw [List.cons_append]
    by_cases number : d = '#'
    · subst number
      obtain ⟨same, bound⟩ := @numericLength?_mark '<' (by decide) more rest
      obtain ⟨length, found⟩ := Option.ne_none_iff_exists'.mp (h.numbers [] more rfl)
      rw [referenceStep_number, same, found]
      exact ⟨length + 1, rfl, Nat.succ_le_succ (bound length found)⟩
    · rw [referenceStep_other number]
      by_cases letter : isAsciiLetter d = true
      · obtain ⟨count, isCount⟩ : ∃ count, (more.takeWhile isReferenceChar).length = count := ⟨_, rfl⟩
        have room : count ≤ more.length := isCount ▸ length_takeWhile_le _ _
        have found := @namedLength?_cons d letter (more ++ '<' :: rest) _ count
          (by rw [takeWhile_mark (by decide), isCount]) (List.drop_append_of_le_length room) (by simp)
        obtain ⟨same, bound⟩ := @withSemicolon_mark '<' (by decide) (count + 1) (more.drop count) rest
        rw [found, same]
        rw [List.length_drop] at bound
        exact ⟨_, rfl, by rw [List.length_cons]; omega⟩
      · rw [namedLength?, if_neg letter]
        exact ⟨0, by rw [if_neg letter], Nat.zero_le _⟩
  · rw [if_neg reference, takeWhile_mark (by decide)]
    exact ⟨_, rfl, length_takeWhile_le _ _⟩

/-- At the end of a text a calm text is taken as text, a part at a time, or reading stops. -/
theorem Calm.takesLast {c : Char} {text : Text} (h : Calm (c :: text)) (closed : ¬EndsOpen (c :: text)) (final : Bool) :
    (∃ tail, step final none c text = .text tail) ∨ step final none c text = .stop ∨
      ∃ tail, step final none c text = .textThenStop tail := by
  rw [step]
  by_cases mark : c = '<'
  · subst mark
    rw [if_pos rfl]
    cases text with
    | nil => exact .inr (.inl rfl)
    | cons d more => exact .inl ⟨0, openStep_plain (h.marks [] d more rfl) more⟩
  rw [if_neg mark]
  by_cases reference : c = '&'
  · subst reference
    rw [if_pos rfl]
    rcases text with _ | ⟨d, more⟩
    · exact .inr (.inl rfl)
    by_cases number : d = '#'
    · subst number
      rw [referenceStep_number]
      split
      · exact .inl ⟨_, rfl⟩
      · split
        · exact .inr (.inr ⟨1, rfl⟩)
        · exact .inr (.inl rfl)
    · rw [referenceStep_other number]
      split
      · exact .inl ⟨_, rfl⟩
      · split
        · next letter =>
          split
          · next last =>
            obtain ⟨-, rfl⟩ : final = true ∧ more = [] := by simpa using last
            exact absurd ⟨[], d, rfl, letter⟩ closed
          · exact .inr (.inl rfl)
        · exact .inl ⟨0, rfl⟩
  · rw [if_neg reference]
    exact .inl ⟨_, rfl⟩

/-- Events of text only, the first one at the start of a text that is not empty. -/
def TextOnly (offset : Nat) (text : Text) (events : List Event) : Prop :=
  (∀ event ∈ events, ∃ place, event = .text place) ∧
    (text = [] → events = []) ∧ (text ≠ [] → ∃ more, events = .text offset :: more)

theorem TextOnly.nil (offset : Nat) : TextOnly offset [] [] := ⟨by simp, fun _ => rfl, by simp⟩

theorem TextOnly.cons {offset : Nat} {c : Char} {text : Text} {events : List Event}
    (only : ∀ event ∈ events, ∃ place, event = .text place) :
    TextOnly offset (c :: text) (.text offset :: events) :=
  ⟨List.forall_mem_cons.mpr ⟨⟨offset, rfl⟩, only⟩, by simp, fun _ => ⟨events, rfl⟩⟩

/-- In front of an opening mark a calm text gives text only. -/
theorem Calm.inFront {text : Text} (h : Calm text) (final : Bool) (offset : Nat) (rest : Text) :
    ∃ events, TextOnly offset text events ∧
      laterEvents final offset none (text ++ '<' :: rest) =
        (laterEvents final (offset + text.length) none ('<' :: rest)).map (events ++ ·) := by
  induction size : text.length using Nat.strongRecOn generalizing offset text with
  | ind count ih =>
    rcases text with _ | ⟨c, text⟩
    · refine ⟨[], .nil offset, ?_⟩
      rw [← size]
      exact (congrFun Except.map_id _).symm
    obtain ⟨tail, taken, inside⟩ := h.takes final rest
    rw [List.length_cons] at size
    have calm : Calm (text.drop tail) := by
      have := h.drop (tail + 1)
      rwa [List.drop_succ_cons] at this
    obtain ⟨events, only, later⟩ := ih _ (by rw [List.length_drop]; omega) calm (offset + (tail + 1)) rfl
    refine ⟨.text offset :: events, .cons only.1, ?_⟩
    have stop : offset + (tail + 1) + (text.drop tail).length = offset + count := by
      rw [List.length_drop]
      omega
    rw [stop] at later
    rw [List.cons_append, laterEvents_goesOn taken rfl, List.drop_append_of_le_length inside, Step.mode, later]
    · cases laterEvents final (offset + count) none ('<' :: rest) <;> rfl
    · simp
    · simp

/-- At the end of a text a calm text gives text only. -/
theorem Calm.atEnd {text : Text} (h : Calm text) (closed : ¬EndsOpen text) (final : Bool) (offset : Nat) :
    ∃ events, TextOnly offset text events ∧ laterEvents final offset none text = .ok events := by
  induction size : 2 * text.length + (if final then 0 else 1) using Nat.strongRecOn
    generalizing final offset text with
  | ind size ih =>
    rcases text with _ | ⟨c, text⟩
    · exact ⟨[], .nil offset, laterEvents_nil final offset none⟩
    have behind (final' : Bool) (tail : Nat) :
        ∃ events, TextOnly (offset + (tail + 1)) (text.drop tail) events ∧
          laterEvents final' (offset + (tail + 1)) none (text.drop tail) = .ok events := by
      have calm := h.drop (tail + 1)
      rw [List.drop_succ_cons] at calm
      refine ih _ ?_ calm (fun open_ => closed ?_) final' (offset + (tail + 1)) rfl
      · rw [← size, List.length_cons, List.length_drop]
        split <;> split <;> omega
      · rw [← List.take_append_drop tail text]
        exact open_.append (c :: text.take tail)
    have halts (first : final = false) (read : laterEvents false offset none (c :: text) =
        laterEvents true offset none (c :: text)) :
        ∃ events, TextOnly offset (c :: text) events ∧ laterEvents final offset none (c :: text) = .ok events := by
      rw [first, read]
      refine ih _ ?_ h closed true offset rfl
      rw [← size, first]
      simp
    rcases h.takesLast closed final with ⟨tail, taken⟩ | taken | ⟨tail, taken⟩
    · obtain ⟨events, only, later⟩ := behind final tail
      refine ⟨.text offset :: events, .cons only.1, ?_⟩
      rw [laterEvents_goesOn taken rfl, Step.mode, later]
      · rfl
      · simp
      · simp
    · cases final with
      | true => exact ⟨_, .cons (by simp), laterEvents_stop taken⟩
      | false => exact halts rfl (laterEvents_halts (.inr taken))
    · rw [laterEvents_textThenStop taken]
      cases final with
      | true =>
        refine ⟨_, .cons ?_, rfl⟩
        intro event member
        split at member
        · exact ⟨_, List.mem_singleton.mp member⟩
        · cases member
      | false =>
        obtain ⟨events, only, later⟩ := behind true tail
        rw [if_neg (by simp), later]
        exact ⟨_, .cons only.1, rfl⟩

/-! ### Other runs -/

/-- A block with the same markup and a calm run in place of its own, without new quotes. -/
structure Recast (block other : Block) : Prop where
  markup : other.markup = block.markup
  filled : other.run = [] ↔ block.run = []
  calm : Calm other.run
  quotes : NoNewQuotes block.run other.run

theorem recast_quotes {blocks others : List Block} (h : List.Forall₂ Recast blocks others) :
    NoNewQuotes (textOfBlocks blocks) (textOfBlocks others) := by
  induction h with
  | nil => exact fun _ _ => id
  | @cons block other blocks others recast _ ih =>
    intro quote isQuote member
    simp only [textOfBlocks, Block.text, List.flatMap_cons, List.mem_append] at member ⊢
    rcases member with (inRun | inMarkup) | later
    · exact .inl (.inl (recast.quotes quote isQuote inRun))
    · exact .inl (.inr (recast.markup ▸ inMarkup))
    · exact .inr (ih quote isQuote later)

theorem recast_nil {blocks others : List Block} (h : List.Forall₂ Recast blocks others)
    (empty : textOfBlocks blocks = []) : textOfBlocks others = [] := by
  induction h with
  | nil => rfl
  | @cons block other blocks others recast _ ih =>
    simp only [textOfBlocks, Block.text, List.flatMap_cons, List.append_eq_nil_iff] at empty ⊢
    exact ⟨⟨recast.filled.mpr empty.1.1, recast.markup.trans empty.1.2⟩, ih empty.2⟩

theorem runsOf_texts_append {whole : Text} {start : Nat} {events later : List Event}
    (only : ∀ event ∈ events, ∃ place, event = .text place) :
    runsOf whole (some start) (events ++ later) = runsOf whole (some start) later := by
  induction events with
  | nil => rfl
  | cons event rest ih =>
    obtain ⟨⟨place, rfl⟩, others⟩ := List.forall_mem_cons.mp only
    exact ih others

theorem TextOnly.runs {before run rest : Text} {events later : List Event}
    (h : TextOnly before.length run events) :
    runsOf (before ++ (run ++ rest)) none (events ++ later) =
      runsOf (before ++ (run ++ rest)) (startOf before run) later := by
  obtain ⟨only, vacant, first⟩ := h
  by_cases empty : run = []
  · rw [vacant empty, empty]
    rfl
  · obtain ⟨more, rfl⟩ := first empty
    have started : startOf before run = some before.length := by simp [startOf, empty]
    rw [started, List.cons_append, runsOf, Option.getD_none,
      runsOf_texts_append (List.forall_mem_cons.mp only).2]

theorem recast_events {blocks others : List Block} (sound : Sound blocks)
    (recast : List.Forall₂ Recast blocks others) (closed : ¬EndsOpen (textOfBlocks others)) (final : Bool) (before : Text) :
    ∃ events, laterEvents final before.length none (textOfBlocks others) = .ok events ∧
      runsOf (before ++ textOfBlocks others) none events = runsAt before.length others := by
  induction recast generalizing before with
  | nil => exact ⟨[], laterEvents_nil final before.length none, rfl⟩
  | @cons block other blocks others recast rest ih =>
    obtain ⟨kind, soundRest⟩ := sound
    have whole : textOfBlocks (other :: others) = other.run ++ (other.markup ++ textOfBlocks others) := by
      rw [← List.append_assoc]
      rfl
    rw [whole] at closed ⊢
    rw [recast.markup] at closed ⊢
    rcases kind with ⟨none, rfl⟩ | ⟨⟨more, opened⟩, crossed⟩
    · obtain rfl := List.forall₂_nil_left_iff.mp rest
      have nothing : block.markup ++ textOfBlocks [] = [] := by rw [none]; rfl
      rw [nothing, List.append_nil] at closed ⊢
      obtain ⟨events, only, read⟩ := recast.calm.atEnd closed final before.length
      refine ⟨events, read, ?_⟩
      have runs := @TextOnly.runs before other.run [] events [] only
      rw [List.append_nil, List.append_nil] at runs
      rw [runs, runsOf_nil, runsAt, runsAt, List.append_nil]
    · obtain ⟨last, readLast, runsLast⟩ := ih soundRest
        (fun open_ => closed (by rw [← List.append_assoc]; exact open_.append _))
        (before ++ (other.run ++ block.markup))
      obtain ⟨middle, only, first, readMiddle⟩ := crossed (textOfBlocks others) (recast_nil rest)
        (recast_quotes rest) final (before.length + other.run.length)
      obtain ⟨front, texts, readFront⟩ := recast.calm.inFront final before.length (more ++ textOfBlocks others)
      have stop : before.length + other.run.length + block.markup.length =
          (before ++ (other.run ++ block.markup)).length := by
        simp only [List.length_append]
        omega
      rw [← List.cons_append, ← opened, readMiddle, stop, readLast] at readFront
      refine ⟨front ++ (middle ++ last), readFront, ?_⟩
      have first' (filled : other.run ≠ []) := first fun empty => filled (recast.filled.mpr empty)
      rw [texts.runs, runsOf_cut only first', runsAt, Block.text, recast.markup]
      simp only [List.append_assoc, List.length_append] at runsLast ⊢
      rw [runsLast]

/-- Runs may be replaced by calm ones: the markup between them is read as before. -/
theorem textRuns_recast {blocks others : List Block} (sound : Sound blocks)
    (recast : List.Forall₂ Recast blocks others) (closed : ¬EndsOpen (textOfBlocks others)) :
    textRuns (textOfBlocks others) = .ok (runsAt 0 others) := by
  obtain ⟨found, read, runs⟩ := recast_events sound recast closed false []
  rw [textRuns, events_eq_laterEvents, show laterEvents false 0 none (textOfBlocks others) = .ok found from read]
  exact congrArg Except.ok runs

end Phrasebook.Markup
