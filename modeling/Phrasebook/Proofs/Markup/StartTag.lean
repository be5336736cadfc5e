import Mathlib.Algebra.Ring.Nat
import Mathlib.Tactic.Common
import Phrasebook.Markup.StartTag
import Phrasebook.Proofs.Text.Lines

/-!
# What start tags depend on

A start tag that is markup ends with its closing mark, and what stands behind it does not matter, as long
as it brings no quotes that were not there before: `startTag_elsewhere`. A value in quotes is the one
thing that may go on behind a closing mark, so every reader here either goes too far or does the same in
front of another rest.
-/

namespace Phrasebook.Markup

open Text

/-- A text has no quotes that do not occur in another. -/
def NoNewQuotes (rest rest' : Text) : Prop :=
  ∀ quote, quote = '\'' ∨ quote = '"' → quote ∈ rest' → quote ∈ rest

theorem isBlank_bracket : isBlank '>' = false := by decide

theorem takeWhile_bracket {belongs : Char → Bool} (stops : belongs '>' = false) (part rest : Text) :
    (part ++ '>' :: rest).takeWhile belongs = part.takeWhile belongs := by
  rw [List.takeWhile_append, List.takeWhile_cons_of_neg (by simp [stops]), List.append_nil]
  split
  · next all => exact ((List.takeWhile_prefix belongs).eq_of_length all).symm
  · rfl

theorem drop_bracket {part : Text} {count : Nat} (le : count ≤ part.length) (rest : Text) :
    (part ++ '>' :: rest).drop count = part.drop count ++ '>' :: rest :=
  List.drop_append_of_le_length le

theorem length_takeWhile_le (belongs : Char → Bool) (text : Text) :
    (text.takeWhile belongs).length ≤ text.length :=
  (List.takeWhile_prefix belongs).length_le

theorem filler_cons (c : Char) (rest : Text) : filler (c :: rest) =
    if c = '/' ∧ rest.head? = some '>' then 0
    else if isBlank c || c = '/' then filler rest + 1 else 0 := by
  rw [filler.eq_def]
  split
  · next h => simp at h
  · next more h =>
    obtain ⟨rfl, rfl⟩ := List.cons.inj h
    simp
  · next c' rest' other h =>
    obtain ⟨rfl, rfl⟩ := List.cons.inj h
    have goesOn : ¬(c = '/' ∧ rest.head? = some '>') := by
      rintro ⟨rfl, first⟩
      obtain ⟨more, rfl⟩ := List.head?_eq_some_iff.mp first
      exact other more rfl rfl
    rw [if_neg goesOn]

theorem head?_bracket (part rest rest' : Text) :
    (part ++ '>' :: rest').head? = (part ++ '>' :: rest).head? := by
  cases part <;> rfl

theorem filler_bracket (part rest rest' : Text) :
    filler (part ++ '>' :: rest) ≤ part.length ∧
      filler (part ++ '>' :: rest') = filler (part ++ '>' :: rest) := by
  induction part with
  | nil => simp [filler_cons, isBlank_bracket]
  | cons c part ih =>
    rw [List.cons_append, List.cons_append, filler_cons, filler_cons, head?_bracket part rest rest', ih.2,
      List.length_cons]
    refine ⟨?_, rfl⟩
    split
    · omega
    · split <;> omega

/-! ### Values and attributes -/

/-- The value without quotes that starts at an offset of a text. -/
def bareValue (text : Text) (start : Nat) : AttributeValue :=
  ⟨(text.drop start).take (bareLength (text.drop start)), start + bareLength (text.drop start)⟩

theorem bareValue_bracket {part : Text} {start : Nat} (le : start ≤ part.length) (rest : Text) :
    bareValue (part ++ '>' :: rest) start = bareValue part start ∧
      (bareValue part start).length ≤ part.length := by
  have short : bareLength (part.drop start) ≤ (part.drop start).length := length_takeWhile_le _ _
  have same : bareLength ((part ++ '>' :: rest).drop start) = bareLength (part.drop start) := by
    rw [drop_bracket le, bareLength, takeWhile_bracket (by decide)]
    rfl
  unfold bareValue
  rw [same, drop_bracket le, List.take_append_of_le_length short]
  rw [List.length_drop] at short
  exact ⟨rfl, by show start + _ ≤ _; omega⟩

theorem value?_eq (text : Text) {before signs blanks : Nat}
    (isBefore : (text.takeWhile isBlank).length = before)
    (isSigns : ((text.drop before).takeWhile (· = '=')).length = signs)
    (isBlanks : ((text.drop (before + signs)).takeWhile isBlank).length = blanks) :
    value? text =
      if signs = 0 then none
      else match text.drop (before + signs + blanks) with
        | [] => some ⟨[], before + signs + blanks⟩
        | c :: rest =>
          if c = '\'' ∨ c = '"' then
            match rest.findIdx? (· = c) with
            | some length => some ⟨rest.take length, before + signs + blanks + length + 2⟩
            | none =>
              if blanks ≠ 0 then some ⟨[], before + signs + blanks⟩
              else if 2 ≤ signs then some (bareValue text (before + signs + blanks - 1))
              else none
          else some (bareValue text (before + signs + blanks)) := by
  subst isBefore isSigns isBlanks
  rfl

theorem findIdx?_bracket {part rest rest' : Text} {quote : Char} (isQuote : quote = '\'' ∨ quote = '"')
    (quotes : NoNewQuotes rest rest') :
    (∃ length, (part ++ '>' :: rest).findIdx? (· = quote) = some length ∧ part.length < length) ∨
      (part ++ '>' :: rest').findIdx? (· = quote) = (part ++ '>' :: rest).findIdx? (· = quote) ∧
        ∀ length, (part ++ '>' :: rest).findIdx? (· = quote) = some length → length < part.length := by
  have bracket : ¬('>' = quote) := by rcases isQuote with rfl | rfl <;> decide
  simp only [List.findIdx?_append, List.findIdx?_cons, decide_eq_true_eq, if_neg bracket]
  cases here : part.findIdx? (· = quote) with
  | some length =>
    right
    obtain ⟨inside, -⟩ := List.findIdx?_eq_some_iff_getElem.mp here
    simpa using inside
  | none =>
    by_cases member : quote ∈ rest
    · left
      obtain ⟨length, found⟩ : ∃ length, rest.findIdx? (· = quote) = some length := by
        rw [← Option.isSome_iff_exists, List.findIdx?_isSome]
        simpa using member
      exact ⟨length + 1 + part.length, by simp [found], by omega⟩
    · right
      have absent {text : Text} (notIn : quote ∉ text) : text.findIdx? (· = quote) = none := by
        rw [List.findIdx?_eq_none_iff]
        exact fun c isIn => by simpa using fun same : c = quote => notIn (same ▸ isIn)
      simp [absent member, absent fun isIn => member (quotes quote isQuote isIn)]

theorem value?_bracket {part rest rest' : Text} (quotes : NoNewQuotes rest rest') :
    (∃ value, value? (part ++ '>' :: rest) = some value ∧ part.length < value.length) ∨
      value? (part ++ '>' :: rest') = value? (part ++ '>' :: rest) ∧
        ∀ value, value? (part ++ '>' :: rest) = some value → value.length ≤ part.length := by
  obtain ⟨before, isBefore⟩ : ∃ count, (part.takeWhile isBlank).length = count := ⟨_, rfl⟩
  obtain ⟨signs, isSigns⟩ : ∃ count, ((part.drop before).takeWhile (· = '=')).length = count := ⟨_, rfl⟩
  obtain ⟨blanks, isBlanks⟩ : ∃ count, ((part.drop (before + signs)).takeWhile isBlank).length = count :=
    ⟨_, rfl⟩
  have room : before + signs + blanks ≤ part.length := by
    have first := length_takeWhile_le isBlank part
    have second := length_takeWhile_le (· = '=') (part.drop before)
    have third := length_takeWhile_le isBlank (part.drop (before + signs))
    rw [List.length_drop] at second third
    omega
  have eq (rest : Text) := @value?_eq (part ++ '>' :: rest) before signs blanks
    (by rw [takeWhile_bracket isBlank_bracket, isBefore])
    (by rw [drop_bracket (by omega), takeWhile_bracket (by decide), isSigns])
    (by rw [drop_bracket (by omega), takeWhile_bracket isBlank_bracket, isBlanks])
  rw [eq rest, eq rest', drop_bracket room, drop_bracket room]
  have bare (start : Nat) (le : start ≤ before + signs + blanks) (rest : Text) :=
    @bareValue_bracket part start (Nat.le_trans le room) rest
  simp only [bare _ (Nat.le_refl _), bare _ (Nat.sub_le _ 1)]
  obtain ⟨-, short⟩ := bare _ (Nat.le_refl _) []
  obtain ⟨-, short'⟩ := bare _ (Nat.sub_le _ 1) []
  by_cases noSigns : signs = 0
  · simp [noSigns]
  simp only [if_neg noSigns]
  cases behind : part.drop (before + signs + blanks) with
  | nil =>
    right
    simpa using short
  | cons c more =>
    have size := congrArg List.length behind
    rw [List.length_drop, List.length_cons] at size
    by_cases isQuote : c = '\'' ∨ c = '"'
    · simp only [List.cons_append, if_pos isQuote]
      rcases @findIdx?_bracket more rest rest' c isQuote quotes with ⟨length, found, far⟩ | ⟨same, near⟩
      · left
        rw [found]
        exact ⟨_, rfl, by show _ < before + signs + blanks + length + 2; omega⟩
      · right
        rw [same]
        cases found : (more ++ '>' :: rest).findIdx? (· = c) with
        | some length =>
          have near := near length found
          have back (rest : Text) : (more ++ '>' :: rest).take length = more.take length :=
            List.take_append_of_le_length (by omega)
          simp only [back, Option.some.injEq, forall_eq', true_and]
          omega
        | none =>
          refine ⟨rfl, fun value isValue => ?_⟩
          dsimp only at isValue
          split at isValue
          · obtain rfl := Option.some.inj isValue
            exact room
          · split at isValue
            · obtain rfl := Option.some.inj isValue
              exact short'
            · simp at isValue
    · right
      simpa [isQuote] using short

theorem attribute?_bracket {before c : Char} {part rest rest' : Text} (quotes : NoNewQuotes rest rest') :
    (∃ found, attribute? before c (part ++ '>' :: rest) = some found ∧ part.length < found.tail) ∨
      attribute? before c (part ++ '>' :: rest') = attribute? before c (part ++ '>' :: rest) ∧
        ∀ found, attribute? before c (part ++ '>' :: rest) = some found → found.tail ≤ part.length := by
  obtain ⟨name, isName⟩ : ∃ count, (part.takeWhile isAttributeChar).length = count := ⟨_, rfl⟩
  have room : name ≤ part.length := isName ▸ length_takeWhile_le _ _
  unfold attribute?
  split
  · simp only [takeWhile_bracket (by decide : isAttributeChar '>' = false), isName, drop_bracket room]
    rcases @value?_bracket (part.drop name) rest rest' quotes with ⟨value, found, far⟩ | ⟨same, near⟩
    · left
      rw [found, Option.getD_some]
      rw [List.length_drop] at far
      exact ⟨_, rfl, by show _ < name + value.length + _; omega⟩
    · right
      obtain ⟨value, isValue⟩ : ∃ value,
          (value? (part.drop name ++ '>' :: rest)).getD ⟨[], 0⟩ = value := ⟨_, rfl⟩
      have short : name + value.length ≤ part.length := by
        rw [← isValue]
        cases found : value? (part.drop name ++ '>' :: rest) with
        | none => exact room
        | some value =>
          have := near value found
          rw [List.length_drop] at this
          simp only [Option.getD_some]
          omega
      obtain ⟨le, fillers⟩ := filler_bracket (part.drop (name + value.length)) rest rest'
      rw [List.length_drop] at le
      rw [same, isValue, drop_bracket short, drop_bracket short, fillers]
      refine ⟨rfl, fun found isFound => ?_⟩
      obtain rfl := Option.some.inj isFound
      show name + value.length + _ ≤ _
      omega
  · right
    simp

/-! ### All attributes -/

theorem attributesLength_nil (before : Char) : attributesLength before [] = 0 := by
  rw [attributesLength.eq_def]

theorem attributesLength_cons (before c : Char) (rest : Text) : attributesLength before (c :: rest) =
    match attribute? before c rest with
    | none => 0
    | some found => found.tail + 1 +
        attributesLength ((rest.take found.tail).getLastD c) (rest.drop found.tail) := by
  rw [attributesLength.eq_def]
  dsimp only
  rcases attribute? before c rest with _ | ⟨value, tail⟩ <;> rfl

theorem attributesWithin_cons (limit : Nat) (before c : Char) (rest : Text) :
    attributesWithin limit before (c :: rest) =
      if limit = 0 then []
      else match attribute? before c rest with
        | none => []
        | some found => found :: attributesWithin (limit - (found.tail + 1))
            ((rest.take found.tail).getLastD c) (rest.drop found.tail) := by
  rw [attributesWithin]
  cases attribute? before c rest <;> rfl

theorem attribute?_none_bracket (before : Char) (rest : Text) : attribute? before '>' rest = none := by
  rw [attribute?, if_neg (by simp)]

theorem getLastD_take_bracket {part : Text} {count : Nat} (le : count ≤ part.length) (rest : Text)
    (c : Char) : ((part ++ '>' :: rest).take count).getLastD c = (part.take count).getLastD c := by
  rw [List.take_append_of_le_length le]

theorem attributesLength_bracket {before : Char} {part rest rest' : Text} (quotes : NoNewQuotes rest rest') :
    part.length < attributesLength before (part ++ '>' :: rest) ∨
      attributesLength before (part ++ '>' :: rest') = attributesLength before (part ++ '>' :: rest) ∧
        attributesLength before (part ++ '>' :: rest) ≤ part.length := by
  induction size : part.length using Nat.strongRecOn generalizing before part with
  | ind size ih =>
    cases part with
    | nil =>
      right
      rw [List.nil_append, List.nil_append, attributesLength_cons, attributesLength_cons,
        attribute?_none_bracket, attribute?_none_bracket]
      exact ⟨rfl, Nat.zero_le _⟩
    | cons c part =>
      rw [List.length_cons] at size
      rw [List.cons_append, List.cons_append, attributesLength_cons, attributesLength_cons]
      rcases @attribute?_bracket before c part rest rest' quotes with ⟨found, isFound, far⟩ | ⟨same, near⟩
      · left
        simp only [isFound]
        have := Nat.le_add_right (found.tail + 1) (attributesLength
          (((part ++ '>' :: rest).take found.tail).getLastD c) ((part ++ '>' :: rest).drop found.tail))
        exact Nat.lt_of_lt_of_le (by omega) this
      · rw [same]
        cases isFound : attribute? before c (part ++ '>' :: rest) with
        | none =>
          right
          exact ⟨rfl, Nat.zero_le _⟩
        | some found =>
          have near := near found isFound
          have left : (part.drop found.tail).length = part.length - found.tail := List.length_drop
          simp only [getLastD_take_bracket near, drop_bracket near]
          rcases @ih (part.length - found.tail) (by omega) ((part.take found.tail).getLastD c) _ left with
            far | ⟨same, near'⟩
          · left
            omega
          · right
            exact ⟨by rw [same], by omega⟩

/-- The number of characters that attributes take. -/
def totalLength (attributes : List Attribute) : Nat := (attributes.map fun found => found.tail + 1).sum

theorem totalLength_cons (found : Attribute) (rest : List Attribute) :
    totalLength (found :: rest) = found.tail + 1 + totalLength rest := rfl

theorem attributesWithin_bracket {limit : Nat} {before : Char} {part rest rest' : Text}
    (quotes : NoNewQuotes rest rest') :
    part.length < totalLength (attributesWithin limit before (part ++ '>' :: rest)) ∨
      attributesWithin limit before (part ++ '>' :: rest') =
        attributesWithin limit before (part ++ '>' :: rest) := by
  induction size : part.length using Nat.strongRecOn generalizing limit before part with
  | ind size ih =>
    cases part with
    | nil =>
      right
      simp only [List.nil_append, attributesWithin_cons, attribute?_none_bracket]
    | cons c part =>
      rw [List.length_cons] at size
      rw [List.cons_append, List.cons_append, attributesWithin_cons, attributesWithin_cons]
      split
      · exact .inr rfl
      rcases @attribute?_bracket before c part rest rest' quotes with ⟨found, isFound, far⟩ | ⟨same, near⟩
      · left
        simp only [isFound, totalLength_cons]
        omega
      · rw [same]
        cases isFound : attribute? before c (part ++ '>' :: rest) with
        | none => exact .inr rfl
        | some found =>
          have near := near found isFound
          have left : (part.drop found.tail).length = part.length - found.tail := List.length_drop
          simp only [getLastD_take_bracket near, drop_bracket near, totalLength_cons]
          rcases @ih (part.length - found.tail) (by omega) (limit - (found.tail + 1))
              ((part.take found.tail).getLastD c) _ left with far | same
          · left
            omega
          · exact .inr (by rw [same])

/-- With room for all of them, the attributes taken are as long as the attributes at the start of the
text. -/
theorem totalLength_attributesWithin {limit : Nat} {before : Char} {text : Text}
    (room : attributesLength before text ≤ limit) :
    totalLength (attributesWithin limit before text) = attributesLength before text := by
  induction size : text.length using Nat.strongRecOn generalizing limit before text with
  | ind size ih =>
    cases text with
    | nil =>
      rw [attributesWithin, attributesLength_nil]
      rfl
    | cons c rest =>
      rw [List.length_cons] at size
      rw [attributesLength_cons] at room ⊢
      rw [attributesWithin_cons]
      cases isFound : attribute? before c rest with
      | none => split <;> rfl
      | some found =>
        simp only [isFound] at room ⊢
        have left : (rest.drop found.tail).length = rest.length - found.tail := List.length_drop
        obtain ⟨later, isLater⟩ : ∃ length,
          attributesLength ((rest.take found.tail).getLastD c) (rest.drop found.tail) = length := ⟨_, rfl⟩
        rw [isLater] at room ⊢
        have room : found.tail + 1 + later ≤ limit := room
        rw [if_neg (by omega), totalLength_cons,
          ih (rest.length - found.tail) (by omega) (by rw [isLater]; omega) left, isLater]

/-! ### Whole tags -/

/-- Whether a character may stand between the name of a tag and its attributes. -/
def isFiller (c : Char) : Bool := isBlank c || c = '/'

theorem length_tagName_bracket (part rest : Text) :
    tagName (part ++ '>' :: rest) = tagName part ∧ (tagName part).length ≤ part.length := by
  cases part with
  | nil => exact ⟨by simp [tagName, isAsciiLetter], Nat.le_refl _⟩
  | cons c part =>
    rw [List.cons_append, tagName, tagName]
    split
    · rw [takeWhile_bracket (by decide)]
      exact ⟨rfl, Nat.succ_le_succ (length_takeWhile_le _ _)⟩
    · exact ⟨rfl, Nat.zero_le _⟩

/-- The attributes of a tag start behind its name and the filler that follows it. -/
def attributesStart (text : Text) : Nat :=
  let name := (tagName (text.drop 1)).length + 1
  name + ((text.drop name).takeWhile isFiller).length

theorem tagBodyLength_eq (text : Text) : tagBodyLength text =
    let start := attributesStart text
    let length := start + attributesLength ((text.take start).getLastD '<') (text.drop start)
    length + ((text.drop length).takeWhile isBlank).length := rfl

theorem attributesStart_bracket (part rest : Text) :
    attributesStart ('<' :: part ++ '>' :: rest) = attributesStart ('<' :: part) ∧
      attributesStart ('<' :: part) ≤ part.length + 1 := by
  obtain ⟨same, le⟩ := length_tagName_bracket part rest
  unfold attributesStart
  simp only [List.cons_append, List.drop_succ_cons, List.drop_zero, same, drop_bracket le,
    takeWhile_bracket (by decide : isFiller '>' = false), true_and]
  have := length_takeWhile_le isFiller (part.drop (tagName part).length)
  rw [List.length_drop] at this
  omega

theorem tagBodyLength_bracket {part rest rest' : Text} (quotes : NoNewQuotes rest rest') :
    part.length + 1 < tagBodyLength ('<' :: part ++ '>' :: rest) ∨
      tagBodyLength ('<' :: part ++ '>' :: rest') = tagBodyLength ('<' :: part ++ '>' :: rest) := by
  obtain ⟨start, isStart⟩ : ∃ start, attributesStart ('<' :: part) = start := ⟨_, rfl⟩
  have room : start ≤ ('<' :: part).length := isStart ▸ (attributesStart_bracket part []).2
  have starts (rest : Text) : attributesStart ('<' :: part ++ '>' :: rest) = start :=
    (attributesStart_bracket part rest).1.trans isStart
  rw [tagBodyLength_eq, tagBodyLength_eq]
  simp only [starts, drop_bracket room, getLastD_take_bracket room]
  obtain ⟨before, isBefore⟩ : ∃ c, (('<' :: part).take start).getLastD '<' = c := ⟨_, rfl⟩
  have left : (('<' :: part).drop start).length = part.length + 1 - start := List.length_drop
  rw [isBefore]
  rcases @attributesLength_bracket before (('<' :: part).drop start) rest rest' quotes with far | ⟨same, near⟩
  · left
    omega
  · right
    obtain ⟨length, isLength⟩ : ∃ length,
      attributesLength before (('<' :: part).drop start ++ '>' :: rest) = length := ⟨_, rfl⟩
    rw [isLength] at near
    have inside : start + length ≤ ('<' :: part).length := by
      rw [List.length_cons] at room ⊢
      omega
    rw [same, isLength, drop_bracket inside, drop_bracket inside, takeWhile_bracket isBlank_bracket,
      takeWhile_bracket isBlank_bracket]

/-- The filler behind a name reaches as far as its characters go, unless the tag is closed behind
them. -/
theorem filler_eq_or (text : Text) : filler text = (text.takeWhile isFiller).length ∨
    ∃ more, text.drop (text.takeWhile isFiller).length = '>' :: more := by
  induction text with
  | nil => exact .inl rfl
  | cons c rest ih =>
    rw [filler_cons]
    by_cases closed : c = '/' ∧ rest.head? = some '>'
    · obtain ⟨rfl, first⟩ := closed
      obtain ⟨more, rfl⟩ := List.head?_eq_some_iff.mp first
      exact .inr ⟨more, by simp [isFiller, isBlank_bracket]⟩
    · rw [if_neg closed]
      cases fits : isFiller c with
      | true =>
        have fits' : (isBlank c || decide (c = '/')) = true := fits
        rw [List.takeWhile_cons_of_pos fits, if_pos fits']
        exact ih.imp (congrArg Nat.succ) id
      | false =>
        have fits' : ¬(isBlank c || decide (c = '/')) = true := by
          rw [show (isBlank c || decide (c = '/')) = isFiller c from rfl, fits]
          simp
        rw [List.takeWhile_cons_of_neg (by simp [fits]), if_neg fits']
        exact .inl rfl

/-- The attributes that a tag is read with start behind this many characters. -/
def tagStart (text : Text) : Nat :=
  let name := (tagName (text.drop 1)).length + 1
  name + filler (text.drop name)

/-- The attributes that a tag of the given length is read with. -/
def tagAttributes (text : Text) (length : Nat) : List Attribute :=
  attributesWithin (length - tagStart text) ((text.take (tagStart text)).getLastD '<')
    (text.drop (tagStart text))

/-- What is left of a tag of the given length behind its attributes. -/
def tagEnding (text : Text) (length : Nat) : Text :=
  strip (slice text (tagStart text + totalLength (tagAttributes text length)) length)

theorem foldl_totalLength (start : Nat) (attributes : List Attribute) :
    attributes.foldl (fun stop found => stop + (found.tail + 1)) start =
      start + totalLength attributes := by
  induction attributes generalizing start with
  | nil => rfl
  | cons found rest ih => rw [List.foldl_cons, ih, totalLength_cons, Nat.add_assoc]

theorem startTag_eq (text : Text) : startTag text =
    match tagLength? text with
    | none => .incomplete
    | some length =>
      match (tagAttributes text length).findSome? Attribute.longReference? with
      | some digits => .longReference digits
      | none =>
        if tagEnding text length = ['/', '>'] then .selfClosing length
        else if tagEnding text length = ['>'] then
          .element ((tagName (text.drop 1)).map asciiLower) length
        else .text length := by
  unfold startTag tagEnding
  simp only [foldl_totalLength]
  rfl

theorem tagStart_bracket (part rest : Text) :
    tagStart ('<' :: part ++ '>' :: rest) = tagStart ('<' :: part ++ ['>']) ∧
      tagStart ('<' :: part ++ ['>']) ≤ part.length + 1 := by
  obtain ⟨same, le⟩ := length_tagName_bracket part rest
  obtain ⟨same', -⟩ := length_tagName_bracket part []
  unfold tagStart
  simp only [List.cons_append, List.drop_succ_cons, List.drop_zero, same, same', drop_bracket le]
  obtain ⟨short, fillers⟩ := filler_bracket (part.drop (tagName part).length) [] rest
  rw [List.length_drop] at short
  rw [fillers]
  exact ⟨rfl, by omega⟩

/-- A tag that another character ends, and not a closing mark, has nothing left behind its
attributes. -/
theorem tagEnding_of_junk {text : Text}
    (junk : ∀ more, text.drop (tagBodyLength text) ≠ '>' :: more) :
    tagEnding text (tagBodyLength text) = [] := by
  obtain ⟨name, isName⟩ : ∃ name, (tagName (text.drop 1)).length + 1 = name := ⟨_, rfl⟩
  have start : attributesStart text = name + ((text.drop name).takeWhile isFiller).length := by
    rw [← isName]
    rfl
  have body := tagBodyLength_eq text
  simp only [start] at body
  rcases filler_eq_or (text.drop name) with same | ⟨more, closed⟩
  · have start' : tagStart text = name + ((text.drop name).takeWhile isFiller).length := by
      rw [← same, ← isName]
      rfl
    obtain ⟨from_, isFrom⟩ : ∃ count, name + ((text.drop name).takeWhile isFiller).length = count :=
      ⟨_, rfl⟩
    rw [isFrom] at body start'
    obtain ⟨length, isLength⟩ : ∃ length,
      attributesLength ((text.take from_).getLastD '<') (text.drop from_) = length := ⟨_, rfl⟩
    rw [isLength] at body
    have whole : totalLength (tagAttributes text (tagBodyLength text)) = length := by
      unfold tagAttributes
      rw [start', totalLength_attributesWithin, isLength]
      rw [isLength, body]
      omega
    have blanks : slice text (from_ + length) (tagBodyLength text) =
        (text.drop (from_ + length)).takeWhile isBlank := by
      rw [body, slice, Nat.add_sub_cancel_left]
      exact List.prefix_iff_eq_take.mp (List.takeWhile_prefix isBlank) |>.symm
    rw [tagEnding, start', whole, blanks]
    exact strip_blanks fun c => mem_takeWhile_isBlank
  · rw [List.drop_drop] at closed
    rw [closed, attributesLength_cons, attribute?_none_bracket] at body
    simp only [Nat.add_zero, closed] at body
    rw [List.takeWhile_cons_of_neg (by simp [isBlank_bracket])] at body
    exact absurd (body ▸ closed) (junk more)

theorem slice_front (front rest : Text) (start : Nat) :
    (front ++ rest).slice start front.length = front.drop start := by
  rcases Nat.le_total start front.length with le | le
  · rw [slice, List.drop_append_of_le_length le, List.take_left' (by rw [List.length_drop])]
  · rw [slice, Nat.sub_eq_zero_of_le le, List.take_zero, List.drop_eq_nil_of_le le]

theorem tagEnding_bracket {part rest rest' : Text} (quotes : NoNewQuotes rest rest') {length : Nat}
    (isLength : length = part.length + 2) (text : Text) (isText : text = '<' :: part ++ '>' :: rest)
    (filled : tagEnding text length ≠ []) :
    tagAttributes ('<' :: part ++ '>' :: rest') length = tagAttributes text length ∧
      tagEnding ('<' :: part ++ '>' :: rest') length = tagEnding text length := by
  subst isText
  obtain ⟨same, room⟩ := tagStart_bracket part rest
  obtain ⟨same', -⟩ := tagStart_bracket part rest'
  obtain ⟨start, isStart⟩ : ∃ start, tagStart ('<' :: part ++ ['>']) = start := ⟨_, rfl⟩
  rw [isStart] at same same' room
  have inside : start ≤ ('<' :: part).length := room
  have left : (('<' :: part).drop start).length = part.length + 1 - start := List.length_drop
  have front (rest : Text) : '<' :: part ++ '>' :: rest = ('<' :: part ++ ['>']) ++ rest := by simp
  have behind (rest : Text) (stop : Nat) : slice ('<' :: part ++ '>' :: rest) stop length =
      ('<' :: part ++ ['>']).drop stop := by
    have long : length = ('<' :: part ++ ['>']).length := by simp [isLength]
    rw [front, long, slice_front]
  have attributes : tagAttributes ('<' :: part ++ '>' :: rest') length =
      tagAttributes ('<' :: part ++ '>' :: rest) length := by
    unfold tagAttributes
    rw [same, same', drop_bracket inside, drop_bracket inside, getLastD_take_bracket inside,
      getLastD_take_bracket inside]
    refine (attributesWithin_bracket quotes).resolve_left fun far => filled ?_
    -- Attributes that go too far would leave nothing of the tag.
    unfold tagEnding tagAttributes
    rw [behind, same, drop_bracket inside, getLastD_take_bracket inside, List.drop_eq_nil_of_le]
    · rfl
    · rw [List.length_append, List.length_cons, List.length_singleton]
      omega
  refine ⟨attributes, ?_⟩
  unfold tagEnding
  rw [attributes, behind, behind, same, same']

theorem tagLength?_cases {text : Text} {length : Nat} (h : tagLength? text = some length) :
    (∃ more, text.drop (tagBodyLength text) = '>' :: more ∧ length = tagBodyLength text + 1) ∨
      (∃ more, text.drop (tagBodyLength text) = '/' :: '>' :: more ∧ length = tagBodyLength text + 2) ∨
      (∀ more, text.drop (tagBodyLength text) ≠ '>' :: more) ∧ length = tagBodyLength text := by
  unfold tagLength? at h
  dsimp only at h
  split at h
  · next more here => exact .inl ⟨more, here, (Option.some.inj h).symm⟩
  · next more here => exact .inr (.inl ⟨more, here, (Option.some.inj h).symm⟩)
  · simp at h
  · simp at h
  · next c more notBracket _ _ here =>
    split at h
    · simp at h
    · refine .inr (.inr ⟨fun more' closed => ?_, (Option.some.inj h).symm⟩)
      exact notBracket (List.cons.inj (here.symm.trans closed)).1

theorem tagLength?_bracket {part rest rest' : Text} (quotes : NoNewQuotes rest rest')
    (h : tagLength? ('<' :: part ++ '>' :: rest) = some (part.length + 2))
    (closed : tagEnding ('<' :: part ++ '>' :: rest) (part.length + 2) ≠ []) :
    tagLength? ('<' :: part ++ '>' :: rest') = some (part.length + 2) := by
  have cases := tagLength?_cases h
  have short : tagBodyLength ('<' :: part ++ '>' :: rest) ≤ part.length + 1 := by
    rcases cases with ⟨_, _, isLength⟩ | ⟨_, _, isLength⟩ | ⟨junk, isLength⟩
    · omega
    · omega
    · exact absurd (isLength ▸ tagEnding_of_junk junk) closed
  have same := (@tagBodyLength_bracket part rest rest' quotes).resolve_left (by omega)
  unfold tagLength?
  rw [same]
  obtain ⟨body, isBody⟩ : ∃ body, tagBodyLength ('<' :: part ++ '>' :: rest) = body := ⟨_, rfl⟩
  rw [isBody] at cases short
  have inside : body ≤ ('<' :: part).length := short
  have size : (('<' :: part).drop body).length = part.length + 1 - body := List.length_drop
  simp only [isBody, drop_bracket inside] at cases ⊢
  rcases cases with ⟨more, here, isLength⟩ | ⟨more, here, isLength⟩ | ⟨junk, isLength⟩
  · have nothingLeft : ('<' :: part).drop body = [] := List.length_eq_zero_iff.mp (by omega)
    rw [nothingLeft, isLength]
    rfl
  · obtain ⟨c, isC⟩ := List.length_eq_one_iff.mp (show (('<' :: part).drop body).length = 1 by omega)
    rw [isC] at here ⊢
    rw [(List.cons.inj here).1, isLength]
    rfl
  · rw [← drop_bracket inside, ← isBody] at junk
    exact absurd (isLength ▸ isBody ▸ tagEnding_of_junk junk) closed

theorem startTag_markup {text : Text} {length : Nat}
    (h : startTag text = .selfClosing length ∨ ∃ name, startTag text = .element name length) :
    tagLength? text = some length ∧ tagEnding text length ≠ [] := by
  rw [startTag_eq] at h
  split at h
  · simp at h
  · next found isLength =>
    rw [isLength]
    split at h
    · simp at h
    · split at h
      · next ending =>
        obtain rfl : found = length := by simpa using h
        exact ⟨rfl, by simp [ending]⟩
      · split at h
        · next ending =>
          obtain rfl : found = length := by simpa using h
          exact ⟨rfl, by simp [ending]⟩
        · simp at h

/-- A start tag that is markup does not depend on what stands behind it, but for quotes. -/
theorem startTag_elsewhere {more : Text} {length : Nat}
    (h : startTag ('<' :: more) = .selfClosing length ∨
      ∃ name, startTag ('<' :: more) = .element name length) :
    ∃ part rest, more = part ++ '>' :: rest ∧ length = part.length + 2 ∧
      ∀ rest', NoNewQuotes rest rest' →
        startTag ('<' :: (part ++ '>' :: rest')) = startTag ('<' :: more) := by
  obtain ⟨isLength, filled⟩ := startTag_markup h
  obtain ⟨front, rest, parts, long⟩ : ∃ front rest, '<' :: more = front ++ '>' :: rest ∧
      length = front.length + 1 := by
    have bounded {count : Nat} {c : Char} {later : Text} (here : ('<' :: more).drop count = c :: later) :
        (('<' :: more).take count).length = count := by
      have := congrArg List.length here
      simp only [List.length_drop, List.length_cons] at this
      simp only [List.length_take, List.length_cons]
      omega
    rcases tagLength?_cases isLength with ⟨rest, here, eq⟩ | ⟨rest, here, eq⟩ | ⟨junk, eq⟩
    · exact ⟨_, rest, (here ▸ List.take_append_drop _ _).symm, by rw [bounded here, eq]⟩
    · refine ⟨_ ++ ['/'], rest, ?_, by rw [List.length_append, bounded here, eq]; rfl⟩
      rw [List.append_assoc]
      exact (here ▸ List.take_append_drop _ _).symm
    · exact absurd (eq ▸ tagEnding_of_junk junk) filled
  cases front with
  | nil => simp at parts
  | cons first part =>
    obtain ⟨rfl, rfl⟩ := List.cons.inj parts
    rw [List.length_cons] at long
    refine ⟨part, rest, rfl, long, fun rest' quotes => ?_⟩
    obtain ⟨attributes, ending⟩ := tagEnding_bracket quotes long _ rfl filled
    have found := tagLength?_bracket quotes (long ▸ isLength) (long ▸ filled)
    have names : tagName ((('<' : Char) :: (part ++ '>' :: rest')).drop 1) =
        tagName ((('<' : Char) :: (part ++ '>' :: rest)).drop 1) :=
      (length_tagName_bracket part rest').1.trans (length_tagName_bracket part rest).1.symm
    rw [startTag_eq, startTag_eq, isLength]
    rw [← long] at found
    have found : tagLength? ('<' :: (part ++ '>' :: rest')) = some length := found
    have attributes : tagAttributes ('<' :: (part ++ '>' :: rest')) length = _ := attributes
    have ending : tagEnding ('<' :: (part ++ '>' :: rest')) length = _ := ending
    simp only [found, attributes, ending, names]
    rfl

end Phrasebook.Markup
