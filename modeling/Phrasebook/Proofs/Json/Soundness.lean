import Phrasebook.Proofs.Json.Written
import Phrasebook.Proofs.Template.Call

/-!
# Values that were read

What is read from a text is fit to be written: its whole numbers are short, and no object has a name twice,
whatever the text repeats. So a value that was read and has no float in it is `Plain`. The text of an
object shows a name or its end behind the blanks that follow its first bracket.
-/

namespace Phrasebook.Json

/-! ### Properties of all values inside of a value -/

mutual

/-- A property holds of a value and of all values inside of it. -/
def Throughout (p : Json → Prop) : Json → Prop
  | .array items => p (.array items) ∧ ThroughoutItems p items
  | .object members => p (.object members) ∧ ThroughoutMembers p members
  | value => p value

def ThroughoutItems (p : Json → Prop) : List Json → Prop
  | [] => True
  | item :: rest => Throughout p item ∧ ThroughoutItems p rest

def ThroughoutMembers (p : Json → Prop) : List (CodePoints × Json) → Prop
  | [] => True
  | (_, value) :: rest => Throughout p value ∧ ThroughoutMembers p rest

end

theorem throughoutMembers_iff {p : Json → Prop} {members : List (CodePoints × Json)} :
    ThroughoutMembers p members ↔ ∀ member ∈ members, Throughout p member.2 := by
  induction members with
  | nil => simp [ThroughoutMembers]
  | cons member rest ih => simp [ThroughoutMembers, ih]

/-- A value is no float. -/
def NotFloat : Json → Prop
  | .float _ => False
  | _ => True

/-- No float is inside of a value. -/
def FloatFree (value : Json) : Prop := Throughout NotFloat value

/-- A whole number is short enough to be read, and an object has no name twice. -/
def Fit : Json → Prop
  | .int value => (Nat.toDigits 10 value.natAbs).length ≤ Text.maxDigits
  | .object members => (Members.names members).Nodup
  | _ => True

mutual

theorem plain_of_fit : ∀ {value : Json}, Throughout Fit value → FloatFree value → Plain value
  | .null, _, _ | .bool _, _, _ | .string _, _, _ => trivial
  | .int _, fit, _ => fit
  | .float _, _, free => free
  | .array _, ⟨_, fit⟩, ⟨_, free⟩ => plainItems_of_fit fit free
  | .object _, ⟨distinct, fit⟩, ⟨_, free⟩ => ⟨distinct, plainMembers_of_fit fit free⟩

theorem plainItems_of_fit : ∀ {items : List Json}, ThroughoutItems Fit items → ThroughoutItems NotFloat items →
    PlainItems items
  | [], _, _ => trivial
  | _ :: _, ⟨fit, fits⟩, ⟨free, frees⟩ => ⟨plain_of_fit fit free, plainItems_of_fit fits frees⟩

theorem plainMembers_of_fit : ∀ {members : List (CodePoints × Json)}, ThroughoutMembers Fit members →
    ThroughoutMembers NotFloat members → PlainMembers members
  | [], _, _ => trivial
  | _ :: _, ⟨fit, fits⟩, ⟨free, frees⟩ => ⟨plain_of_fit fit free, plainMembers_of_fit fits frees⟩

end

theorem plainMembers_iff {members : List (CodePoints × Json)} :
    PlainMembers members ↔ ∀ member ∈ members, Plain member.2 := by
  induction members with
  | nil => simp [PlainMembers]
  | cons member rest ih => simp [PlainMembers, ih]

/-! ### Numbers and words -/

theorem value_lt_of_isDigit {c : CodePoint} (digit : isDigit c = true) : c.value - '0'.toNat < 10 := by
  cases c with
  | half _ => simp [isDigit] at digit
  | char c =>
    simp only [isDigit, Bool.and_eq_true, decide_eq_true_eq] at digit
    have upper : c.toNat ≤ '9'.toNat := digit.2
    have zero : '0'.toNat = 48 := rfl
    have nine : '9'.toNat = 57 := rfl
    simp only [CodePoint.value]
    omega

theorem foldl_digits_lt {digits : CodePoints} (isDigits : ∀ c ∈ digits, isDigit c = true) (start : Nat) :
    digits.foldl (fun n c => 10 * n + (c.value - '0'.toNat)) start < (start + 1) * 10 ^ digits.length := by
  induction digits generalizing start with
  | nil => simp
  | cons c rest ih =>
    obtain ⟨here, later⟩ := List.forall_mem_cons.mp isDigits
    have small := value_lt_of_isDigit here
    have next := ih later (10 * start + (c.value - '0'.toNat))
    rw [List.foldl_cons, List.length_cons, pow_succ']
    calc _ < (10 * start + (c.value - '0'.toNat) + 1) * 10 ^ rest.length := next
      _ ≤ ((start + 1) * 10) * 10 ^ rest.length := Nat.mul_le_mul_right _ (by omega)
      _ = (start + 1) * (10 * 10 ^ rest.length) := Nat.mul_assoc _ _ _

theorem digitsValue_lt {digits : CodePoints} (isDigits : ∀ c ∈ digits, isDigit c = true) :
    digitsValue digits < 10 ^ digits.length := by
  simpa [digitsValue] using foldl_digits_lt isDigits 0

theorem isDigit_wholeDigits (text : CodePoints) : ∀ c ∈ wholeDigits text, isDigit c = true := by
  intro c member
  unfold wholeDigits at member
  split at member
  · rw [List.mem_singleton.mp member]
    rfl
  · exact List.mem_takeWhile_imp member

/-- A number that was read is a float, or it has no more digits than can be read. -/
theorem number?_ok {text : CodePoints} {value : Json} {length : Nat} (h : number? text = some (.ok value, length)) :
    (∃ number, value = .float number) ∨
      ∃ number, value = .int number ∧ (Nat.toDigits 10 number.natAbs).length ≤ Text.maxDigits := by
  unfold number? at h
  dsimp only at h
  generalize (if text.head? = some (.char '-') then 1 else 0) = sign at h
  have isDigits := isDigit_wholeDigits (text.drop sign)
  generalize wholeDigits (text.drop sign) = whole at h isDigits
  split at h
  · cases h
  · next filled =>
    split at h
    · obtain ⟨accepted, -⟩ := Prod.mk.inj (Option.some.inj h)
      split at accepted
      · cases accepted
      · next short =>
        obtain rfl := Except.ok.inj accepted
        have positive : 0 < whole.length := List.length_pos_iff.mpr (by simpa using filled)
        have few : (Nat.toDigits 10 (digitsValue whole)).length ≤ whole.length :=
          (Nat.length_toDigits_le_iff (by decide) positive).mpr (digitsValue_lt isDigits)
        have size : (if text.head? = some (.char '-') then -(digitsValue whole : Int) else digitsValue whole).natAbs =
            digitsValue whole := by split <;> omega
        refine .inr ⟨_, rfl, ?_⟩
        rw [size]
        omega
    · obtain ⟨accepted, -⟩ := Prod.mk.inj (Option.some.inj h)
      exact .inl ⟨_, (Except.ok.inj accepted).symm⟩

theorem readPlain_ok {text : CodePoints} {read : Read Json text.length} (h : readPlain text = .ok read) :
    Throughout Fit read.value ∧ ∀ members, read.value ≠ .object members := by
  unfold readPlain at h
  split at h
  · next word value found =>
    obtain rfl := Except.ok.inj h
    have known : (word, value) ∈ words := List.mem_of_find?_eq_some found
    simp only [words, List.map_cons, List.map_nil, List.mem_cons, Prod.mk.injEq, List.not_mem_nil, or_false] at known
    rcases known with ⟨-, rfl⟩ | ⟨-, rfl⟩ | ⟨-, rfl⟩ | ⟨-, rfl⟩ | ⟨-, rfl⟩ | ⟨-, rfl⟩ <;>
      exact ⟨trivial, fun _ same => Json.noConfusion same⟩
  · split at h
    · cases h
    · next value length found =>
      obtain ⟨value, rfl, done⟩ := bind_ok h
      obtain rfl := Except.ok.inj done
      rcases number?_ok found with ⟨number, rfl⟩ | ⟨number, rfl, short⟩
      · exact ⟨trivial, fun _ same => Json.noConfusion same⟩
      · exact ⟨short, fun _ same => Json.noConfusion same⟩

/-! ### One step of a reader -/

/-- The text of an object shows its end behind its first bracket, or it goes on with a member. -/
theorem readValue_opened {text : CodePoints} {read : Read Json (.char '{' :: text).length}
    (h : readValue (.char '{' :: text) = .ok read) :
    (∃ after, skip text = .char '}' :: after) ∧ read.value = .object [] ∨
      ∃ inner, readMembers [] (skip text) = .ok inner ∧ read.value = .object inner.value := by
  rw [readValue] at h
  split at h
  · next after inside =>
    obtain rfl := Except.ok.inj h
    exact .inl ⟨⟨after, inside⟩, rfl⟩
  · obtain ⟨inner, members, done⟩ := bind_ok h
    obtain rfl := Except.ok.inj done
    exact .inr ⟨inner, members, rfl⟩

/-- A value that was read is a string, an object, an array, or a word or number. -/
theorem readValue_ok {text : CodePoints} {read : Read Json text.length} (h : readValue text = .ok read) :
    (∃ value, read.value = .string value) ∨
      (∃ rest, text = .char '{' :: rest ∧ (read.value = .object [] ∨
        ∃ inner, readMembers [] (skip rest) = .ok inner ∧ read.value = .object inner.value)) ∨
      (∃ rest, text = .char '[' :: rest ∧ (read.value = .array [] ∨
        ∃ inner, readItems (skip rest) = .ok inner ∧ read.value = .array inner.value)) ∨
      readPlain text = .ok read := by
  have whole := h
  rw [readValue.eq_def] at h
  split at h
  · obtain ⟨inner, -, done⟩ := bind_ok h
    obtain rfl := Except.ok.inj done
    exact .inl ⟨inner.value, rfl⟩
  · refine .inr (.inl ⟨_, rfl, ?_⟩)
    exact (readValue_opened whole).imp_left And.right
  · refine .inr (.inr (.inl ⟨_, rfl, ?_⟩))
    split at h
    · obtain rfl := Except.ok.inj h
      exact .inl rfl
    · obtain ⟨inner, items, done⟩ := bind_ok h
      obtain rfl := Except.ok.inj done
      exact .inr ⟨inner, items, rfl⟩
  · exact .inr (.inr (.inr h))

theorem readItems_ok {text : CodePoints} {read : Read (List Json) text.length} (h : readItems text = .ok read) :
    ∃ item, readValue text = .ok item ∧ (read.value = [item.value] ∨
      ∃ next inner, next.length < text.length ∧ readItems next = .ok inner ∧
        read.value = item.value :: inner.value) := by
  rw [readItems] at h
  obtain ⟨item, here, h⟩ := bind_ok h
  refine ⟨item, here, ?_⟩
  have left := Nat.le_trans (length_skip_le item.rest) item.bounded
  split at h
  · obtain rfl := Except.ok.inj h
    exact .inl rfl
  · next rest after =>
    obtain ⟨inner, items, done⟩ := bind_ok h
    obtain rfl := Except.ok.inj done
    have skipped := length_skip_le rest
    rw [after, List.length_cons] at left
    exact .inr ⟨skip rest, inner, by omega, items, rfl⟩
  · cases h

theorem readMembers_ok {before : List (CodePoints × Json)} {text : CodePoints} {read : Read (List (CodePoints × Json)) text.length}
    (h : readMembers before text = .ok read) :
    text.head? = some (.char '"') ∧ ∃ name next value, next.length < text.length ∧ readValue next = .ok value ∧
      (read.value = Members.put before name value.value ∨
        ∃ later inner, later.length < text.length ∧
          readMembers (Members.put before name value.value) later = .ok inner ∧ read.value = inner.value) := by
  rw [readMembers.eq_def] at h
  split at h
  · next rest =>
    refine ⟨rfl, ?_⟩
    obtain ⟨name, -, h⟩ := bind_ok h
    have named := Nat.le_trans (length_skip_le name.rest) name.bounded
    split at h
    · next behind colon =>
      obtain ⟨value, valued, h⟩ := bind_ok h
      have skipped := length_skip_le behind
      have left := Nat.le_trans (length_skip_le value.rest) value.bounded
      rw [colon] at named
      simp only [List.length_cons] at named ⊢
      refine ⟨name.value, skip behind, value, by omega, valued, ?_⟩
      dsimp only at h
      split at h
      · obtain rfl := Except.ok.inj h
        exact .inl rfl
      · next further after =>
        obtain ⟨inner, members, done⟩ := bind_ok h
        obtain rfl := Except.ok.inj done
        have skipped := length_skip_le further
        rw [after, List.length_cons] at left
        exact .inr ⟨skip further, inner, by omega, members, rfl⟩
      · cases h
    · cases h
  · cases h

/-! ### Values -/

theorem fit_put {before : List (CodePoints × Json)} (distinct : (Members.names before).Nodup)
    (fit : ThroughoutMembers Fit before) (name : CodePoints) {value : Json} (fits : Throughout Fit value) :
    (Members.names (Members.put before name value)).Nodup ∧
      ThroughoutMembers Fit (Members.put before name value) := by
  refine ⟨Members.nodup_names_alter distinct name _, throughoutMembers_iff.mpr fun member isIn => ?_⟩
  rcases Members.mem_put isIn with old | rfl
  · exact throughoutMembers_iff.mp fit member old
  · exact fits

mutual

theorem readValue_fit {text : CodePoints} {read : Read Json text.length} (h : readValue text = .ok read) :
    Throughout Fit read.value := by
  have shorter (c : CodePoint) (rest : CodePoints) (opened : text = c :: rest) : (skip rest).length < text.length := by
    rw [opened]
    exact Nat.lt_succ_of_le (length_skip_le rest)
  rcases readValue_ok h with ⟨value, same⟩ | ⟨rest, opened, same | ⟨inner, members, same⟩⟩ |
    ⟨rest, opened, same | ⟨inner, items, same⟩⟩ | plain
  · rw [same]
    trivial
  · rw [same]
    exact ⟨List.nodup_nil, trivial⟩
  · have inside := shorter _ rest opened
    rw [same]
    exact @readMembers_fit [] _ _ List.nodup_nil trivial members
  · rw [same]
    exact ⟨trivial, trivial⟩
  · have inside := shorter _ rest opened
    rw [same]
    exact ⟨trivial, readItems_fit items⟩
  · exact (readPlain_ok plain).1
termination_by 2 * text.length
decreasing_by all_goals omega

theorem readItems_fit {text : CodePoints} {read : Read (List Json) text.length} (h : readItems text = .ok read) :
    ThroughoutItems Fit read.value := by
  obtain ⟨item, here, same | ⟨next, inner, shorter, more, same⟩⟩ := readItems_ok h
  · rw [same]
    exact ⟨readValue_fit here, trivial⟩
  · rw [same]
    exact ⟨readValue_fit here, readItems_fit more⟩
termination_by 2 * text.length + 1
decreasing_by all_goals omega

theorem readMembers_fit {before : List (CodePoints × Json)} {text : CodePoints} {read : Read (List (CodePoints × Json)) text.length}
    (distinct : (Members.names before).Nodup) (fit : ThroughoutMembers Fit before)
    (h : readMembers before text = .ok read) :
    (Members.names read.value).Nodup ∧ ThroughoutMembers Fit read.value := by
  obtain ⟨-, name, next, value, shorter, valued, same | ⟨later, inner, shorter', more, same⟩⟩ := readMembers_ok h
  · rw [same]
    exact fit_put distinct fit name (readValue_fit valued)
  · obtain ⟨distinct, fit⟩ := fit_put distinct fit name (readValue_fit valued)
    rw [same]
    exact readMembers_fit distinct fit more
termination_by 2 * text.length + 1
decreasing_by all_goals omega

end

/-! ### Whole texts -/

theorem read_ok {text : CodePoints} {value : Json} (h : read text = .ok value) :
    ∃ inner, readValue (skip text) = .ok inner ∧ value = inner.value := by
  unfold read at h
  split at h
  · cases h
  · obtain ⟨inner, valued, h⟩ := bind_ok h
    split at h
    · exact ⟨inner, valued, (Except.ok.inj h).symm⟩
    · cases h

/-- A value without floats that was read is plain. -/
theorem read_plain {text : CodePoints} {value : Json} (h : read text = .ok value) (free : FloatFree value) :
    Plain value := by
  obtain ⟨inner, valued, rfl⟩ := read_ok h
  exact plain_of_fit (readValue_fit valued) free

/-- The text of an object shows a bracket, and behind it, blanks apart, a name or the other bracket. -/
theorem read_object {text : CodePoints} {members : List (CodePoints × Json)} (h : read text = .ok (.object members)) :
    ∃ rest c after, skip text = .char '{' :: rest ∧ skip rest = c :: after ∧ (c = '"' ∨ c = '}') := by
  obtain ⟨inner, valued, same⟩ := read_ok h
  obtain ⟨value, isString⟩ | ⟨rest, opened, -⟩ | ⟨rest, opened, empty | ⟨items, -, isArray⟩⟩ | plain :=
    readValue_ok valued
  · rw [isString] at same
    cases same
  · generalize skip text = inside at *
    subst opened
    rcases readValue_opened valued with ⟨⟨after, ended⟩, -⟩ | ⟨members, more, -⟩
    · exact ⟨rest, '}', after, rfl, ended, .inr rfl⟩
    · have quoted := (readMembers_ok more).1
      obtain ⟨after, starts⟩ := List.head?_eq_some_iff.mp quoted
      exact ⟨rest, '"', after, rfl, starts, .inl rfl⟩
  · rw [empty] at same
    cases same
  · rw [isArray] at same
    cases same
  · exact absurd same.symm ((readPlain_ok plain).2 members)

end Phrasebook.Json
