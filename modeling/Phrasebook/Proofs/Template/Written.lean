import Phrasebook.Proofs.Template.Grammar

/-!
Calls, read back from their texts. What stands behind an operand is described by `Ends`: it ends
names and literals and does not go on with a reference. Every construct is read in front of any such
rest, so the texts of constructs can be put together. `Invocation.callIn?_text` is the result for the
inner text of a tag.
-/

namespace Phrasebook.Template.Grammar

/-! ### What stands behind an operand -/

/-- A text with its tokens that ends the operand in front of it. -/
structure Ends (offset : Nat) (rest : Text) (later : List Token) : Prop where
  name : endsName rest = true
  literal : endsLiteral rest = true
  noBar : openParams? ('a' :: 's' :: rest) = none
  lexed : tokens offset rest = .ok later
  walked : segments offset later = .ok ⟨[], offset, later, Nat.le_refl _⟩
  notEquals : ∀ token more, later = token :: more → token.kind ≠ .equals

/-- No operand starts here. -/
def NoOperand (later : List Token) : Prop :=
  ∀ token more, later = token :: more → token.startsOperand = false

theorem segments_stop {offset : Nat} {later : List Token}
    (h : ∀ token more, later = token :: more → ¬(token.kind = .separator ∧ token.extent.start = offset)) :
    segments offset later = .ok ⟨[], offset, later, Nat.le_refl _⟩ := by
  cases later with
  | nil => rw [segments]
  | cons token more =>
    rw [segments.eq_def]
    exact if_neg (h token more rfl)

theorem Ends.nil (offset : Nat) : Ends offset [] [] where
  name := rfl
  literal := rfl
  noBar := rfl
  lexed := tokens_nil _
  walked := segments_stop (by simp)
  notEquals := by simp

theorem Ends.closeSub {offset : Nat} {rest : Text} {later : List Token}
    (lexed : tokens (offset + 1) rest = .ok later) :
    Ends offset (')' :: rest) (⟨.closeSub, [')'], ⟨offset, offset + 1⟩⟩ :: later) where
  name := rfl
  literal := rfl
  noBar := by simp [openParams?, Text.isBlank]
  lexed := @tokens_lexeme ')' [] rest .closeSub offset (by decide) (by simp [lexeme?, openParams?]) later lexed
  walked := segments_stop (by simp)
  notEquals := by simp

theorem openParams?_space {c : Char} (solid : Text.isBlank c = false) (notBar : c ≠ '|') (rest : Text) :
    openParams? ('a' :: 's' :: ' ' :: c :: rest) = none := by
  have blank : Text.isBlank ' ' = true := by decide
  simp only [openParams?, List.takeWhile_cons, blank, if_true, solid, Bool.false_eq_true, if_false,
    List.length_cons, List.length_nil, List.drop_succ_cons, List.drop_zero]
  split
  · next same => exact absurd (List.cons.inj same).1 notBar
  · rfl

theorem Ends.space {offset : Nat} {c : Char} {rest : Text} {later : List Token}
    (solid : Text.isBlank c = false) (notBar : c ≠ '|')
    (lexed : tokens (offset + 1) (c :: rest) = .ok later)
    (notEquals : ∀ token more, later = token :: more → token.kind ≠ .equals) :
    Ends offset (' ' :: c :: rest) later where
  name := rfl
  literal := rfl
  noBar := openParams?_space solid notBar rest
  lexed := by rw [tokens_blank _ (by decide), lexed]
  walked := segments_stop fun token more same both => by
    have := tokens_start lexed token (by simp [same])
    omega
  notEquals := notEquals

/-! ### References -/

/-- Segments of a path behind its first, each with the separator in front of it. -/
def stepsText (steps : List (Char × Text)) : Text := steps.flatMap fun step => step.1 :: step.2

/-- A step up, or a name behind a separator. -/
def IsStep (step : Char × Text) : Prop :=
  (step.1 = '/' ∧ step.2 = ['.', '.']) ∨ ((step.1 = '/' ∨ step.1 = '.') ∧ IsName step.2)

theorem lexeme?_slash (rest : Text) : lexeme? '/' rest = some (.separator, 1) := by
  simp [lexeme?, openParams?, number?, word?, Text.startsWith, List.isPrefixOf, isDigit]

theorem lexeme?_dot {c : Char} (isChar : isNameChar c = true) (rest : Text) :
    lexeme? '.' (c :: rest) = some (.separator, 1) := by
  have notUp : c ≠ '.' := nameChar_ne isChar (by decide)
  have notEnd : endsName (c :: rest) = false := by
    by_contra ended
    rw [Bool.not_eq_false] at ended
    simp [endsName_head ended] at isChar
  simp [lexeme?, openParams?, number?, word?, Text.startsWith, List.isPrefixOf, isDigit, Ne.symm notUp, notEnd]

theorem lexeme?_up (rest : Text) : lexeme? '.' ('.' :: rest) = some (.name, 2) := by
  simp [lexeme?, openParams?, number?, word?, Text.startsWith, List.isPrefixOf, isDigit]

theorem lexeme?_at (rest : Text) : lexeme? '@' rest = some (.data, 1) := by
  simp [lexeme?, openParams?, number?, word?, Text.startsWith, List.isPrefixOf, isDigit]

theorem lexeme?_openSub (rest : Text) : lexeme? '(' rest = some (.openSub, 1) := by
  simp [lexeme?, openParams?]

theorem lexeme?_equals (rest : Text) : lexeme? '=' rest = some (.equals, 1) := by
  simp [lexeme?, openParams?]

theorem lexeme?_bar (rest : Text) : lexeme? '|' rest = some (.closeParams, 1) := by
  simp [lexeme?, openParams?]

/-- The token of one mark. -/
theorem tokens_mark {c : Char} {kind : TokenKind} {rest : Text} (solid : Text.isBlank c = false)
    (found : lexeme? c rest = some (kind, 1)) {offset : Nat} {later : List Token}
    (lexed : tokens (offset + 1) rest = .ok later) :
    tokens offset (c :: rest) = .ok (⟨kind, [c], ⟨offset, offset + 1⟩⟩ :: later) :=
  @tokens_lexeme c [] rest kind offset solid found later lexed

theorem tokens_up {rest : Text} {offset : Nat} {later : List Token}
    (lexed : tokens (offset + 2) rest = .ok later) :
    tokens offset ('.' :: '.' :: rest) = .ok (⟨.name, ['.', '.'], ⟨offset, offset + 2⟩⟩ :: later) :=
  @tokens_lexeme '.' ['.'] rest .name offset (by decide) (lexeme?_up rest) later lexed

/-- What stands behind a segment ends it. -/
theorem stepsText_ends {steps : List (Char × Text)} (isSteps : ∀ step ∈ steps, IsStep step)
    {offset : Nat} {rest : Text} {later : List Token} (ends : Ends offset rest later) :
    endsName (stepsText steps ++ rest) = true ∧
      openParams? ('a' :: 's' :: (stepsText steps ++ rest)) = none := by
  cases steps with
  | nil => exact ⟨ends.name, ends.noBar⟩
  | cons step steps =>
    obtain ⟨mark, segment⟩ := step
    have isMark : mark = '/' ∨ mark = '.' := by
      rcases isSteps _ List.mem_cons_self with ⟨isMark, -⟩ | ⟨isMark, -⟩
      · exact .inl isMark
      · exact isMark
    rcases isMark with rfl | rfl <;>
      simp [stepsText, endsName, openParams?, Text.isBlank]

theorem segments_step {offset stop : Nat} {mark segment : Token} {rest : List Token}
    {more : Segments rest.length} (isMark : mark.kind = .separator) (start : mark.extent.start = offset)
    (isName : segment.kind = .name) (next : segment.extent.start = mark.extent.stop)
    (reached : segment.extent.stop = stop) (walked : segments stop rest = .ok more) :
    ∃ all : Segments (mark :: segment :: rest).length, segments offset (mark :: segment :: rest) = .ok all ∧
      all.names = segment.text :: more.names ∧ all.stop = more.stop ∧ all.rest = more.rest := by
  subst reached
  rw [segments.eq_def]
  simp only [isMark, start, isName, next, and_self, if_true, walked]
  exact ⟨_, rfl, rfl, rfl, rfl⟩

/-- The segments of a path are read up to what ends the path. -/
theorem steps_read {steps : List (Char × Text)} (isSteps : ∀ step ∈ steps, IsStep step) {offset : Nat}
    {rest : Text} {later : List Token} (ends : Ends (offset + (stepsText steps).length) rest later) :
    ∃ found, tokens offset (stepsText steps ++ rest) = .ok found ∧
      (∃ more : Segments found.length, segments offset found = .ok more ∧
        more.names = steps.map Prod.snd ∧ more.stop = offset + (stepsText steps).length ∧
        more.rest = later) ∧
      ∀ token more, found = token :: more → token.kind ≠ .equals := by
  induction steps generalizing offset with
  | nil => exact ⟨later, ends.lexed, ⟨_, ends.walked, rfl, rfl, rfl⟩, ends.notEquals⟩
  | cons step steps ih =>
    obtain ⟨mark, segment⟩ := step
    have isSteps' := fun step member => isSteps step (List.mem_cons_of_mem _ member)
    have long : offset + (stepsText ((mark, segment) :: steps)).length =
        offset + 1 + segment.length + (stepsText steps).length := by
      simp only [stepsText, List.flatMap_cons, List.length_append, List.length_cons]
      omega
    rw [long] at ends ⊢
    obtain ⟨found, lexed, ⟨more, walked, names, stop, left⟩, -⟩ := ih isSteps' ends
    obtain ⟨ended, noBar⟩ := stepsText_ends isSteps' ends
    -- The segment is one token, and so is the separator in front of it.
    have segmentLexed : tokens (offset + 1) (segment ++ (stepsText steps ++ rest)) =
        .ok (⟨.name, segment, ⟨offset + 1, offset + 1 + segment.length⟩⟩ :: found) := by
      rcases isSteps _ List.mem_cons_self with ⟨-, rfl⟩ | ⟨-, isName⟩
      · exact tokens_up lexed
      · exact tokens_name isName ended noBar lexed
    have markFound : lexeme? mark (segment ++ (stepsText steps ++ rest)) = some (.separator, 1) ∧
        Text.isBlank mark = false := by
      rcases isSteps _ List.mem_cons_self with ⟨rfl, -⟩ | ⟨rfl | rfl, isName⟩
      · exact ⟨lexeme?_slash _, by decide⟩
      · exact ⟨lexeme?_slash _, by decide⟩
      · obtain ⟨c, word, rfl⟩ := List.exists_cons_of_ne_nil isName.filled
        exact ⟨lexeme?_dot (isName.chars c List.mem_cons_self) _, by decide⟩
    obtain ⟨all, walkedAll, names', stop', left'⟩ := @segments_step offset _
      ⟨.separator, [mark], ⟨offset, offset + 1⟩⟩ ⟨.name, segment, ⟨offset + 1, offset + 1 + segment.length⟩⟩
      found more rfl rfl rfl rfl rfl walked
    refine ⟨_, ?_, ⟨all, walkedAll, ?_, ?_, ?_⟩, ?_⟩
    · have whole : stepsText ((mark, segment) :: steps) ++ rest =
          mark :: (segment ++ (stepsText steps ++ rest)) := by
        simp [stepsText]
      rw [whole]
      exact tokens_mark markFound.2 markFound.1 segmentLexed
    · rw [names', names]
      rfl
    · rw [stop', stop]
    · rw [left', left]
    · rintro token more' same
      rw [← (List.cons.inj same).1]
      simp

/-- A name is the segment that it is written as. -/
theorem Name.segment (name : Name) : name.text ≠ ['.', '.'] ∧ name.text ≠ ['.'] ∧
    segmentName name.text = name.text := by
  have chars := name.isName.chars
  have notDot : '.' ∉ name.text := fun member => absurd (chars '.' member) (by decide)
  refine ⟨fun same => notDot (by simp [same]), fun same => notDot (by simp [same]), ?_⟩
  unfold segmentName
  rw [if_neg]
  rintro ⟨bracket, -⟩
  exact absurd (chars '[' (List.mem_of_mem_head? bracket)) (by decide)

theorem ofSegments_names (written : Text) (data : Bool) (steps : Nat) (names : List Name) :
    Path.ofSegments written data (List.replicate steps ['.', '.'] ++ names.map Name.text) =
      ⟨written, names.map Name.text, data, steps⟩ := by
  have kept : (names.map Name.text).filter
      (fun s => s ≠ "..".toList ∧ s ≠ ".".toList ∧ s ≠ "this".toList) = names.map Name.text := by
    refine List.filter_eq_self.mpr (List.forall_mem_map.mpr fun name _ => ?_)
    exact decide_eq_true ⟨name.segment.1, name.segment.2.1, name.notThis⟩
  have noUp : (names.map Name.text).filter (· = "..".toList) = [] := by
    refine List.filter_eq_nil_iff.mpr (List.forall_mem_map.mpr fun name _ => ?_)
    simpa using name.segment.1
  have dropped : (List.replicate steps ['.', '.']).filter
      (fun s => s ≠ "..".toList ∧ s ≠ ".".toList ∧ s ≠ "this".toList) = ([] : List Text) := by
    refine List.filter_eq_nil_iff.mpr fun segment member => ?_
    simp [List.eq_of_mem_replicate member]
  have ups : (List.replicate steps ['.', '.']).filter (· = "..".toList) =
      List.replicate steps (['.', '.'] : Text) :=
    List.filter_eq_self.mpr fun segment member => by simp [List.eq_of_mem_replicate member]
  have named : (names.map Name.text).map segmentName = names.map Name.text := by
    rw [List.map_map]
    exact List.map_congr_left fun name _ => name.segment.2.2
  unfold Path.ofSegments
  rw [List.filter_append, List.filter_append, dropped, kept, ups, noUp, List.nil_append, named,
    List.append_nil, List.length_replicate]

/-- The names behind the first one, as segments. -/
def nameSteps (names : List Name) : List (Char × Text) := names.map fun name => ('.', name.text)

theorem stepsText_names (names : List Name) : stepsText (nameSteps names) = dotted names := by
  simp [stepsText, nameSteps, dotted, List.flatMap_map]

theorem nameSteps_isStep (names : List Name) : ∀ step ∈ nameSteps names, IsStep step :=
  List.forall_mem_map.mpr fun name _ => .inr ⟨.inr rfl, name.isName⟩

/-- The segments of a reference with steps up, behind the first step. -/
def upSteps (steps : Nat) (first : Name) (more : List Name) : List (Char × Text) :=
  List.replicate steps ('/', ['.', '.']) ++ ('/', first.text) :: nameSteps more

theorem stepsText_up (steps : Nat) (first : Name) (more : List Name) :
    (Root.up (steps + 1)).text ++ (first.text ++ dotted more) =
      ['.', '.'] ++ stepsText (upSteps steps first more) := by
  have shift : ∀ rest : Text, (List.replicate (steps + 1) (['.', '.', '/'] : Text)).flatten ++ rest =
      ['.', '.'] ++ ((List.replicate steps (['/', '.', '.'] : Text)).flatten ++ '/' :: rest) := by
    intro rest
    induction steps with
    | zero => rfl
    | succ steps ih =>
      rw [List.replicate_succ, List.flatten_cons, List.append_assoc, ih, List.replicate_succ,
        List.flatten_cons]
      rfl
  have steps' : stepsText (List.replicate steps ('/', (['.', '.'] : Text))) =
      (List.replicate steps (['/', '.', '.'] : Text)).flatten := by
    simp [stepsText, List.flatMap_def]
  rw [Root.text, shift, upSteps, stepsText, List.flatMap_append, ← stepsText, steps', List.flatMap_cons,
    ← stepsText, stepsText_names]
  simp

theorem upSteps_isStep (steps : Nat) (first : Name) (more : List Name) :
    ∀ step ∈ upSteps steps first more, IsStep step := by
  intro step member
  rcases List.mem_append.mp member with up | name
  · rw [List.eq_of_mem_replicate up]
    exact .inl ⟨rfl, rfl⟩
  · rcases List.mem_cons.mp name with rfl | later
    · exact .inr ⟨.inl rfl, first.isName⟩
    · exact nameSteps_isStep more step later

theorem startsNamed_false {token : Token} {tail : List Token}
    (h : ∀ next more, tail = next :: more → next.kind ≠ .equals) : startsNamed (token :: tail) = false := by
  cases tail with
  | nil => rfl
  | cons next more => simp [startsNamed, h next more rfl]

/-- A reference that starts with a name, or with a step up, is read as a path. -/
theorem reads_path {text before rest segment : Text} {steps : List (Char × Text)} {later : List Token}
    (isSteps : ∀ step ∈ steps, IsStep step) (isSegment : IsName segment ∨ segment = ['.', '.'])
    (whole : text = before ++ (segment ++ stepsText steps ++ rest))
    (ends : Ends (before.length + (segment ++ stepsText steps).length) rest later) :
    ∃ token tail, tokens before.length (segment ++ stepsText steps ++ rest) = .ok (token :: tail) ∧
      token.startsOperand = true ∧ startsNamed (token :: tail) = false ∧
      ReadsOperand text token tail (.path .blank (Path.ofSegments (segment ++ stepsText steps) false
        (segment :: steps.map Prod.snd))) later := by
  rw [List.length_append, ← Nat.add_assoc] at ends
  obtain ⟨found, lexed, ⟨more, walked, names, stop, left⟩, notEquals⟩ := steps_read isSteps ends
  obtain ⟨ended, noBar⟩ := stepsText_ends isSteps ends
  have first : tokens before.length (segment ++ (stepsText steps ++ rest)) =
      .ok (⟨.name, segment, ⟨before.length, before.length + segment.length⟩⟩ :: found) := by
    rcases isSegment with isName | rfl
    · exact tokens_name isName ended noBar lexed
    · exact tokens_up lexed
  have written : text.slice before.length more.stop = segment ++ stepsText steps := by
    rw [stop, whole, ← List.append_assoc]
    exact Text.slice_append_of_length rfl (by simp [Nat.add_assoc])
  have read := @ReadsOperand.name text ⟨.name, segment, ⟨before.length, before.length + segment.length⟩⟩
    found more rfl walked
  simp only [names, written, left] at read
  rw [List.append_assoc]
  exact ⟨_, found, first, rfl, startsNamed_false notEquals, read⟩

/-- A reference is read in front of what ends it. -/
theorem Reference.reads (reference : Reference) {text before rest : Text} {later : List Token}
    (whole : text = before ++ (reference.text ++ rest))
    (ends : Ends (before.length + reference.text.length) rest later) :
    ∃ token tail, tokens before.length (reference.text ++ rest) = .ok (token :: tail) ∧
      token.startsOperand = true ∧ startsNamed (token :: tail) = false ∧
      ReadsOperand text token tail (.path .blank reference.path) later := by
  obtain ⟨root, first, more⟩ := reference
  have names : (nameSteps more).map Prod.snd = more.map Name.text := by simp [nameSteps]
  cases root with
  | up steps =>
    cases steps with
    | zero =>
      have same : Reference.text ⟨.up 0, first, more⟩ = first.text ++ stepsText (nameSteps more) := by
        rw [stepsText_names]
        rfl
      have path := ofSegments_names (first.text ++ stepsText (nameSteps more)) false 0 (first :: more)
      have read := reads_path (nameSteps_isStep more) (.inl first.isName) (same ▸ whole) (same ▸ ends)
      rw [names] at read
      rw [List.replicate_zero, List.nil_append, List.map_cons] at path
      rw [path, ← same] at read
      exact read
    | succ steps =>
      have same : Reference.text ⟨.up (steps + 1), first, more⟩ =
          ['.', '.'] ++ stepsText (upSteps steps first more) := stepsText_up steps first more
      have path := ofSegments_names (['.', '.'] ++ stepsText (upSteps steps first more)) false (steps + 1)
        (first :: more)
      have read := reads_path (upSteps_isStep steps first more) (.inr rfl) (same ▸ whole) (same ▸ ends)
      have all : (['.', '.'] : Text) :: (upSteps steps first more).map Prod.snd =
          List.replicate (steps + 1) ['.', '.'] ++ (first :: more).map Name.text := by
        simp [upSteps, names, List.replicate_succ]
      rw [all, path, ← same] at read
      exact read
  | data =>
    have same : Reference.text ⟨.data, first, more⟩ = '@' :: (first.text ++ stepsText (nameSteps more)) := by
      rw [stepsText_names]
      rfl
    have long : before.length + (Reference.text ⟨.data, first, more⟩).length =
        before.length + 1 + first.text.length + (stepsText (nameSteps more)).length := by
      rw [same, List.length_cons, List.length_append]
      omega
    rw [long] at ends
    obtain ⟨found, lexed, ⟨others, walked, names', stop, left⟩, -⟩ := steps_read (nameSteps_isStep more) ends
    obtain ⟨ended, noBar⟩ := stepsText_ends (nameSteps_isStep more) ends
    have segment := tokens_name first.isName ended noBar lexed
    have written : text.slice before.length others.stop = Reference.text ⟨.data, first, more⟩ := by
      rw [stop, whole, ← List.append_assoc]
      exact Text.slice_append_of_length rfl long
    have read := @ReadsOperand.data text ⟨.data, ['@'], ⟨before.length, before.length + 1⟩⟩
      ⟨.name, first.text, ⟨before.length + 1, before.length + 1 + first.text.length⟩⟩ found others rfl rfl
      walked
    have path := ofSegments_names (Reference.text ⟨.data, first, more⟩) true 0 (first :: more)
    rw [List.replicate_zero, List.nil_append, List.map_cons] at path
    simp only [names', names, written, left, path] at read
    refine ⟨_, _, ?_, rfl, rfl, read⟩
    rw [same, List.cons_append, List.append_assoc]
    exact tokens_mark (by decide) (lexeme?_at _) segment

/-! ### Literals -/

/-- The sign of a whole number as written. -/
def signText (value : Int) : Text := if value < 0 then ['-'] else []

theorem Whole.text_eq (number : Whole) :
    number.text = signText number.value ++ Nat.toDigits 10 number.value.natAbs := by
  unfold Whole.text signText
  split <;> rfl

theorem digits_isDigit (n : Nat) : ∀ c ∈ Nat.toDigits 10 n, isDigit c = true := by
  intro c member
  have digit := Nat.isDigit_of_mem_toDigits (by decide) (by decide) member
  simpa [Char.isDigit, isDigit, Char.le_def] using digit

theorem number?_digits {sign digits rest : Text} (isSign : sign = [] ∨ sign = ['-']) (filled : digits ≠ [])
    (isDigits : ∀ c ∈ digits, isDigit c = true) (ended : endsLiteral rest = true) :
    number? (sign ++ (digits ++ rest)) = some (sign.length + digits.length) := by
  have taken : (digits ++ rest).takeWhile isDigit = digits := by
    rw [List.takeWhile_append_of_pos isDigits]
    cases rest with
    | nil => simp
    | cons c rest =>
      have stop := (endsLiteral_head ended).1
      have notDigit : isDigit c = false := by
        by_contra digit
        rw [Bool.not_eq_false] at digit
        simp [isDigit_nameChar digit] at stop
      simp [notDigit]
  have notSign : ∀ more, digits ++ rest ≠ '-' :: more := by
    intro more same
    obtain ⟨c, more', rfl⟩ := List.exists_cons_of_ne_nil filled
    have digit := isDigits c List.mem_cons_self
    rw [(List.cons.inj same).1] at digit
    exact absurd digit (by decide)
  have noPoint : ∀ more, rest ≠ '.' :: more := by
    rintro more rfl
    exact (endsLiteral_head ended).2 rfl
  have dropped : (sign ++ (digits ++ rest)).drop sign.length = digits ++ rest := List.drop_left
  have behind : (sign ++ (digits ++ rest)).drop (sign.length + digits.length) = rest := by
    rw [← List.drop_drop, dropped, List.drop_left]
  unfold number?
  extract_lets sign' whole fraction length
  have isSign' : sign' = sign.length := by
    unfold sign'
    rcases isSign with rfl | rfl
    · rw [List.nil_append]
      split
      · next more same => exact absurd same (notSign more)
      · rfl
    · rfl
  have isWhole : whole = digits.length := by
    unfold whole
    rw [isSign', dropped, taken]
  have noFraction : fraction = 0 := by
    unfold fraction
    rw [isSign', isWhole, behind]
    split
    · next more => exact absurd rfl (noPoint more)
    · rfl
  have isLength : length = sign.length + digits.length := by
    unfold length
    rw [if_pos noFraction, isSign', isWhole, Nat.add_zero]
  rw [isLength, behind, isWhole, if_pos ⟨by simpa using filled, ended⟩]

theorem signText_cases (value : Int) : signText value = [] ∨ signText value = ['-'] := by
  unfold signText
  split
  · exact .inr rfl
  · exact .inl rfl

theorem Whole.head (number : Whole) :
    ∃ c word, number.text = c :: word ∧ c ≠ 'a' ∧ isNameChar c = true := by
  have whole := number.text_eq
  obtain ⟨d, digits, same⟩ :=
    List.exists_cons_of_ne_nil (Nat.toDigits_ne_nil (n := number.value.natAbs) (b := 10))
  rcases signText_cases number.value with sign | sign
  · have digit := digits_isDigit number.value.natAbs d (by simp [same])
    rw [sign, same, List.nil_append] at whole
    refine ⟨d, digits, whole, ?_, isDigit_nameChar digit⟩
    rintro rfl
    exact absurd digit (by decide)
  · rw [sign] at whole
    exact ⟨'-', _, whole, by decide, by decide⟩

theorem Whole.chars (number : Whole) : ∀ c ∈ number.text, isNameChar c = true := by
  intro c member
  rw [number.text_eq] at member
  rcases List.mem_append.mp member with isSign | digit
  · rcases signText_cases number.value with sign | sign <;> rw [sign] at isSign
    · simp at isSign
    · rw [List.mem_singleton.mp isSign]
      decide
  · exact isDigit_nameChar (digits_isDigit number.value.natAbs c digit)

theorem lexeme?_number {c : Char} {word rest : Text} (isChar : isNameChar c = true) (notLetter : c ≠ 'a')
    (found : number? (c :: (word ++ rest)) = some (word.length + 1)) :
    lexeme? c (word ++ rest) = some (.number, word.length + 1) := by
  have noBar : openParams? (c :: (word ++ rest)) = none := by
    unfold openParams?
    split
    · next same => exact absurd (List.cons.inj same).1 notLetter
    · rfl
  have one (d : Char) (other : isNameChar d = false) : c ≠ d := nameChar_ne isChar other
  unfold lexeme?
  simp [noBar, found, one '|' (by decide), one '(' (by decide), one ')' (by decide), one '=' (by decide),
    one '"' (by decide), one '\'' (by decide), one '@' (by decide)]

theorem lexeme?_whole {number : Whole} {c : Char} {word rest : Text} (same : number.text = c :: word)
    (ended : endsLiteral rest = true) : lexeme? c (word ++ rest) = some (.number, word.length + 1) := by
  have found := number?_digits (signText_cases number.value) Nat.toDigits_ne_nil
    (digits_isDigit number.value.natAbs) ended
  rw [← List.append_assoc, ← List.length_append, ← number.text_eq, same, List.cons_append] at found
  obtain ⟨c', word', same', notLetter, isChar⟩ := number.head
  obtain ⟨rfl, -⟩ := List.cons.inj (same'.symm.trans same)
  exact lexeme?_number isChar notLetter found

theorem Whole.read (number : Whole) : Number.read number.text = .ok (.int number.value) := by
  have digits := digits_isDigit number.value.natAbs
  have value : digitsValue (Nat.toDigits 10 number.value.natAbs) = number.value.natAbs :=
    Nat.ofDigitChars_toDigits (by decide) (by decide)
  have noPoint : '.' ∉ Nat.toDigits 10 number.value.natAbs :=
    fun member => absurd (digits '.' member) (by decide)
  have noMinus : (Nat.toDigits 10 number.value.natAbs).head? ≠ some '-' :=
    fun head => absurd (digits '-' (List.mem_of_mem_head? head)) (by decide)
  have short := Nat.not_lt.mpr number.short
  unfold Number.read Whole.text
  by_cases negative : number.value < 0
  · have back : -((number.value.natAbs : Int)) = number.value := by omega
    have point : (('-' : Char) :: Nat.toDigits 10 number.value.natAbs).contains '.' = false := by
      simp [noPoint]
    simp only [if_pos negative, point, short, value, decide_true, if_true, if_false, List.head?_cons,
      List.drop_succ_cons, List.drop_zero, Bool.false_eq_true, back]
  · have back : (number.value.natAbs : Int) = number.value := by omega
    simp [negative, noPoint, noMinus, short, value]
    omega

theorem lexeme?_true {rest : Text} (ended : endsLiteral rest = true) :
    lexeme? 't' ('r' :: 'u' :: 'e' :: rest) = some (.boolean, 4) := by
  simp [lexeme?, openParams?, number?, word?, Text.startsWith, List.isPrefixOf, isDigit, ended]

theorem lexeme?_false {rest : Text} (ended : endsLiteral rest = true) :
    lexeme? 'f' ('a' :: 'l' :: 's' :: 'e' :: rest) = some (.boolean, 5) := by
  simp [lexeme?, openParams?, number?, word?, Text.startsWith, List.isPrefixOf, isDigit, ended]

theorem lexeme?_undefined {rest : Text} (ended : endsLiteral rest = true) :
    lexeme? 'u' ('n' :: 'd' :: 'e' :: 'f' :: 'i' :: 'n' :: 'e' :: 'd' :: rest) =
      some (.undefined, 9) := by
  simp [lexeme?, openParams?, number?, word?, Text.startsWith, List.isPrefixOf, isDigit, ended]

theorem lexeme?_null {rest : Text} (ended : endsLiteral rest = true) :
    lexeme? 'n' ('u' :: 'l' :: 'l' :: rest) = some (.null, 4) := by
  simp [lexeme?, openParams?, number?, word?, Text.startsWith, List.isPrefixOf, isDigit, ended]

theorem readLiteral_true (extent : Extent) :
    readLiteral ⟨.boolean, ['t', 'r', 'u', 'e'], extent⟩ = .ok (.boolean true) := by
  have same : (['t', 'r', 'u', 'e'] : Text) = "true".toList := by decide
  simp only [readLiteral, same, decide_true]

theorem readLiteral_false (extent : Extent) :
    readLiteral ⟨.boolean, ['f', 'a', 'l', 's', 'e'], extent⟩ = .ok (.boolean false) := by
  have other : (['f', 'a', 'l', 's', 'e'] : Text) ≠ "true".toList := by decide
  simp only [readLiteral, decide_eq_false other]

/-! ### Operands and arguments -/

/-- A text in front of `rest` is read as an operand. -/
def OperandRead (text : Text) (offset : Nat) (written rest : Text) (expr : Expr Unit)
    (later : List Token) : Prop :=
  ∃ token tail, tokens offset (written ++ rest) = .ok (token :: tail) ∧ token.startsOperand = true ∧
    startsNamed (token :: tail) = false ∧ ReadsOperand text token tail expr later

/-- A token that stands for a literal. -/
def IsLiteral (kind : TokenKind) : Prop :=
  kind = .string ∨ kind = .number ∨ kind = .boolean ∨ kind = .undefined ∨ kind = .null

theorem reads_literal {text rest written : Text} {c : Char} {word : Text} {kind : TokenKind}
    {value : Literal} (same : written = c :: word) (solid : Text.isBlank c = false)
    (found : lexeme? c (word ++ rest) = some (kind, word.length + 1)) (isLiteral : IsLiteral kind)
    (read : ∀ extent, readLiteral ⟨kind, c :: word, extent⟩ = .ok value) {offset : Nat}
    {later : List Token} (ends : Ends (offset + written.length) rest later) :
    OperandRead text offset written rest (.literal .blank value) later := by
  subst same
  refine ⟨_, later, tokens_lexeme solid found ends.lexed, ?_, startsNamed_false ends.notEquals,
    ReadsOperand.literal ?_ ?_ ?_ (read _) later⟩ <;>
    rcases isLiteral with rfl | rfl | rfl | rfl | rfl <;> simp [Token.startsOperand]

theorem notEquals_of_operand {token : Token} {tail : List Token} (starts : token.startsOperand = true) :
    ∀ next more, token :: tail = next :: more → next.kind ≠ .equals := by
  rintro next more same isEquals
  rw [(List.cons.inj same).1] at starts
  simp [Token.startsOperand, isEquals] at starts

/-- Named arguments may start here, but no operand does. -/
def StartsNothing (found : List Token) : Prop :=
  ∀ token more, found = token :: more → ¬(token.startsOperand = true ∧ ¬startsNamed (token :: more) = true)

theorem ReadsArguments.behind {text : Text} {found left : List Token}
    {pairs : List (NamedArg Unit (Expr Unit))} (nothing : StartsNothing found)
    (given : ReadsNamed text found pairs left) : ReadsArguments text found [] (namedOf pairs) left := by
  cases found with
  | cons token more => exact ReadsArguments.named (nothing token more rfl) given
  | nil =>
    intro next
    obtain ⟨parsed, read, rfl, rfl⟩ := given next
    rw [readNamed.eq_def] at read
    obtain rfl := Except.ok.inj read
    exact ReadsArguments.nil next

theorem Name.head (name : Name) : ∃ c word, name.text = c :: word ∧ Text.isBlank c = false ∧ c ≠ '|' := by
  obtain ⟨c, word, same⟩ := List.exists_cons_of_ne_nil name.isName.filled
  have isChar := name.isName.chars c (by simp [same])
  exact ⟨c, word, same, isNameChar_blank isChar, nameChar_ne isChar (by decide)⟩

theorem Reference.head (reference : Reference) :
    ∃ c word, reference.text = c :: word ∧ (isNameChar c = true ∨ c = '@' ∨ c = '.') := by
  obtain ⟨root, first, more⟩ := reference
  cases root with
  | data => exact ⟨'@', _, rfl, .inr (.inl rfl)⟩
  | up steps =>
    cases steps with
    | zero =>
      obtain ⟨c, word, same⟩ := List.exists_cons_of_ne_nil first.isName.filled
      exact ⟨c, word ++ dotted more, by simp [Reference.text, Root.text, same],
        .inl (first.isName.chars c (by simp [same]))⟩
    | succ steps => exact ⟨'.', _, rfl, .inr (.inr rfl)⟩

theorem Operand.head (operand : Operand) :
    ∃ c word, operand.text = c :: word ∧ Text.isBlank c = false ∧ c ≠ '|' := by
  cases operand with
  | reference reference =>
    obtain ⟨c, word, same, isHead⟩ := reference.head
    refine ⟨c, word, same, ?_⟩
    rcases isHead with isChar | rfl | rfl
    · exact ⟨isNameChar_blank isChar, nameChar_ne isChar (by decide)⟩
    · decide
    · decide
  | string text =>
    refine ⟨_, _, rfl, ?_⟩
    rcases quoteFor_cases text.text with quote | quote <;> rw [quote] <;> decide
  | whole number =>
    obtain ⟨c, word, same, -, isChar⟩ := number.head
    exact ⟨c, word, same, isNameChar_blank isChar, nameChar_ne isChar (by decide)⟩
  | boolean value =>
    cases value
    · exact ⟨'f', _, rfl, by decide⟩
    · exact ⟨'t', _, rfl, by decide⟩
  | undefined => exact ⟨'u', _, rfl, by decide⟩
  | null => exact ⟨'n', _, rfl, by decide⟩
  | sub callee arguments => exact ⟨'(', _, rfl, by decide⟩

theorem noOperand_cons {token : Token} {later : List Token} (h : token.startsOperand = false) :
    NoOperand (token :: later) := by
  intro first more same
  rw [← (List.cons.inj same).1]
  exact h

theorem startsNamed_noOperand {token : Token} {more : List Token} (h : token.startsOperand = false) :
    startsNamed (token :: more) = false := by
  have notName : token.kind ≠ .name := by
    intro isName
    simp [Token.startsOperand, isName] at h
  cases more with
  | nil => rfl
  | cons next more => simp [startsNamed, notName]

mutual

theorem Operand.reads : ∀ (operand : Operand) {text before rest : Text} {offset : Nat}
    {later : List Token}, text = before ++ (operand.text ++ rest) → before.length = offset →
    Ends (offset + operand.text.length) rest later →
    OperandRead text offset operand.text rest operand.expr later
  | .reference reference, _, _, _, _, _, whole, start, ends => by
    subst start
    exact reference.reads whole ends
  | .string ⟨value, plain⟩, _, _, rest, _, _, _, _, ends => by
    have found := lexeme?_quoted plain rest
    refine reads_literal rfl ?_ ?_ (.inl rfl) (readLiteral_quoted _) ends
    · rcases quoteFor_cases value with quote | quote <;> rw [quote] <;> decide
    · rw [List.append_assoc, List.singleton_append, found, List.length_append]
      rfl
  | .whole number, _, _, _, _, _, _, _, ends => by
    obtain ⟨c, word, same, -, isChar⟩ := number.head
    refine reads_literal same (isNameChar_blank isChar) (lexeme?_whole same ends.literal) (.inr (.inl rfl))
      (fun extent => ?_) ends
    rw [← same]
    simp [readLiteral, number.read, bind, Except.bind]
  | .boolean true, _, _, _, _, _, _, _, ends =>
    reads_literal rfl (by decide) (lexeme?_true ends.literal) (.inr (.inr (.inl rfl)))
      readLiteral_true ends
  | .boolean false, _, _, _, _, _, _, _, ends =>
    reads_literal rfl (by decide) (lexeme?_false ends.literal) (.inr (.inr (.inl rfl)))
      readLiteral_false ends
  | .undefined, _, _, _, _, _, _, _, ends =>
    reads_literal rfl (by decide) (lexeme?_undefined ends.literal) (.inr (.inr (.inr (.inl rfl))))
      (fun _ => rfl) ends
  | .null, _, _, _, _, _, _, _, ends =>
    reads_literal rfl (by decide) (lexeme?_null ends.literal) (.inr (.inr (.inr (.inr rfl))))
      (fun _ => rfl) ends
  | .sub callee arguments, text, before, rest, offset, later, whole, start, ends => by
    subst start
    have long : before.length + (Operand.text (.sub callee arguments)).length =
        before.length + 1 + callee.text.length + arguments.text.length + 1 := by
      simp only [Operand.text, List.length_cons, List.length_append, List.length_nil]
      omega
    rw [long] at ends
    have close := Ends.closeSub ends.lexed
    obtain ⟨found, endsFound, given⟩ := @Arguments.reads arguments text (before ++ '(' :: callee.text)
      (')' :: rest) (before.length + 1 + callee.text.length) _ (by rw [whole]; simp [Operand.text])
      (by simp; omega) close (noOperand_cons rfl)
    obtain ⟨first, tail, lexed, starts, -, called⟩ := @Reference.reads callee text (before ++ ['('])
      (arguments.text ++ ')' :: rest) found (by rw [whole]; simp [Operand.text]) (by simpa using endsFound)
    refine ⟨⟨.openSub, ['('], ⟨before.length, before.length + 1⟩⟩, first :: tail, ?_, rfl, ?_,
      ReadsOperand.sub rfl starts called given rfl⟩
    · have written : Operand.text (.sub callee arguments) ++ rest =
          '(' :: (callee.text ++ (arguments.text ++ ')' :: rest)) := by simp [Operand.text]
      rw [written]
      rw [List.length_append] at lexed
      exact tokens_mark (by decide) (lexeme?_openSub _) lexed
    · exact startsNamed_false (notEquals_of_operand starts)

theorem Arguments.reads : ∀ (arguments : Arguments) {text before rest : Text} {offset : Nat}
    {later : List Token}, text = before ++ (arguments.text ++ rest) → before.length = offset →
    Ends (offset + arguments.text.length) rest later → NoOperand later →
    ∃ found, Ends offset (arguments.text ++ rest) found ∧
      ReadsArguments text found arguments.params arguments.namedArgs later
  | .named pairs, text, before, rest, offset, later, whole, start, ends, noMore => by
    obtain ⟨found, ends', nothing, given⟩ := pairs.reads whole start ends noMore
    refine ⟨found, ends', ?_⟩
    have read := ReadsArguments.behind nothing given
    cases pairs <;> exact read
  | .param first arguments, text, before, rest, offset, later, whole, start, ends, noMore => by
    subst start
    have long : before.length + (Arguments.text (.param first arguments)).length =
        before.length + 1 + first.text.length + arguments.text.length := by
      simp only [Arguments.text, List.length_cons, List.length_append]
      omega
    rw [long] at ends
    obtain ⟨found, endsFound, given⟩ := @Arguments.reads arguments text (before ++ ' ' :: first.text) rest
      (before.length + 1 + first.text.length) _ (by rw [whole]; simp [Arguments.text])
      (by simp; omega) ends noMore
    obtain ⟨token, tail, lexed, starts, plain, read⟩ := @Operand.reads first text (before ++ [' '])
      (arguments.text ++ rest) (before.length + 1) found (by rw [whole]; simp [Arguments.text]) (by simp)
      endsFound
    obtain ⟨c, word, same, solid, notBar⟩ := first.head
    refine ⟨token :: tail, ?_, ReadsArguments.param starts plain read given⟩
    rw [same, List.cons_append] at lexed
    have written : Arguments.text (.param first arguments) ++ rest =
        ' ' :: c :: (word ++ (arguments.text ++ rest)) := by
      simp [Arguments.text, same]
    rw [written]
    exact Ends.space solid notBar lexed (notEquals_of_operand starts)

theorem Pairs.reads : ∀ (pairs : Pairs) {text before rest : Text} {offset : Nat}
    {later : List Token}, text = before ++ (pairs.text ++ rest) → before.length = offset →
    Ends (offset + pairs.text.length) rest later → NoOperand later →
    ∃ found, Ends offset (pairs.text ++ rest) found ∧ StartsNothing found ∧
      ReadsNamed text found pairs.list later
  | .none, _, _, _, _, later, _, _, ends, noMore => by
    refine ⟨later, ends, fun token more same both => ?_, ReadsNamed.done ?_⟩
    · simp [noMore token more same] at both
    · cases later with
      | nil => rfl
      | cons token more => exact startsNamed_noOperand (noMore token more rfl)
  | .pair name value pairs, text, before, rest, offset, later, whole, start, ends, noMore => by
    subst start
    have long : before.length + (Pairs.text (.pair name value pairs)).length =
        before.length + 1 + name.text.length + 1 + value.text.length + pairs.text.length := by
      simp only [Pairs.text, List.length_cons, List.length_append]
      omega
    rw [long] at ends
    obtain ⟨found, endsFound, -, given⟩ := @Pairs.reads pairs text
      (before ++ ' ' :: (name.text ++ '=' :: value.text)) rest
      (before.length + 1 + name.text.length + 1 + value.text.length) _ (by rw [whole]; simp [Pairs.text])
      (by simp; omega) ends noMore
    obtain ⟨token, tail, lexed, starts, -, read⟩ := @Operand.reads value text
      (before ++ ' ' :: (name.text ++ ['='])) (pairs.text ++ rest) (before.length + 1 + name.text.length + 1)
      found (by rw [whole]; simp [Pairs.text]) (by simp; omega) endsFound
    have equals := tokens_mark (by decide) (lexeme?_equals _) lexed
    have named := tokens_name name.isName rfl (by simp [openParams?, Text.isBlank]) equals
    obtain ⟨c, word, same, solid, notBar⟩ := name.head
    have pair (extent extent' : Extent) : ReadsNamed text
        (⟨.name, name.text, extent⟩ :: ⟨.equals, ['='], extent'⟩ :: token :: tail)
        (Pairs.list (.pair name value pairs)) later := ReadsNamed.pair rfl rfl starts read given
    refine ⟨_, ?_, ?_, pair ⟨before.length + 1, before.length + 1 + name.text.length⟩
      ⟨before.length + 1 + name.text.length, before.length + 1 + name.text.length + 1⟩⟩
    · have written : Pairs.text (.pair name value pairs) ++ rest =
          ' ' :: c :: (word ++ '=' :: (value.text ++ (pairs.text ++ rest))) := by
        simp [Pairs.text, same]
      have split : name.text ++ '=' :: (value.text ++ (pairs.text ++ rest)) =
          c :: (word ++ '=' :: (value.text ++ (pairs.text ++ rest))) := by rw [same, List.cons_append]
      rw [written]
      rw [split] at named
      exact Ends.space solid notBar named (notEquals_of_operand rfl)
    · rintro first more all ⟨-, plain⟩
      rw [← all] at plain
      exact plain rfl

end

/-! ### Calls in tags -/

theorem names_read (first : Name) (more : List Name) (offset : Nat) :
    ∃ found closer, tokens offset (first.text ++ (spaced more ++ ['|'])) = .ok found ∧
      spanNames found = ((first :: more).map Name.text, [closer]) ∧ closer.kind = .closeParams := by
  induction more generalizing first offset with
  | nil =>
    have bar := tokens_mark (by decide) (lexeme?_bar [])
      (show tokens (offset + first.text.length + 1) [] = .ok [] by rw [tokens_nil])
    exact ⟨_, _, tokens_name first.isName rfl rfl bar, rfl, rfl⟩
  | cons second more ih =>
    obtain ⟨found, closer, lexed, spanned, closes⟩ := ih second (offset + first.text.length + 1)
    obtain ⟨c, word, same, solid, notBar⟩ := second.head
    have whole : spaced (second :: more) ++ ['|'] = ' ' :: (second.text ++ (spaced more ++ ['|'])) := by
      simp [spaced]
    have noBar : openParams? ('a' :: 's' :: ' ' :: (second.text ++ (spaced more ++ ['|']))) = none := by
      rw [same]
      exact openParams?_space solid notBar _
    rw [whole]
    refine ⟨_, closer, tokens_name first.isName rfl noBar (by rw [tokens_blank _ (by decide), lexed]),
      ?_, closes⟩
    simp [spanNames, spanned]

/-- The block parameters end a call and are read as they are. -/
theorem paramsText_ends {names : List Name} {allowed : Bool} (may : names = [] ∨ allowed = true)
    (offset : Nat) : ∃ later, Ends offset (paramsText names) later ∧ NoOperand later ∧
      readBlockParams allowed later = .ok (names.map Name.text, []) := by
  cases names with
  | nil => exact ⟨[], .nil offset, by simp [NoOperand], rfl⟩
  | cons first more =>
    obtain rfl : allowed = true := may.resolve_left (by simp)
    obtain ⟨found, closer, lexed, spanned, closes⟩ := names_read first more (offset + 1 + 4)
    have opened := @tokens_lexeme 'a' ['s', ' ', '|'] (first.text ++ (spaced more ++ ['|'])) .openParams
      (offset + 1) (by decide) (by simp [lexeme?, openParams?, Text.isBlank]) found lexed
    refine ⟨_, Ends.space (by decide) (by decide) opened ?_, noOperand_cons rfl, ?_⟩
    · rintro token later same
      rw [← (List.cons.inj same).1]
      simp
    · simp [readBlockParams, spanned, closes]

theorem tokens_blanks {blanks : Text} (isBlank : ∀ c ∈ blanks, Text.isBlank c = true) (offset : Nat)
    (rest : Text) : tokens offset (blanks ++ rest) = tokens (offset + blanks.length) rest := by
  induction blanks generalizing offset with
  | nil => rfl
  | cons c blanks ih =>
    rw [List.cons_append, tokens_blank _ (isBlank c List.mem_cons_self),
      ih (fun d member => isBlank d (List.mem_cons_of_mem _ member)), List.length_cons]
    congr 1
    omega

/-- The call in a tag is the one that was written, whatever blanks stand in front of it. -/
theorem Invocation.callIn?_text (call : Invocation) {names : List Name} {allowed : Bool}
    (may : names = [] ∨ allowed = true) {blanks : Text} (isBlank : ∀ c ∈ blanks, Text.isBlank c = true) :
    callIn? (blanks ++ (call.text ++ paramsText names)) allowed = some (call.call, names.map Name.text) := by
  obtain ⟨callee, arguments⟩ := call
  obtain ⟨inner, whole⟩ : ∃ inner, inner =
    blanks ++ (Invocation.text ⟨callee, arguments⟩ ++ paramsText names) := ⟨_, rfl⟩
  obtain ⟨left, ends, noMore, bound⟩ :=
    paramsText_ends may (blanks.length + callee.text.length + arguments.text.length)
  obtain ⟨found, ends', given⟩ := @Arguments.reads arguments inner (blanks ++ callee.text)
    (paramsText names) (blanks.length + callee.text.length) left
    (by rw [whole]; simp [Invocation.text]) (by simp) ends noMore
  obtain ⟨token, tail, lexed, -, -, called⟩ := @Reference.reads callee inner blanks
    (arguments.text ++ paramsText names) found (by rw [whole]; simp [Invocation.text]) ends'
  have lexed' : tokens 0 inner = .ok (token :: tail) := by
    rw [whole, tokens_blanks isBlank, Nat.zero_add, Invocation.text, List.append_assoc, lexed]
  obtain ⟨read, done, shape⟩ := readCall_reads 0 0 lexed' called given bound
  rw [callIn?, ← whole, done]
  exact congrArg some shape

/-! ### The end of a tag behind a call -/

section Passes

variable {closer : Closer} (bare : closer.Bare)

include bare

theorem passes_cons {c : Char} {text : Text} (plain : isPlain c = true) (h : closer.Passes text) :
    closer.Passes (c :: text) :=
  Closer.Passes.append (bare.passes_plain (by simpa using plain) : closer.Passes [c]) h

theorem Name.passes (name : Name) : closer.Passes name.text :=
  bare.passes_plain fun c member => isPlain_nameChar (name.isName.chars c member)

theorem Reference.passes (reference : Reference) : closer.Passes reference.text := by
  obtain ⟨root, first, more⟩ := reference
  have dots : closer.Passes (dotted more) := by
    induction more with
    | nil => exact .nil closer
    | cons name more ih => exact passes_cons bare (by decide) ((name.passes bare).append ih)
  have front : closer.Passes root.text := by
    refine bare.passes_plain fun c member => ?_
    cases root with
    | data =>
      rw [List.mem_singleton.mp member]
      decide
    | up steps =>
      obtain ⟨step, isStep, here⟩ := List.mem_flatten.mp member
      rw [List.eq_of_mem_replicate isStep] at here
      exact List.all_eq_true.mp (by decide : (['.', '.', '/'] : Text).all isPlain = true) c here
  exact front.append ((first.passes bare).append dots)

mutual

theorem Operand.passes : ∀ operand : Operand, closer.Passes operand.text
  | .reference reference => reference.passes bare
  | .string text => closer.passes_quoted (.of_plain text.plain)
  | .whole number => bare.passes_plain fun c member => isPlain_nameChar (number.chars c member)
  | .boolean true => bare.passes_plain (List.all_eq_true.mp (by decide))
  | .boolean false => bare.passes_plain (List.all_eq_true.mp (by decide))
  | .undefined => bare.passes_plain (List.all_eq_true.mp (by decide))
  | .null => bare.passes_plain (List.all_eq_true.mp (by decide))
  | .sub callee arguments =>
    passes_cons bare (by decide) ((callee.passes bare).append
      ((Arguments.passes arguments).append (bare.passes_plain (List.all_eq_true.mp (by decide)))))

theorem Arguments.passes : ∀ arguments : Arguments, closer.Passes arguments.text
  | .named pairs => Pairs.passes pairs
  | .param first rest =>
    passes_cons bare (by decide) ((Operand.passes first).append (Arguments.passes rest))

theorem Pairs.passes : ∀ pairs : Pairs, closer.Passes pairs.text
  | .none => .nil closer
  | .pair name value rest =>
    passes_cons bare (by decide) ((name.passes bare).append
      (passes_cons bare (by decide) ((Operand.passes value).append (Pairs.passes rest))))

end

end Passes

end Phrasebook.Template.Grammar
