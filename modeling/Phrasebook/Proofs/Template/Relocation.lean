import Phrasebook.Proofs.Template.Lexeme
import Phrasebook.Proofs.Template.Shape
import Phrasebook.Proofs.Text.Lines

/-!
Calls at other places. The inner text of a tag is read to the same call wherever the tag stands, up
to the numbers and the ranges of the nodes, so `callIn?` can read it on its own.
-/

namespace Phrasebook.Template

/-! ### What the readers of a call do

The shape of what is read does not depend on the first number. -/

section Reads

variable {text : Text}

/-- The operand that starts with `token` has a shape and leaves some of the tokens behind it. -/
def ReadsOperand (text : Text) (token : Token) (rest : List Token) (shape : Expr Unit)
    (left : List Token) : Prop :=
  ∀ next, ∃ parsed, readOperand text next token rest = .ok parsed ∧ parsed.value.shape = shape ∧
    parsed.rest = left

/-- The arguments at the start of the tokens have shapes and leave some of the tokens. -/
def ReadsArguments (text : Text) (tokens : List Token) (params : List (Expr Unit))
    (named : Option (NamedArgs Unit (Expr Unit))) (left : List Token) : Prop :=
  ∀ next, ∃ parsed, readArguments text next tokens = .ok parsed ∧
    Expr.listShape parsed.value.1 = params ∧ Expr.namedShape parsed.value.2 = named ∧
    parsed.rest = left

/-- The named arguments at the start of the tokens have shapes and leave some of the tokens. -/
def ReadsNamed (text : Text) (tokens : List Token) (pairs : List (NamedArg Unit (Expr Unit)))
    (left : List Token) : Prop :=
  ∀ next, ∃ parsed, readNamed text next tokens = .ok parsed ∧
    Expr.pairsShape parsed.value = pairs ∧ parsed.rest = left

theorem ReadsOperand.literal {token : Token} {value : Literal} (notSub : token.kind ≠ .openSub)
    (notName : token.kind ≠ .name) (notData : token.kind ≠ .data) (read : readLiteral token = .ok value)
    (rest : List Token) : ReadsOperand text token rest (.literal .blank value) rest := by
  intro next
  rw [readOperand.eq_def]
  split
  · next kind => exact absurd kind notSub
  · next kind => exact absurd kind notName
  · next kind => exact absurd kind notData
  · rw [read]
    exact ⟨_, rfl, rfl, rfl⟩

theorem readPath_shape {next : Nat} {data : Bool} {first segment : Token} {rest : List Token}
    {more : Segments rest.length} (walked : segments segment.extent.stop rest = .ok more) :
    ∃ parsed, readPath text next data first segment rest = .ok parsed ∧
      parsed.value.shape = .path .blank (Path.ofSegments (text.slice first.extent.start more.stop) data
        (segment.text :: more.names)) ∧ parsed.rest = more.rest := by
  unfold readPath
  rw [walked]
  exact ⟨_, rfl, rfl, rfl⟩

theorem ReadsOperand.name {token : Token} {rest : List Token} {more : Segments rest.length}
    (kind : token.kind = .name) (walked : segments token.extent.stop rest = .ok more) :
    ReadsOperand text token rest (.path .blank (Path.ofSegments
      (text.slice token.extent.start more.stop) false (token.text :: more.names))) more.rest := by
  intro next
  rw [readOperand.eq_def]
  simp only [kind]
  exact readPath_shape walked

theorem ReadsOperand.data {token segment : Token} {rest : List Token} {more : Segments rest.length}
    (kind : token.kind = .data) (named : segment.kind = .name)
    (walked : segments segment.extent.stop rest = .ok more) :
    ReadsOperand text token (segment :: rest) (.path .blank (Path.ofSegments
      (text.slice token.extent.start more.stop) true (segment.text :: more.names))) more.rest := by
  intro next
  obtain ⟨parsed, read, shape, left⟩ := @readPath_shape text next true token segment rest more walked
  rw [readOperand.eq_def]
  simp only [kind, named, if_true, read]
  exact ⟨_, rfl, shape, left⟩

theorem ReadsOperand.sub {token first closer : Token} {rest between after : List Token}
    {callee : Expr Unit} {params : List (Expr Unit)} {named : Option (NamedArgs Unit (Expr Unit))}
    (kind : token.kind = .openSub) (starts : first.startsOperand = true)
    (called : ReadsOperand text first rest callee between)
    (given : ReadsArguments text between params named (closer :: after))
    (closes : closer.kind = .closeSub) :
    ReadsOperand text token (first :: rest) (.sub .blank ⟨callee, params, named⟩) after := by
  intro next
  obtain ⟨⟨value, next', _, bound⟩, read, rfl, rfl⟩ := called (next + 1)
  obtain ⟨⟨⟨list, pairs⟩, next'', _, bound'⟩, read', rfl, rfl, rfl⟩ := given next'
  rw [readOperand.eq_def]
  simp only [kind, starts, if_true, read, bind, Except.bind, read', closes]
  exact ⟨_, rfl, rfl, rfl⟩

theorem ReadsArguments.nil : ReadsArguments text [] [] none [] := by
  intro next
  rw [readArguments.eq_def]
  exact ⟨_, rfl, rfl, rfl, rfl⟩

theorem ReadsArguments.param {token : Token} {rest between left : List Token} {param : Expr Unit}
    {params : List (Expr Unit)} {named : Option (NamedArgs Unit (Expr Unit))}
    (starts : token.startsOperand = true) (plain : startsNamed (token :: rest) = false)
    (first : ReadsOperand text token rest param between)
    (later : ReadsArguments text between params named left) :
    ReadsArguments text (token :: rest) (param :: params) named left := by
  intro next
  obtain ⟨⟨value, next', _, bound⟩, read, rfl, rfl⟩ := first next
  obtain ⟨⟨⟨list, pairs⟩, next'', _, bound'⟩, read', rfl, rfl, rfl⟩ := later next'
  rw [readArguments.eq_def]
  simp only [starts, plain, Bool.false_eq_true, not_false_eq_true, and_self, if_true, read, bind,
    Except.bind, read']
  exact ⟨_, rfl, rfl, rfl, rfl⟩

/-- The named arguments of a call whose pairs are known. -/
def namedOf (pairs : List (NamedArg Unit (Expr Unit))) : Option (NamedArgs Unit (Expr Unit)) :=
  if pairs = [] then none else some ⟨.blank, pairs⟩

theorem ReadsArguments.named {token : Token} {rest left : List Token}
    {pairs : List (NamedArg Unit (Expr Unit))}
    (behind : ¬(token.startsOperand = true ∧ ¬startsNamed (token :: rest) = true))
    (given : ReadsNamed text (token :: rest) pairs left) :
    ReadsArguments text (token :: rest) [] (namedOf pairs) left := by
  intro next
  obtain ⟨⟨list, next', _, bound⟩, read, rfl, rfl⟩ := given next
  rw [readArguments.eq_def]
  simp only [if_neg behind, read, bind, Except.bind]
  cases list with
  | nil => exact ⟨_, rfl, rfl, rfl, rfl⟩
  | cons pair more => exact ⟨_, rfl, rfl, rfl, rfl⟩

theorem ReadsNamed.done {tokens : List Token} (plain : startsNamed tokens = false) :
    ReadsNamed text tokens [] tokens := by
  intro next
  rw [readNamed.eq_def]
  split
  · next name equals rest =>
    have notNamed : ¬(name.kind = .name ∧ equals.kind = .equals) := by
      simpa [startsNamed] using plain
    rw [if_neg notNamed]
    exact ⟨_, rfl, rfl, rfl⟩
  · exact ⟨_, rfl, rfl, rfl⟩

theorem ReadsNamed.pair {name equals token : Token} {rest between left : List Token}
    {value : Expr Unit} {pairs : List (NamedArg Unit (Expr Unit))} (isName : name.kind = .name)
    (isEquals : equals.kind = .equals) (starts : token.startsOperand = true)
    (first : ReadsOperand text token rest value between) (later : ReadsNamed text between pairs left) :
    ReadsNamed text (name :: equals :: token :: rest) (⟨.blank, name.text, value⟩ :: pairs) left := by
  intro next
  obtain ⟨⟨expr, next', _, bound⟩, read, rfl, rfl⟩ := first next
  obtain ⟨⟨list, next'', _, bound'⟩, read', rfl, rfl⟩ := later (next' + 1)
  rw [readNamed.eq_def]
  simp only [isName, isEquals, and_self, if_true, starts, read, bind, Except.bind, read']
  exact ⟨_, rfl, rfl, rfl⟩

end Reads

/-! ### The same text at two places -/

/-- Tokens of the same text, cut where it starts at `a` and where it starts at `b`. -/
structure Alike (a b length : Nat) (token token' : Token) : Prop where
  kind : token.kind = token'.kind
  text : token.text = token'.text
  start : token.extent.start + b = token'.extent.start + a
  stop : token.extent.stop + b = token'.extent.stop + a
  lower : a ≤ token.extent.start
  upper : token.extent.stop ≤ a + length

/-- Two texts agree on a range of the given length that starts at `a` in one and at `b` in the other. -/
def Agree (a b length : Nat) (text text' : Text) : Prop :=
  ∀ start stop start' stop', a ≤ start → stop ≤ a + length → start + b = start' + a →
    stop + b = stop' + a → text.slice start stop = text'.slice start' stop'

theorem Agree.of_slice {a b : Nat} {inner text text' : Text}
    (here : text.slice a (a + inner.length) = inner) (there : text'.slice b (b + inner.length) = inner) :
    Agree a b inner.length text text' := by
  intro start stop start' stop' lower upper startSame stopSame
  by_cases forward : start ≤ stop
  · have inside : a + (stop - a) ≤ a + inner.length := by omega
    have inside' : b + (stop - a) ≤ b + inner.length := by omega
    have first : inner.slice (start - a) (stop - a) = text.slice start stop := by
      rw [← here, Text.slice_slice text inside, show a + (start - a) = start by omega,
        show a + (stop - a) = stop by omega]
    have second : inner.slice (start - a) (stop - a) = text'.slice start' stop' := by
      rw [← there, Text.slice_slice text' inside', show b + (start - a) = start' by omega,
        show b + (stop - a) = stop' by omega]
    exact first.symm.trans second
  · unfold Text.slice
    rw [show stop - start = 0 by omega, show stop' - start' = 0 by omega, List.take_zero,
      List.take_zero]

section Places

variable {a b length : Nat} {text text' : Text}

theorem tokens_alike {inner : Text} {offset offset' : Nat} {found : List Token}
    (h : tokens offset inner = .ok found) (same : offset + b = offset' + a) (lower : a ≤ offset)
    (upper : offset + inner.length ≤ a + length) :
    ∃ found', tokens offset' inner = .ok found' ∧ List.Forall₂ (Alike a b length) found found' := by
  induction size : inner.length using Nat.strongRecOn generalizing inner offset offset' found with
  | ind size ih =>
    rw [tokens.eq_def] at h
    split at h
    · obtain rfl := Except.ok.inj h
      exact ⟨[], tokens_nil _, .nil⟩
    · next c rest =>
      simp only [List.length_cons] at size upper
      split at h
      · next blank =>
        have next : offset + 1 + b = offset' + 1 + a := by omega
        obtain ⟨found', lexed, alike⟩ := ih rest.length (by omega) h next (by omega) (by omega) rfl
        exact ⟨found', (tokens_blank _ blank).trans lexed, alike⟩
      · next solid =>
        split at h
        · simp at h
        · next kind long found =>
          obtain ⟨others, more, h⟩ := bind_ok h
          obtain rfl := Except.ok.inj h
          have reach := lexeme?_le found
          have shorter : (rest.drop (long - 1)).length = rest.length - (long - 1) := by simp
          have next : offset + 1 + (long - 1) + b = offset' + 1 + (long - 1) + a := by omega
          obtain ⟨others', lexed, alike⟩ := ih _ (by omega) more next (by omega) (by omega) rfl
          let token : Token :=
            ⟨kind, c :: rest.take (long - 1), ⟨offset', offset' + 1 + (long - 1)⟩⟩
          refine ⟨token :: others', ?_, .cons ⟨rfl, rfl, same, next, lower, ?_⟩ alike⟩
          · rw [tokens_solid _ (Bool.not_eq_true _ ▸ solid), found]
            simp only [lexed]
            rfl
          · simp only
            omega

theorem segments_alike {stop stop' : Nat} {found found' : List Token} {more : Segments found.length}
    (h : segments stop found = .ok more) (alike : List.Forall₂ (Alike a b length) found found')
    (same : stop + b = stop' + a) (upper : stop ≤ a + length) :
    ∃ more' : Segments found'.length, segments stop' found' = .ok more' ∧ more'.names = more.names ∧
      more.stop + b = more'.stop + a ∧ more.stop ≤ a + length ∧
      List.Forall₂ (Alike a b length) more.rest more'.rest := by
  fun_induction segments stop found generalizing stop' found' with
  | case1 stop =>
    cases alike
    obtain rfl := Except.ok.inj h
    exact ⟨_, rfl, rfl, same, upper, .nil⟩
  | case2 => simp at h
  | case3 stop separator continued segment rest named ih =>
    obtain ⟨later, found, h⟩ := bind_ok h
    obtain rfl := Except.ok.inj h
    cases alike with
    | cons isSeparator alike =>
      cases alike with
      | @cons _ segment' _ _ isSegment alike =>
        obtain ⟨more', read, names, stops, bounded, left⟩ :=
          ih found alike isSegment.stop isSegment.upper
        have := isSeparator.start
        have := isSeparator.stop
        have := isSegment.start
        rw [segments.eq_def]
        simp only
        rw [if_pos ⟨isSeparator.kind ▸ continued.1, by omega⟩,
          if_pos ⟨isSegment.kind ▸ named.1, by omega⟩, read]
        exact ⟨_, rfl, by rw [names, isSegment.text], stops, bounded, left⟩
  | case4 => simp at h
  | case5 stop separator rest ended =>
    obtain rfl := Except.ok.inj h
    cases alike with
    | cons isSeparator alike =>
      have := isSeparator.start
      rw [segments.eq_def]
      simp only
      rw [if_neg]
      · exact ⟨_, rfl, rfl, same, upper, .cons isSeparator alike⟩
      · rw [← isSeparator.kind]
        rintro ⟨kind, start⟩
        exact ended ⟨kind, by omega⟩

end Places

theorem readPath_ok {text : Text} {next : Nat} {data : Bool} {first segment : Token}
    {rest : List Token} {parsed : Parsed (Expr Extent) rest.length}
    (h : readPath text next data first segment rest = .ok parsed) :
    ∃ more : Segments rest.length, segments segment.extent.stop rest = .ok more ∧
      parsed.value.shape = .path .blank (Path.ofSegments (text.slice first.extent.start more.stop) data
        (segment.text :: more.names)) ∧ parsed.rest = more.rest := by
  obtain ⟨more, walked, h⟩ := bind_ok h
  obtain rfl := Except.ok.inj h
  exact ⟨more, walked, rfl, rfl⟩

theorem readLiteral_alike {a b length : Nat} {token token' : Token} {value : Literal}
    (h : readLiteral token = .ok value) (alike : Alike a b length token token') :
    readLiteral token' = .ok value := by
  unfold readLiteral at h ⊢
  rw [← alike.kind, ← alike.text]
  split at h <;> simp_all

theorem startsOperand_alike {a b length : Nat} {token token' : Token}
    (alike : Alike a b length token token') : token'.startsOperand = token.startsOperand := by
  unfold Token.startsOperand
  rw [alike.kind]

theorem startsNamed_alike {a b length : Nat} {found found' : List Token}
    (alike : List.Forall₂ (Alike a b length) found found') : startsNamed found' = startsNamed found := by
  unfold startsNamed
  cases alike with
  | nil => rfl
  | cons isName alike =>
    cases alike with
    | nil => rfl
    | cons isEquals alike => simp only [isName.kind, isEquals.kind]

/-! ### Operands and arguments at two places -/

section Readers

variable {a b length : Nat} {text text' : Text}

/-- A path that was read at one place is read at the other one. -/
theorem readPath_alike (agree : Agree a b length text text') {next : Nat} {data : Bool} {first first' segment segment' : Token}
    {rest rest' : List Token} {parsed : Parsed (Expr Extent) rest.length} (isFirst : Alike a b length first first')
    (isSegment : Alike a b length segment segment') (alike : List.Forall₂ (Alike a b length) rest rest')
    (read : readPath text next data first segment rest = .ok parsed) :
    ∃ more, segments segment'.extent.stop rest' = .ok more ∧ List.Forall₂ (Alike a b length) parsed.rest more.rest ∧
      parsed.value.shape = .path .blank (Path.ofSegments (text'.slice first'.extent.start more.stop) data
        (segment'.text :: more.names)) := by
  obtain ⟨more, walked, shape, left⟩ := readPath_ok read
  obtain ⟨more', walked', names, stops, upper, alikeLeft⟩ :=
    segments_alike walked alike isSegment.stop isSegment.upper
  refine ⟨more', walked', left ▸ alikeLeft, ?_⟩
  rw [shape, agree _ _ _ _ isFirst.lower upper isFirst.start stops, isSegment.text, ← names]

/-- What is read of tokens at one place is read, up to labels, of the tokens at the other place. -/
theorem readers_relocate (agree : Agree a b length text text') : ReaderRules text
    (fun _ token rest operand _ left => ∀ token' rest', Alike a b length token token' →
      List.Forall₂ (Alike a b length) rest rest' →
      ∃ left', ReadsOperand text' token' rest' operand.shape left' ∧ List.Forall₂ (Alike a b length) left left')
    (fun _ tokens given _ left => ∀ tokens', List.Forall₂ (Alike a b length) tokens tokens' →
      ∃ left', ReadsArguments text' tokens' (Expr.listShape given.1) (Expr.namedShape given.2) left' ∧
        List.Forall₂ (Alike a b length) left left')
    (fun _ tokens pairs _ left => ∀ tokens', List.Forall₂ (Alike a b length) tokens tokens' →
      ∃ left', ReadsNamed text' tokens' (Expr.pairsShape pairs) left' ∧
        List.Forall₂ (Alike a b length) left left') where
  sub kind starts called given closes token' _ isToken
    | .cons isFirst alike => by
      obtain ⟨between, isCallee, alike⟩ := called _ _ isFirst alike
      obtain ⟨left, isGiven, alike⟩ := given _ alike
      cases alike with
      | cons isCloser alike =>
        exact ⟨_, .sub (isToken.kind ▸ kind) ((startsOperand_alike isFirst).trans starts) isCallee isGiven
          (isCloser.kind ▸ closes), alike⟩
  name kind read token' rest' isToken alike := by
    obtain ⟨more, walked, alikeLeft, shape⟩ := readPath_alike agree isToken isToken alike read
    exact ⟨_, shape ▸ .name (isToken.kind ▸ kind) walked, alikeLeft⟩
  data kind isName read token' _ isToken
    | .cons isSegment alike => by
      obtain ⟨more, walked, alikeLeft, shape⟩ := readPath_alike agree isToken isSegment alike read
      exact ⟨_, shape ▸ .data (isToken.kind ▸ kind) (isSegment.kind ▸ isName) walked, alikeLeft⟩
  literal notSub notName notData read token' rest' isToken alike := by
    rw [isToken.kind] at notSub notName notData
    exact ⟨rest', .literal notSub notName notData (readLiteral_alike read isToken) rest', alike⟩
  noArguments
    | _, .nil => ⟨[], .nil, .nil⟩
  param starts plain first more tokens' whole := by
    have plain' := (startsNamed_alike whole).trans plain
    cases whole with
    | cons isToken alike =>
      obtain ⟨between, isFirst, alike⟩ := first _ _ isToken alike
      obtain ⟨left, isMore, alike⟩ := more _ alike
      exact ⟨left, .param ((startsOperand_alike isToken).trans starts) plain' isFirst isMore, alike⟩
  withoutNamed behind found tokens' whole := by
    obtain ⟨left, isFound, alikeLeft⟩ := found _ whole
    have sameNamed := startsNamed_alike whole
    cases whole with
    | cons isToken alike =>
      rw [← startsOperand_alike isToken, ← sameNamed] at behind
      exact ⟨left, .named behind isFound, alikeLeft⟩
  withNamed behind found tokens' whole := by
    obtain ⟨left, isFound, alikeLeft⟩ := found _ whole
    have sameNamed := startsNamed_alike whole
    cases whole with
    | cons isToken alike =>
      rw [← startsOperand_alike isToken, ← sameNamed] at behind
      exact ⟨left, .named behind isFound, alikeLeft⟩
  pair isName isEquals starts first more _
    | .cons isName' (.cons isEquals' (.cons isToken alike)) => by
      obtain ⟨between, isFirst, alike⟩ := first _ _ isToken alike
      obtain ⟨left, isMore, alike⟩ := more _ alike
      have read := ReadsNamed.pair (isName'.kind ▸ isName) (isEquals'.kind ▸ isEquals)
        ((startsOperand_alike isToken).trans starts) isFirst isMore
      rw [← isName'.text] at read
      exact ⟨left, read, alike⟩
  noPairs plain tokens' alike := ⟨tokens', .done ((startsNamed_alike alike).trans plain), alike⟩

end Readers

/-! ### Calls -/

/-- The shape of a call and its block parameters. -/
def CallRead.shape (read : CallRead) : Call Unit × List Text :=
  (Expr.callShape read.call, read.blockParams)

/-- The call in the inner text of a tag, read on its own. -/
def callIn? (inner : Text) (allowParams : Bool) : Option (Call Unit × List Text) :=
  (readCall inner 0 0 0 inner allowParams).toOption.map CallRead.shape

theorem readCall_reads {text inner : Text} {offset : Nat} {allowParams : Bool} {token : Token}
    {rest between left : List Token} {callee : Expr Unit} {params : List (Expr Unit)}
    {named : Option (NamedArgs Unit (Expr Unit))} {blockParams : List Text} (next start : Nat)
    (lexed : tokens offset inner = .ok (token :: rest))
    (called : ReadsOperand text token rest callee between)
    (given : ReadsArguments text between params named left)
    (bound : readBlockParams allowParams left = .ok (blockParams, [])) :
    ∃ read, readCall text next start offset inner allowParams = .ok read ∧
      read.shape = (⟨callee, params, named⟩, blockParams) := by
  obtain ⟨⟨value, next', _, short⟩, read, rfl, rfl⟩ := called next
  obtain ⟨⟨⟨list, pairs⟩, next'', _, short'⟩, read', rfl, rfl, rfl⟩ := given next'
  unfold readCall
  simp only [lexed, bind, Except.bind, read, read', bound]
  exact ⟨_, rfl, rfl⟩

section Places

variable {a b length : Nat} {text text' : Text}

theorem spanNames_alike {found found' : List Token}
    (alike : List.Forall₂ (Alike a b length) found found') :
    (spanNames found').1 = (spanNames found).1 ∧
      List.Forall₂ (Alike a b length) (spanNames found).2 (spanNames found').2 := by
  induction alike with
  | nil => exact ⟨rfl, .nil⟩
  | cons isToken alike ih =>
    unfold spanNames
    rw [isToken.kind]
    split
    · exact ⟨by simp only [ih.1, isToken.text], ih.2⟩
    · exact ⟨rfl, .cons isToken alike⟩

theorem readBlockParams_alike {allowed : Bool} {found found' : List Token} {names : List Text}
    (h : readBlockParams allowed found = .ok (names, []))
    (alike : List.Forall₂ (Alike a b length) found found') :
    readBlockParams allowed found' = .ok (names, []) := by
  cases alike with
  | nil => exact h
  | @cons opener opener' rest rest' isOpener alike =>
    unfold readBlockParams at h ⊢
    simp only at h ⊢
    rw [← isOpener.kind]
    split at h
    · next kind =>
      rw [if_pos kind]
      split at h
      · next allowed =>
        obtain ⟨sameNames, sameLeft⟩ := spanNames_alike alike
        rw [if_pos allowed]
        split at h
        · simp at h
        · next found closer after filled spanned =>
          split at h
          · next closes =>
            obtain ⟨rfl, rfl⟩ := Prod.mk.inj (Except.ok.inj h)
            rw [spanned] at sameNames sameLeft
            generalize left : (spanNames rest').2 = after' at sameLeft
            cases sameLeft with
            | @cons _ closer' _ _ isCloser nothing =>
              cases nothing
              have spanned' : spanNames rest' = (found, [closer']) := Prod.ext sameNames left
              rw [spanned']
              split
              · next empty => exact absurd (Prod.mk.inj empty).1 (fun empty => filled (empty ▸ rfl))
              · next same =>
                simp only [Prod.mk.injEq, List.cons.injEq] at same
                obtain ⟨rfl, rfl, rfl⟩ := same
                rw [if_pos (isCloser.kind ▸ closes)]
              · next same => simp at same
          · simp at h
        · simp at h
      · simp at h
    · simp at h

theorem readCall_alike {inner : Text} {next start : Nat} {allowParams : Bool} {read : CallRead}
    (here : text.slice a (a + inner.length) = inner) (there : text'.slice b (b + inner.length) = inner)
    (h : readCall text next start a inner allowParams = .ok read) (next' start' : Nat) :
    ∃ read', readCall text' next' start' b inner allowParams = .ok read' ∧
      read'.shape = read.shape := by
  obtain ⟨⟨callee, params, named⟩, names, last⟩ := read
  have rules := readers_relocate (Agree.of_slice here there)
  obtain ⟨token, rest, next'', between, left, lexed, called, given, bound⟩ := rules.of_readCall h
  obtain ⟨found', lexed', alike⟩ :=
    tokens_alike lexed (Nat.add_comm a b) (Nat.le_refl a) (Nat.le_refl _)
  cases alike with
  | cons isToken alike =>
    obtain ⟨between, isCallee, alike⟩ := called _ _ isToken alike
    obtain ⟨left, isGiven, alike⟩ := given _ alike
    exact readCall_reads next' start' lexed' isCallee isGiven (readBlockParams_alike bound alike)

end Places

/-- Where the inner text of a tag stands does not matter for its call. -/
theorem readCall_callIn? {text inner : Text} {offset : Nat}
    (here : text.slice offset (offset + inner.length) = inner) (next start : Nat) (allowParams : Bool) :
    (readCall text next start offset inner allowParams).toOption.map CallRead.shape =
      callIn? inner allowParams := by
  have alone : inner.slice 0 (0 + inner.length) = inner := by simp [Text.slice]
  unfold callIn?
  cases there : readCall inner 0 0 0 inner allowParams with
  | ok read =>
    obtain ⟨read', moved, same⟩ := readCall_alike alone here there next start
    rw [moved]
    exact congrArg some same
  | error fault =>
    cases moved : readCall text next start offset inner allowParams with
    | ok read =>
      obtain ⟨read', back, -⟩ := readCall_alike here alone moved 0 0
      simp [back] at there
    | error fault' => rfl

end Phrasebook.Template
