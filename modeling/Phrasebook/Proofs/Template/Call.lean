import Phrasebook.Template.Call
import Phrasebook.Template.Node

/-!
Where the nodes of a call start: at tokens of the tag that holds the call, so strictly inside of it.
-/

namespace Phrasebook

/-- A run that succeeds after a bind succeeds in both parts. -/
theorem bind_ok {α β ε : Type} {first : Except ε α} {next : α → Except ε β} {result : β}
    (h : (first >>= next) = .ok result) : ∃ value, first = .ok value ∧ next value = .ok result := by
  cases first with
  | error fault => simp [bind, Except.bind] at h
  | ok value => exact ⟨value, rfl, h⟩

theorem bind_ok_iff {α β ε : Type} {first : Except ε α} {next : α → Except ε β} {result : β} :
    first >>= next = .ok result ↔ ∃ value, first = .ok value ∧ next value = .ok result := by
  refine ⟨bind_ok, ?_⟩
  rintro ⟨value, rfl, done⟩
  exact done

theorem pure_ok_iff {α ε : Type} {value result : α} : (pure value : Except ε α) = .ok result ↔ value = result :=
  ⟨Except.ok.inj, congrArg Except.ok⟩

theorem ok_of_toOption {α ε : Type} {result : Except ε α} {value : α}
    (h : result.toOption = some value) : result = .ok value := by
  cases result with
  | error fault => simp [Except.toOption] at h
  | ok other => exact congrArg Except.ok (Option.some.inj h)

namespace Template

theorem tokens_start {offset : Nat} {text : Text} {found : List Token}
    (h : tokens offset text = .ok found) :
    ∀ token ∈ found, offset ≤ token.extent.start ∧ token.extent.start < offset + text.length := by
  induction size : text.length using Nat.strongRecOn generalizing text offset found with
  | ind size ih =>
    rw [tokens.eq_def] at h
    split at h
    · obtain rfl := Except.ok.inj h
      simp
    · next c rest =>
      simp only [List.length_cons] at size
      split at h
      · intro token member
        have := ih rest.length (by omega) h rfl token member
        omega
      · split at h
        · simp at h
        · next kind length _ =>
          obtain ⟨others, more, h⟩ := bind_ok h
          obtain rfl := Except.ok.inj h
          intro token member
          rcases List.mem_cons.mp member with rfl | member
          · simp only
            omega
          · have shorter : (rest.drop (length - 1)).length ≤ rest.length := by simp
            have bounds := ih _ (by omega) more rfl token member
            simp only [List.length_drop] at bounds
            omega

theorem segments_rest_subset {stop : Nat} {found : List Token} {more : Segments found.length}
    (h : segments stop found = .ok more) : more.rest ⊆ found := by
  fun_induction segments stop found with
  | case1 stop =>
    obtain rfl := Except.ok.inj h
    simp
  | case2 => simp at h
  | case3 stop separator segment rest _ named ih =>
    obtain ⟨later, found, h⟩ := bind_ok h
    obtain rfl := Except.ok.inj h
    exact fun token member => List.mem_cons_of_mem _ (List.mem_cons_of_mem _ (ih found member))
  | case4 => simp at h
  | case5 =>
    obtain rfl := Except.ok.inj h
    simp

theorem readPath_starts {P : Nat → Prop} {text : Text} {next : Nat} {data : Bool}
    {first segment : Token} {rest : List Token} {parsed : Parsed (Expr Extent) rest.length}
    (h : readPath text next data first segment rest = .ok parsed) (atFirst : P first.extent.start)
    (others : ∀ token ∈ rest, P token.extent.start) :
    (∀ node ∈ parsed.value.nodes, P node.label.range.start) ∧
      ∀ token ∈ parsed.rest, P token.extent.start := by
  obtain ⟨more, found, h⟩ := bind_ok h
  obtain rfl := Except.ok.inj h
  refine ⟨?_, fun token member => others token (segments_rest_subset found member)⟩
  intro node member
  obtain rfl : node = _ := List.mem_singleton.mp member
  exact atFirst

/-! ### Operands and arguments -/

/-- How the readers build what they read. The relations say what is read of an operand, of arguments and of named
arguments: from the next number and the tokens to what was read, the next number behind it and the tokens left. -/
structure ReaderRules (text : Text) (operand : Nat → Token → List Token → Expr Extent → Nat → List Token → Prop)
    (arguments : Nat → List Token → List (Expr Extent) × Option (NamedArgs Extent (Expr Extent)) → Nat →
      List Token → Prop)
    (named : Nat → List Token → List (NamedArg Extent (Expr Extent)) → Nat → List Token → Prop) : Prop where
  sub {next next' next'' : Nat} {token first closer : Token} {rest between after : List Token} {callee : Expr Extent}
      {given : List (Expr Extent) × Option (NamedArgs Extent (Expr Extent))} :
    token.kind = .openSub → first.startsOperand = true → operand (next + 1) first rest callee next' between →
    arguments next' between given next'' (closer :: after) → closer.kind = .closeSub →
    operand next token (first :: rest)
      (.sub ⟨next, ⟨token.extent.start, closer.extent.stop⟩⟩ ⟨callee, given.1, given.2⟩) next'' after
  name {next : Nat} {token : Token} {rest : List Token} {parsed : Parsed (Expr Extent) rest.length} :
    token.kind = .name → readPath text next false token token rest = .ok parsed →
    operand next token rest parsed.value parsed.next parsed.rest
  data {next : Nat} {token segment : Token} {rest : List Token} {parsed : Parsed (Expr Extent) rest.length} :
    token.kind = .data → segment.kind = .name → readPath text next true token segment rest = .ok parsed →
    operand next token (segment :: rest) parsed.value parsed.next parsed.rest
  literal {next : Nat} {token : Token} {rest : List Token} {literal : Literal} :
    token.kind ≠ .openSub → token.kind ≠ .name → token.kind ≠ .data → readLiteral token = .ok literal →
    operand next token rest (.literal ⟨next, token.extent⟩ literal) (next + 1) rest
  noArguments {next : Nat} : arguments next [] ([], none) next []
  param {next next' next'' : Nat} {token : Token} {rest between left : List Token} {param : Expr Extent}
      {given : List (Expr Extent) × Option (NamedArgs Extent (Expr Extent))} :
    token.startsOperand = true → startsNamed (token :: rest) = false → operand next token rest param next' between →
    arguments next' between given next'' left → arguments next (token :: rest) (param :: given.1, given.2) next'' left
  withoutNamed {next next' : Nat} {token : Token} {rest left : List Token} :
    ¬(token.startsOperand = true ∧ ¬startsNamed (token :: rest) = true) → named next (token :: rest) [] next' left →
    arguments next (token :: rest) ([], none) next' left
  withNamed {next next' : Nat} {token : Token} {rest left : List Token} {first : NamedArg Extent (Expr Extent)}
      {others : List (NamedArg Extent (Expr Extent))} :
    ¬(token.startsOperand = true ∧ ¬startsNamed (token :: rest) = true) →
    named next (token :: rest) (first :: others) next' left →
    arguments next (token :: rest) ([], some ⟨⟨next', ⟨first.label.range.start,
      (others.getLast?.getD first).label.range.stop⟩⟩, first :: others⟩) (next' + 1) left
  pair {next next' next'' : Nat} {name equals token : Token} {rest between left : List Token} {value : Expr Extent}
      {pairs : List (NamedArg Extent (Expr Extent))} :
    name.kind = .name → equals.kind = .equals → token.startsOperand = true →
    operand next token rest value next' between → named (next' + 1) between pairs next'' left →
    named next (name :: equals :: token :: rest)
      (⟨⟨next', ⟨name.extent.start, value.label.range.stop⟩⟩, name.text, value⟩ :: pairs) next'' left
  noPairs {next : Nat} {tokens : List Token} : startsNamed tokens = false → named next tokens [] next tokens

namespace ReaderRules

variable {text : Text} {operand : Nat → Token → List Token → Expr Extent → Nat → List Token → Prop}
  {arguments : Nat → List Token → List (Expr Extent) × Option (NamedArgs Extent (Expr Extent)) → Nat →
    List Token → Prop}
  {named : Nat → List Token → List (NamedArg Extent (Expr Extent)) → Nat → List Token → Prop}

/-- The relations hold of what the readers give on fewer than `size` tokens. -/
structure Below (text : Text) (operand : Nat → Token → List Token → Expr Extent → Nat → List Token → Prop)
    (arguments : Nat → List Token → List (Expr Extent) × Option (NamedArgs Extent (Expr Extent)) → Nat →
      List Token → Prop)
    (named : Nat → List Token → List (NamedArg Extent (Expr Extent)) → Nat → List Token → Prop) (size : Nat) :
    Prop where
  operands {next : Nat} {token : Token} {rest : List Token} {parsed : Parsed (Expr Extent) rest.length} :
    rest.length < size → readOperand text next token rest = .ok parsed →
    operand next token rest parsed.value parsed.next parsed.rest
  arguments {next : Nat} {tokens : List Token}
      {parsed : Parsed (List (Expr Extent) × Option (NamedArgs Extent (Expr Extent))) tokens.length} :
    tokens.length < size → readArguments text next tokens = .ok parsed →
    arguments next tokens parsed.value parsed.next parsed.rest
  named {next : Nat} {tokens : List Token} {parsed : Parsed (List (NamedArg Extent (Expr Extent))) tokens.length} :
    tokens.length < size → readNamed text next tokens = .ok parsed →
    named next tokens parsed.value parsed.next parsed.rest

variable (rules : ReaderRules text operand arguments named) {size : Nat}

include rules

theorem operands_succ (below : Below text operand arguments named size) {next : Nat} {token : Token} {rest : List Token}
    {parsed : Parsed (Expr Extent) rest.length} (short : rest.length < size + 1)
    (read : readOperand text next token rest = .ok parsed) :
    operand next token rest parsed.value parsed.next parsed.rest := by
  rw [readOperand.eq_def] at read
  split at read
  · next kind =>
    split at read
    · cases read
    · next first rest =>
      simp only [List.length_cons] at short
      split at read
      · next starts =>
        obtain ⟨callee, calleeRead, read⟩ := bind_ok read
        obtain ⟨given, givenRead, read⟩ := bind_ok read
        have shorter := callee.bounded
        have isCallee := below.operands (by omega) calleeRead
        have isGiven := below.arguments (by omega) givenRead
        split at read
        · cases read
        · next closer after left =>
          split at read
          · next closes =>
            obtain rfl := Except.ok.inj read
            rw [left] at isGiven
            exact rules.sub kind starts isCallee isGiven closes
          · cases read
      · cases read
  · next kind => exact rules.name kind read
  · next kind =>
    split at read
    · cases read
    · split at read
      · next isName =>
        obtain ⟨path, pathRead, read⟩ := bind_ok read
        obtain rfl := Except.ok.inj read
        exact rules.data kind isName pathRead
      · cases read
  · next notSub notName notData =>
    obtain ⟨literal, literalRead, read⟩ := bind_ok read
    obtain rfl := Except.ok.inj read
    exact rules.literal notSub notName notData literalRead

theorem named_succ (below : Below text operand arguments named size) {next : Nat} {tokens : List Token}
    {parsed : Parsed (List (NamedArg Extent (Expr Extent))) tokens.length} (short : tokens.length < size + 1)
    (read : readNamed text next tokens = .ok parsed) :
    named next tokens parsed.value parsed.next parsed.rest := by
  rw [readNamed.eq_def] at read
  split at read
  · next name equals rest =>
    simp only [List.length_cons] at short
    split at read
    · next kinds =>
      split at read
      · cases read
      · next token rest =>
        simp only [List.length_cons] at short
        split at read
        · next starts =>
          obtain ⟨value, valueRead, read⟩ := bind_ok read
          obtain ⟨more, moreRead, read⟩ := bind_ok read
          have shorter := value.bounded
          obtain rfl := Except.ok.inj read
          exact rules.pair kinds.1 kinds.2 starts (below.operands (by omega) valueRead)
            (below.named (by omega) moreRead)
        · cases read
    · next plain =>
      obtain rfl := Except.ok.inj read
      exact rules.noPairs (by simpa [startsNamed] using plain)
  · next few =>
    obtain rfl := Except.ok.inj read
    refine rules.noPairs ?_
    unfold startsNamed
    split
    · next name equals rest => exact absurd rfl (few name equals rest)
    · rfl

theorem arguments_succ (below : Below text operand arguments named size) {next : Nat} {tokens : List Token}
    {parsed : Parsed (List (Expr Extent) × Option (NamedArgs Extent (Expr Extent))) tokens.length}
    (short : tokens.length < size + 1) (read : readArguments text next tokens = .ok parsed) :
    arguments next tokens parsed.value parsed.next parsed.rest := by
  rw [readArguments.eq_def] at read
  split at read
  · obtain rfl := Except.ok.inj read
    exact rules.noArguments
  · next token rest =>
    split at read
    · next starts =>
      obtain ⟨param, paramRead, read⟩ := bind_ok read
      obtain ⟨more, moreRead, read⟩ := bind_ok read
      have shorter := param.bounded
      simp only [List.length_cons] at short
      obtain rfl := Except.ok.inj read
      exact rules.param starts.1 (by simpa using starts.2) (below.operands (by omega) paramRead)
        (below.arguments (by omega) moreRead)
    · next behind =>
      obtain ⟨pairs, pairsRead, read⟩ := bind_ok read
      have isNamed := rules.named_succ below short pairsRead
      split at read
      · next empty =>
        obtain rfl := Except.ok.inj read
        exact rules.withoutNamed behind (empty ▸ isNamed)
      · next first others filled =>
        obtain rfl := Except.ok.inj read
        exact rules.withNamed behind (filled ▸ isNamed)

/-- The readers call each other on fewer tokens, so all three go up together. -/
theorem below (size : Nat) : Below text operand arguments named size := by
  induction size with
  | zero =>
    exact ⟨fun short => absurd short (Nat.not_lt_zero _), fun short => absurd short (Nat.not_lt_zero _),
      fun short => absurd short (Nat.not_lt_zero _)⟩
  | succ size ih => exact ⟨rules.operands_succ ih, rules.arguments_succ ih, rules.named_succ ih⟩

/-- The call in the inner text of a tag: what the relations say of its callee and its arguments. -/
theorem of_readCall {inner : Text} {next start offset : Nat} {allowParams : Bool} {read : CallRead}
    (called : readCall text next start offset inner allowParams = .ok read) :
    ∃ token rest next' between left, tokens offset inner = .ok (token :: rest) ∧
      operand next token rest read.call.callee next' between ∧
      arguments next' between (read.call.params, read.call.named) read.next left ∧
      readBlockParams allowParams left = .ok (read.blockParams, []) := by
  obtain ⟨found, lexed, called⟩ := bind_ok called
  split at called
  · cases called
  · next token rest =>
    obtain ⟨callee, calleeRead, called⟩ := bind_ok called
    obtain ⟨given, givenRead, called⟩ := bind_ok called
    obtain ⟨⟨params, leftover⟩, paramsRead, called⟩ := bind_ok called
    split at called
    · next same =>
      obtain ⟨rfl, rfl⟩ := Prod.mk.inj same
      obtain rfl := Except.ok.inj called
      exact ⟨token, rest, callee.next, callee.rest, given.rest, lexed,
        (rules.below _).operands (Nat.lt_succ_self _) calleeRead,
        (rules.below _).arguments (Nat.lt_succ_self _) givenRead, paramsRead⟩
    · cases called

end ReaderRules

/-! ### Where nodes start -/

/-- Where all tokens start in places with a property, so do all nodes. -/
theorem readers_start (P : Nat → Prop) (text : Text) : ReaderRules text
    (fun _ token rest operand _ left => P token.extent.start → (∀ token ∈ rest, P token.extent.start) →
      (∀ node ∈ operand.nodes, P node.label.range.start) ∧ ∀ token ∈ left, P token.extent.start)
    (fun _ tokens given _ left => (∀ token ∈ tokens, P token.extent.start) →
      (∀ node ∈ Expr.listNodes given.1 ++ Expr.namedNodes given.2, P node.label.range.start) ∧
        ∀ token ∈ left, P token.extent.start)
    (fun _ tokens pairs _ left => (∀ token ∈ tokens, P token.extent.start) →
      (∀ node ∈ Expr.pairNodes pairs, P node.label.range.start) ∧ ∀ token ∈ left, P token.extent.start) where
  sub _ _ called given _ here others := by
    obtain ⟨atFirst, others⟩ := List.forall_mem_cons.mp others
    obtain ⟨inCallee, afterCallee⟩ := called atFirst others
    obtain ⟨inGiven, afterGiven⟩ := given afterCallee
    refine ⟨?_, (List.forall_mem_cons.mp afterGiven).2⟩
    rw [Expr.nodes, Expr.callNodes, List.append_assoc]
    exact List.forall_mem_cons.mpr ⟨here, List.forall_mem_append.mpr ⟨inCallee, inGiven⟩⟩
  name _ read here others := readPath_starts read here others
  data _ _ read here others := readPath_starts read here (List.forall_mem_cons.mp others).2
  literal _ _ _ _ here others := ⟨List.forall_mem_singleton.mpr here, others⟩
  noArguments others := ⟨List.forall_mem_nil _, others⟩
  param _ _ first more others := by
    obtain ⟨here, others⟩ := List.forall_mem_cons.mp others
    obtain ⟨inFirst, afterFirst⟩ := first here others
    obtain ⟨inMore, left⟩ := more afterFirst
    rw [Expr.listNodes, List.append_assoc]
    exact ⟨List.forall_mem_append.mpr ⟨inFirst, inMore⟩, left⟩
  withoutNamed _ found others := ⟨List.forall_mem_nil _, (found others).2⟩
  withNamed {_ _ _ _ _ first _} _ found others := by
    obtain ⟨inPairs, left⟩ := found others
    exact ⟨List.forall_mem_cons.mpr ⟨inPairs (.pair first) List.mem_cons_self, inPairs⟩, left⟩
  pair _ _ _ first more others := by
    obtain ⟨atName, others⟩ := List.forall_mem_cons.mp others
    obtain ⟨here, others⟩ := List.forall_mem_cons.mp (List.forall_mem_cons.mp others).2
    obtain ⟨inValue, afterValue⟩ := first here others
    obtain ⟨inMore, left⟩ := more afterValue
    exact ⟨List.forall_mem_cons.mpr ⟨atName, List.forall_mem_append.mpr ⟨inValue, inMore⟩⟩, left⟩
  noPairs _ others := ⟨List.forall_mem_nil _, others⟩

/-- The nodes of a call start inside of the inner text of its tag. -/
theorem readCall_starts {text inner : Text} {next start offset : Nat} {allowParams : Bool}
    {read : CallRead} (h : readCall text next start offset inner allowParams = .ok read) :
    ∀ node ∈ Expr.callNodes read.call,
      offset ≤ node.label.range.start ∧ node.label.range.start < offset + inner.length := by
  have rules := readers_start (fun place => offset ≤ place ∧ place < offset + inner.length) text
  obtain ⟨token, rest, next', between, left, lexed, called, given, -⟩ := rules.of_readCall h
  obtain ⟨here, others⟩ := List.forall_mem_cons.mp (tokens_start lexed)
  obtain ⟨inCallee, afterCallee⟩ := called here others
  rw [Expr.callNodes, List.append_assoc]
  exact List.forall_mem_append.mpr ⟨inCallee, (given afterCallee).1⟩

end Template

end Phrasebook
