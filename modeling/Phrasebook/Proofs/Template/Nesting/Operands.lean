import Phrasebook.Template.Node
import Phrasebook.Proofs.Template.Nesting

/-!
What the nodes of a call cover. A reader gives every operand the range from its first token to its last, so the
operands and named arguments of a call stand one behind the other, and every node below is laid out in the text.
-/

namespace Phrasebook.Template

/-! ### The ranges of a call -/

section Ranges

variable {ρ σ : Type} (f : ρ → σ)

/-- The ranges of arguments, in order. -/
def argumentRanges (params : List (Expr ρ)) (named : Option (NamedArgs ρ (Expr ρ))) : List ρ :=
  params.map (fun e => e.label.range) ++ (named.map fun named => named.label.range).toList

/-- The ranges of what stands directly below a call, in order. -/
def callRanges (call : Call ρ) : List ρ := call.callee.label.range :: argumentRanges call.params call.named

theorem children_ranges (call : Call ρ) :
    call.children.map (fun child => child.label.range) = callRanges call := by
  rcases call with ⟨callee, params, _ | named⟩ <;>
    simp [CallOf.children, callRanges, argumentRanges, Node.label]

theorem range_mapRange (e : Expr ρ) : (Expr.mapRange f e).label.range = f e.label.range := by
  cases e <;> rfl

theorem mapList_eq (list : List (Expr ρ)) : Expr.mapList f list = list.map (Expr.mapRange f) := by
  induction list with
  | nil => rfl
  | cons e rest ih => rw [Expr.mapList, ih, List.map_cons]

theorem mapPairs_eq (pairs : List (NamedArg ρ (Expr ρ))) : Expr.mapPairs f pairs =
    pairs.map fun pair => ⟨pair.label.map f, pair.name, Expr.mapRange f pair.value⟩ := by
  induction pairs with
  | nil => rfl
  | cons pair rest ih => rw [Expr.mapPairs, ih, List.map_cons]

theorem callRanges_mapCall (call : Call ρ) : callRanges (Expr.mapCall f call) = (callRanges call).map f := by
  rcases call with ⟨callee, params, _ | ⟨label, pairs⟩⟩ <;>
    simp [Expr.mapCall, Expr.mapNamed, callRanges, argumentRanges, range_mapRange, mapList_eq, Label.map]

end Ranges

theorem Node.Laid.leaf {text : Text} {node : Node Span} {own : Extent} (range : node.label.range = text.span own)
    (childless : node.children = []) (forward : own.start ≤ own.stop) (bounded : own.stop ≤ text.length)
    (written : node.WrittenAs (text.slice own.start own.stop)) : node.Laid text :=
  ⟨own, [], range, bounded, InTurn.ordered forward, by rw [childless]; rfl, written⟩

/-! ### Operands and arguments -/

/-- An operand covers a range from its first token on, and the tokens left stand behind it. -/
structure OperandLaid (text : Text) (stop : Nat) (first : Token) (e : Expr Extent) (rest : List Token) : Prop where
  start : e.label.range.start = first.extent.start
  forward : first.extent.stop ≤ e.label.range.stop
  rest : TokensIn text stop e.label.range.stop rest
  nodes : ∀ node ∈ (Expr.mapRange text.span e).nodes, node.Laid text

/-- What stands directly below a call lies between two offsets in turn, and all nodes below it are laid out in
the text. -/
structure CallLaid (text : Text) (start stop : Nat) (call : Call Extent) : Prop where
  inTurn : InTurn stop start (callRanges call)
  nodes : ∀ node ∈ Expr.callNodes (Expr.mapCall text.span call), node.Laid text

/-- Arguments cover ranges one behind the other, and the tokens left stand behind them. -/
structure ArgumentsLaid (text : Text) (start stop : Nat) (params : List (Expr Extent))
    (named : Option (NamedArgs Extent (Expr Extent))) (rest : List Token) : Prop where
  ranges : ∃ middle, InTurn middle start (argumentRanges params named) ∧ TokensIn text stop middle rest
  params : ∀ node ∈ Expr.listNodes (Expr.mapList text.span params), node.Laid text
  named : ∀ node ∈ Expr.namedNodes (Expr.mapNamed text.span named), node.Laid text

theorem OperandLaid.runs {text : Text} {stop : Nat} {first : Token} {e : Expr Extent} {rest : List Token}
    (h : OperandLaid text stop first e rest) (here : first.Covers text) :
    e.label.range.start ≤ e.label.range.stop := by
  rw [h.start]
  exact Nat.le_trans (Nat.le_of_lt here.forward) h.forward

theorem OperandLaid.call {text : Text} {start stop middle : Nat} {first : Token} {callee : Expr Extent}
    {rest left : List Token} {params : List (Expr Extent)} {named : Option (NamedArgs Extent (Expr Extent))}
    (h : OperandLaid text stop first callee rest) (here : first.Covers text) (behind : start ≤ first.extent.start)
    (inTurn : InTurn middle callee.label.range.stop (argumentRanges params named))
    (laid : ArgumentsLaid text callee.label.range.stop stop params named left) :
    CallLaid text start middle ⟨callee, params, named⟩ := by
  refine ⟨⟨by rw [h.start]; exact behind, h.runs here, inTurn⟩, ?_⟩
  rw [Expr.mapCall, Expr.callNodes, List.forall_mem_append, List.forall_mem_append]
  exact ⟨⟨h.nodes, laid.params⟩, laid.named⟩

theorem segments_in {text : Text} {reached stop : Nat} {found : List Token} {more : Segments found.length}
    (read : segments reached found = .ok more) (h : TokensIn text stop reached found) :
    reached ≤ more.stop ∧ TokensIn text stop more.stop more.rest := by
  fun_induction segments reached found with
  | case1 reached =>
    obtain rfl := Except.ok.inj read
    exact ⟨Nat.le_refl _, h⟩
  | case2 => cases read
  | case3 reached separator segment rest _ named ih =>
    obtain ⟨later, found, read⟩ := bind_ok read
    obtain rfl := Except.ok.inj read
    obtain ⟨behind, here, behindNext, next, tail⟩ := h
    obtain ⟨reaches, left⟩ := ih found tail
    have forward := here.forward
    have nextForward := next.forward
    exact ⟨by simp only; omega, left⟩
  | case4 => cases read
  | case5 =>
    obtain rfl := Except.ok.inj read
    exact ⟨Nat.le_refl _, h⟩

theorem readPath_laid {text : Text} {next stop : Nat} {data : Bool} {first segment : Token} {rest : List Token}
    {parsed : Parsed (Expr Extent) rest.length} (bounded : stop ≤ text.length)
    (read : readPath text next data first segment rest = .ok parsed) (here : first.Covers text)
    (forward : first.extent.stop ≤ segment.extent.stop) (h : TokensIn text stop segment.extent.stop rest) :
    OperandLaid text stop first parsed.value parsed.rest := by
  obtain ⟨more, found, read⟩ := bind_ok read
  obtain rfl := Except.ok.inj read
  obtain ⟨reaches, left⟩ := segments_in found h
  refine ⟨rfl, Nat.le_trans forward reaches, left, ?_⟩
  have runs : first.extent.start ≤ more.stop :=
    Nat.le_trans (Nat.le_of_lt here.forward) (Nat.le_trans forward reaches)
  exact List.forall_mem_singleton.mpr (.leaf rfl rfl runs (Nat.le_trans left.le bounded) rfl)

theorem readLiteral_written {token : Token} {literal : Literal} (shape : token.kind.Shape token.text)
    (read : readLiteral token = .ok literal) (label : Label Span) :
    (Node.expr (.literal label literal)).WrittenAs token.text := by
  unfold readLiteral at read
  split at read
  · next kind =>
    obtain rfl := Except.ok.inj read
    rw [kind] at shape
    obtain ⟨quote, inner, isQuote, written⟩ := shape
    refine ⟨quote, inner, isQuote, written, ?_⟩
    rw [written, unquote, List.dropLast_concat]
  · obtain ⟨number, -, read⟩ := bind_ok read
    obtain rfl := Except.ok.inj read
    rfl
  · next kind =>
    obtain rfl := Except.ok.inj read
    rw [kind] at shape
    rcases shape with isTrue | isFalse
    · rw [isTrue]
      rfl
    · rw [isFalse]
      rfl
  · obtain rfl := Except.ok.inj read
    trivial
  · obtain rfl := Except.ok.inj read
    trivial
  · cases read

section Readers

variable {text : Text} {stop : Nat}

theorem sub_laid {opener closer : Token} {next : Nat} {call : Call Extent} (bounded : closer.extent.stop ≤ text.length)
    (opens : opener.Covers text) (isOpener : opener.kind = .openSub) (closes : closer.Covers text)
    (isCloser : closer.kind = .closeSub)
    (laid : CallLaid text opener.extent.stop closer.extent.start call) :
    ∀ node ∈ (Expr.mapRange text.span (.sub ⟨next, ⟨opener.extent.start, closer.extent.stop⟩⟩ call)).nodes,
      node.Laid text := by
  have opened := opens.forward
  have closed := closes.forward
  have forward := laid.inTurn.le
  refine List.forall_mem_cons.mpr ⟨⟨⟨opener.extent.start, closer.extent.stop⟩, callRanges call, rfl, bounded, ?_,
    ?_, text.slice opener.extent.stop closer.extent.start, ?_⟩, laid.nodes⟩
  · exact (laid.inTurn.widen (Nat.le_of_lt opened) (Nat.le_of_lt closed)).ordered
  · rw [Node.children, children_ranges, callRanges_mapCall]
  · have shape := opens.shape
    have shape' := closes.shape
    rw [isOpener] at shape
    rw [isCloser] at shape'
    have reaches : opener.extent.stop ≤ closer.extent.stop := Nat.le_trans forward (Nat.le_of_lt closed)
    rw [← Text.slice_append_slice text (Nat.le_of_lt opened) reaches,
      ← Text.slice_append_slice text forward (Nat.le_of_lt closed), opens.slice, closes.slice, shape, shape']
    rfl

theorem named_laid {start middle : Nat} {first : NamedArg Extent (Expr Extent)}
    {others : List (NamedArg Extent (Expr Extent))} (bounded : middle ≤ text.length) (next : Nat)
    (inTurn : InTurn middle start ((first :: others).map fun pair => pair.label.range)) :
    let extent : Extent := ⟨first.label.range.start, (others.getLast?.getD first).label.range.stop⟩
    InTurn middle start [extent] ∧
      Node.Laid text (.named ⟨Label.map text.span ⟨next, extent⟩, Expr.mapPairs text.span (first :: others)⟩) := by
  obtain ⟨between, ends⟩ := inTurn.ends
  have last : ((others.map fun pair => pair.label.range).getLast?.getD first.label.range) =
      (others.getLast?.getD first).label.range := by
    rw [List.getLast?_map, Option.getD_map]
  rw [last] at between ends
  refine ⟨⟨inTurn.1, between.le, ends⟩, _, _, rfl, Nat.le_trans ends bounded, between.ordered, ?_, ?_⟩
  · simp [Node.children, Node.label, mapPairs_eq, Label.map]
  · refine ⟨_, _, by rw [mapPairs_eq]; rfl, by rw [mapPairs_eq, List.getLast?_map, List.getLast?_cons]; rfl, rfl⟩

theorem pair_laid {start : Nat} {name token : Token} {value : Expr Extent} {between : List Token}
    (bounded : stop ≤ text.length) (behind : start ≤ name.extent.start) (isName : name.Covers text)
    (toToken : name.extent.stop ≤ token.extent.start) (isToken : token.Covers text)
    (isValue : OperandLaid text stop token value between) (next : Nat) :
    let extent : Extent := ⟨name.extent.start, value.label.range.stop⟩
    InTurn extent.stop start [extent] ∧
      Node.Laid text (.pair ⟨Label.map text.span ⟨next, extent⟩, name.text, Expr.mapRange text.span value⟩) := by
  have toValue : name.extent.stop ≤ value.label.range.start := by
    rw [isValue.start]
    exact toToken
  have runs := isValue.runs isToken
  have ofName := Nat.le_of_lt isName.forward
  have reaches := Nat.le_trans toValue runs
  refine ⟨⟨behind, Nat.le_trans ofName reaches, Nat.le_refl _⟩, ⟨name.extent.start, value.label.range.stop⟩,
    [value.label.range], rfl, Nat.le_trans isValue.rest.le bounded,
    InTurn.ordered ⟨Nat.le_trans ofName toValue, runs, Nat.le_refl _⟩, ?_, ?_, ?_⟩
  · simp [Node.children, Node.label, range_mapRange]
  · rw [← Text.slice_append_slice text ofName reaches, isName.slice]
    exact List.prefix_append _ _
  · rw [range_mapRange]
    rfl

/-- What is read of tokens that lie in a text is laid out in it. -/
theorem readers_lay (bounded : stop ≤ text.length) : ReaderRules text
    (fun _ token rest operand _ left => ∀ start, TokensIn text stop start (token :: rest) →
      OperandLaid text stop token operand left)
    (fun _ tokens given _ left => ∀ start, TokensIn text stop start tokens →
      ArgumentsLaid text start stop given.1 given.2 left)
    (fun _ tokens pairs _ left => ∀ start, TokensIn text stop start tokens →
      ∃ middle, InTurn middle start (pairs.map fun pair => pair.label.range) ∧ TokensIn text stop middle left ∧
        ∀ node ∈ Expr.pairNodes (Expr.mapPairs text.span pairs), node.Laid text) where
  sub kind _ called given closerKind start h := by
    obtain ⟨behind, here, tail⟩ := h
    have isCallee := called _ tail
    have laid := given _ isCallee.rest
    -- The closing parenthesis is the first token that the arguments left over.
    obtain ⟨middle, inTurn, beforeCloser, isCloser, afterCloser⟩ := laid.ranges
    have call := isCallee.call tail.2.1 tail.1 (inTurn.widen (Nat.le_refl _) beforeCloser) laid
    refine ⟨rfl, Nat.le_trans call.inTurn.le (Nat.le_of_lt isCloser.forward), afterCloser, ?_⟩
    exact sub_laid (Nat.le_trans afterCloser.le bounded) here kind isCloser closerKind call
  name _ read start h := readPath_laid bounded read h.2.1 (Nat.le_refl _) h.2.2
  data _ _ read start h := by
    obtain ⟨behind, here, tail⟩ := h
    exact readPath_laid bounded read here (Nat.le_trans tail.1 (Nat.le_of_lt tail.2.1.forward)) tail.2.2
  literal {next token _ _} _ _ _ read start h := by
    obtain ⟨behind, here, tail⟩ := h
    refine ⟨rfl, Nat.le_refl _, tail, List.forall_mem_singleton.mpr ?_⟩
    have written := readLiteral_written here.shape read (Label.map text.span ⟨next, token.extent⟩)
    rw [← here.slice] at written
    exact .leaf rfl rfl (Nat.le_of_lt here.forward) (Nat.le_trans tail.le bounded) written
  noArguments start h := ⟨⟨start, Nat.le_refl _, h⟩, List.forall_mem_nil _, List.forall_mem_nil _⟩
  param _ _ first more start h := by
    have isParam := first _ h
    have laid := more _ isParam.rest
    obtain ⟨middle, inTurn, left⟩ := laid.ranges
    exact ⟨⟨middle, ⟨isParam.start ▸ h.1, isParam.runs h.2.1, inTurn⟩, left⟩,
      List.forall_mem_append.mpr ⟨isParam.nodes, laid.params⟩, laid.named⟩
  withoutNamed _ found start h := by
    obtain ⟨middle, inTurn, left, -⟩ := found _ h
    exact ⟨⟨middle, inTurn, left⟩, List.forall_mem_nil _, List.forall_mem_nil _⟩
  withNamed _ found start h := by
    obtain ⟨middle, inTurn, left, laid⟩ := found _ h
    obtain ⟨reaches, isNamed⟩ := named_laid (Nat.le_trans left.le bounded) _ inTurn
    exact ⟨⟨middle, reaches, left⟩, List.forall_mem_nil _, List.forall_mem_cons.mpr ⟨isNamed, laid⟩⟩
  pair _ _ _ first more start h := by
    obtain ⟨behind, isName, behindName, isEquals, tail⟩ := h
    have isValue := first _ tail
    obtain ⟨middle, inTurn, left, laid⟩ := more _ isValue.rest
    have toToken := Nat.le_trans behindName (Nat.le_trans (Nat.le_of_lt isEquals.forward) tail.1)
    obtain ⟨here, isPair⟩ := pair_laid bounded behind isName toToken tail.2.1 isValue _
    exact ⟨middle, ⟨here.1, here.2.1, inTurn⟩, left,
      List.forall_mem_cons.mpr ⟨isPair, List.forall_mem_append.mpr ⟨isValue.nodes, laid⟩⟩⟩
  noPairs _ start h := ⟨start, Nat.le_refl _, h, List.forall_mem_nil _⟩

end Readers

/-- The call inside of a tag is laid out in the part of the text that it is read from. -/
theorem readCall_laid {text before inner after : Text} {next start : Nat} {allowParams : Bool} {read : CallRead}
    (split : text = before ++ inner ++ after)
    (called : readCall text next start before.length inner allowParams = .ok read) :
    CallLaid text before.length (before.length + inner.length) read.call := by
  have bounded : before.length + inner.length ≤ text.length := by
    rw [split]
    simp
  obtain ⟨token, rest, next', between, left, lexed, callee, given, -⟩ := (readers_lay bounded).of_readCall called
  have h := tokens_in split lexed
  have isCallee := callee _ h
  have laid := given _ isCallee.rest
  obtain ⟨middle, inTurn, left⟩ := laid.ranges
  exact isCallee.call h.2.1 h.1 (inTurn.widen (Nat.le_refl _) left.le) laid

end Phrasebook.Template
