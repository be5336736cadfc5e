import Phrasebook.Proofs.Extract.Faults
import Phrasebook.Proofs.Template.Nesting.Operands
import Phrasebook.Proofs.Template.Nesting.Tags
import Phrasebook.Proofs.Template.Parser
import Phrasebook.Proofs.Text.Excerpt

/-!
# Spans that nest and tell what they cover

The nodes of a tree are laid out in its text: the tags and bodies of the tree tile the text, and the call of a
tag lies in the tag that it was read from. `load_nested` reads it off as positions. Children lie in their
parents, in order and apart, and a node is written with the characters of its span.
-/

namespace Phrasebook.Template

/-! ### Calls in their tags -/

/-- A call is laid out in whatever tag is read at an offset. -/
def CallAt (text : Text) (x : Nat × Call Extent) : Prop :=
  ∀ stop kind, TagAt text ⟨x.1, stop⟩ kind → CallLaid text x.1 stop x.2

theorem TagAt.stop_unique {text : Text} {start stop stop' : Nat} {kind kind' : TagKind}
    (h : TagAt text ⟨start, stop⟩ kind) (h' : TagAt text ⟨start, stop'⟩ kind') : stop = stop' := by
  obtain ⟨tag, read, -, -⟩ := h.read
  obtain ⟨tag', read', -, -⟩ := h'.read
  have same : text.drop stop = text.drop stop' := by
    have both := read.symm.trans read'
    exact (TagRead.mk.inj (Except.ok.inj both)).2
  have lengths := congrArg List.length same
  have bounded : stop ≤ text.length := h.bounded
  have bounded' : stop' ≤ text.length := h'.bounded
  rw [List.length_drop, List.length_drop] at lengths
  omega

theorem yields_callAt {text front back : Text} {tag : Tag} (split : text = front ++ (tag.text ++ back))
    (read : ReadBefore back (.tag tag)) : State.Placed.Yields ⟨tag, front.length⟩ text (CallAt text) := by
  intro next allowParams call called stop kind tagAt
  have here := (@placed_of_readBefore front back tag read).tag
  -- Only one tag can be read at the offset, and it is the one that the call stands in.
  rw [← split] at here
  obtain rfl : front.length + tag.text.length = stop := here.stop_unique tagAt
  have parts : text = (front ++ tag.opening) ++ tag.inner ++ (tag.closing ++ back) := by
    rw [split, Tag.text]
    simp only [List.append_assoc]
  have start : (State.Placed.mk tag front.length).inner = (front ++ tag.opening).length := List.length_append.symm
  rw [State.Placed.call, start] at called
  have laid := readCall_laid parts called
  refine ⟨laid.inTurn.widen ?_ ?_, laid.nodes⟩
  · rw [List.length_append]
    exact Nat.le_add_right _ _
  · rw [Tag.text]
    simp only [List.length_append]
    omega

theorem Node.Laid.of_call {text : Text} {node : Node Span} {own : Extent} {middle : Nat} {call : Call Extent}
    {more : List Extent} (range : node.label.range = text.span own) (bounded : own.stop ≤ text.length)
    (laid : CallLaid text own.start middle call) (rest : Ordered ⟨middle, own.stop⟩ more)
    (children : node.children.map (fun child => child.label.range) =
      callRanges (Expr.mapCall text.span call) ++ more.map text.span)
    (written : node.WrittenAs (text.slice own.start own.stop)) : node.Laid text := by
  refine ⟨own, callRanges call ++ more, range, bounded, laid.inTurn.ordered.append rest, ?_, written⟩
  rw [children, callRanges_mapCall, List.map_append]

theorem statement_laid {text : Text} {s : Statement Span} {own : Extent} {call : Call Extent}
    (range : s.label.range = text.span own) (bounded : own.stop ≤ text.length)
    (laid : CallLaid text own.start own.stop call)
    (children : (Node.statement s).children.map (fun child => child.label.range) =
      callRanges (Expr.mapCall text.span call)) : (Node.statement s).Laid text :=
  have nothing : InTurn own.stop own.stop [] := Nat.le_refl _
  .of_call range bounded laid nothing.ordered (by simpa using children) trivial

theorem body_statement_laid {text : Text} {s : Statement Span} {own : Extent} {call : Call Extent}
    {body : Program Extent} (range : s.label.range = text.span own) (bounded : own.stop ≤ text.length)
    (laid : CallLaid text own.start body.label.range.start call) (tiled : Statement.ProgramTiled text body)
    (closing : TagAt text ⟨body.label.range.stop, own.stop⟩ (.stop .close))
    (children : (Node.statement s).children =
      (Expr.mapCall text.span call).children ++ [.program (Statement.mapProgram text.span body)]) :
    (Node.statement s).Laid text := by
  have inTurn : InTurn own.stop body.label.range.start [body.label.range] :=
    ⟨Nat.le_refl _, (Statement.ProgramTiled.within tiled).1, Nat.le_of_lt closing.forward⟩
  refine .of_call range bounded laid inTurn.ordered ?_ trivial
  rw [children, List.map_append, children_ranges]
  simp [Node.label, Extract.label_mapProgram, Label.map]

/-! ### Branches -/

theorem branchesInOrder_two {β : Type} {start : β → Position} (inverted : Bool) {first second : β}
    (ordered : ¬start second < start first) :
    branchesInOrder start inverted first (some second) = [first, second] ∨
      branchesInOrder start inverted first (some second) = [second, first] ∧ ¬start first < start second := by
  cases inverted with
  | false => exact .inl (if_neg ordered)
  | true =>
    by_cases before : start first < start second
    · exact .inl (if_pos before)
    · exact .inr ⟨if_neg before, before⟩

/-- The branches of a block stand between its open tag and its end. When they start together, the first one is
empty. -/
theorem branches_ordered {text : Text} {chained : Bool} (inverted : Bool) {stop : Nat} {first : Program Extent}
    {second : Option (Program Extent)} (firstTiled : Statement.ProgramTiled text first)
    (rest : Statement.SecondTiled text chained ⟨first.label.range.stop, stop⟩ second) :
    ∃ ranges, Ordered ⟨first.label.range.start, stop⟩ ranges ∧
      (branchesInOrder ProgramOf.start inverted (Statement.mapProgram text.span first)
        (Statement.mapBranch text.span second)).map (fun branch => branch.label.range) = ranges.map text.span := by
  have forward := (Statement.ProgramTiled.within firstTiled).1
  cases second with
  | none =>
    have inTurn : InTurn stop first.label.range.start [first.label.range] :=
      ⟨Nat.le_refl _, forward, CloseAt.forward rest⟩
    refine ⟨_, inTurn.ordered, ?_⟩
    cases inverted <;>
      simp [Statement.mapBranch, branchesInOrder, positiveBranch, negativeBranch, Extract.label_mapProgram, Label.map]
  | some branch =>
    obtain ⟨before, branchTiled, closing⟩ := rest
    have branchForward := (Statement.ProgramTiled.within branchTiled).1
    have reaches : branch.label.range.stop ≤ stop := closing.forward
    have behind : first.label.range.stop ≤ branch.label.range.start := by
      split at before
      · exact Nat.le_of_eq before
      · exact Nat.le_of_lt before.forward
    have ordered : ¬ProgramOf.start (Statement.mapProgram text.span branch) <
        ProgramOf.start (Statement.mapProgram text.span first) := by
      simp only [ProgramOf.start, Extract.label_mapProgram, Label.map, Text.span_start, Text.position_lt_iff]
      omega
    rcases branchesInOrder_two inverted ordered with listed | ⟨listed, together⟩
    · have inTurn : InTurn stop first.label.range.start [first.label.range, branch.label.range] :=
        ⟨Nat.le_refl _, forward, behind, branchForward, reaches⟩
      refine ⟨_, inTurn.ordered, ?_⟩
      rw [Statement.mapBranch, listed]
      simp [Extract.label_mapProgram, Label.map]
    · -- The second branch comes first only when both start together, and then the first one is empty.
      simp only [ProgramOf.start, Extract.label_mapProgram, Label.map, Text.span_start,
        Text.position_lt_iff] at together
      refine ⟨[branch.label.range, first.label.range], ⟨?_, ?_, ?_⟩, ?_⟩
      · simp only
        omega
      · rw [List.forall_mem_cons, List.forall_mem_singleton]
        refine ⟨⟨?_, branchForward, reaches⟩, Nat.le_refl _, forward, ?_⟩
        · simp only
          omega
        · simp only
          omega
      · rw [List.pairwise_pair]
        exact ⟨by omega, .inr (by omega)⟩
      · rw [Statement.mapBranch, listed]
        simp [Extract.label_mapProgram, Label.map]

/-! ### Trees -/

theorem Abut.inTurn {text : Text} {chained : Bool} {body : List (Statement Extent)} {start stop : Nat}
    (abut : Abut start stop body) (tiled : Statement.ListTiled text chained body) :
    InTurn stop start (body.map fun s => s.label.range) := by
  induction body generalizing start with
  | nil => exact Nat.le_of_eq abut
  | cons s rest ih =>
    obtain ⟨rfl, later⟩ := abut
    exact ⟨Nat.le_refl _, Nat.le_of_lt tiled.1.within.1, ih later tiled.2⟩

theorem ranges_mapStatements {ρ σ : Type} (f : ρ → σ) (body : List (Statement ρ)) :
    (Statement.mapList f body).map (fun s => s.label.range) = (body.map fun s => s.label.range).map f := by
  induction body with
  | nil => rfl
  | cons s rest ih =>
    rw [Statement.mapList, List.map_cons, ih, List.map_cons, List.map_cons]
    cases s <;> rfl

mutual

theorem Statement.laid {text : Text} {chained : Bool} : ∀ {s : Statement Extent}, s.Tiled text chained →
    (∀ x ∈ s.tagCalls, CallAt text x) → ∀ node ∈ (s.mapRange text.span).nodes, node.Laid text
  | .content _ _ _, h, _ =>
    List.forall_mem_singleton.mpr (.leaf rfl rfl (Nat.le_of_lt h.forward) h.bounded trivial)
  | .comment _ _, h, _ =>
    List.forall_mem_singleton.mpr (.leaf rfl rfl (Nat.le_of_lt h.forward) h.bounded trivial)
  | .mustache label call _, h, calls => by
    have laid := List.forall_mem_singleton.mp calls _ _ h.1
    exact List.forall_mem_cons.mpr ⟨statement_laid rfl h.1.bounded laid (children_ranges _), laid.nodes⟩
  | .partialCall label call, h, calls => by
    have laid := List.forall_mem_singleton.mp calls _ _ h.1
    exact List.forall_mem_cons.mpr ⟨statement_laid rfl h.1.bounded laid (children_ranges _), laid.nodes⟩
  | .decorator label call, h, calls => by
    have laid := List.forall_mem_singleton.mp calls _ _ h.1
    exact List.forall_mem_cons.mpr ⟨statement_laid rfl h.1.bounded laid (children_ranges _), laid.nodes⟩
  | .partialBlock label call body, h, calls => by
    have bounded := h.within.2
    obtain ⟨opening, -, -, bodyTiled, closing⟩ := h
    obtain ⟨atTag, inBody⟩ := List.forall_mem_cons.mp calls
    have laid := atTag _ _ opening
    exact List.forall_mem_cons.mpr ⟨body_statement_laid rfl bounded laid bodyTiled closing rfl,
      List.forall_mem_append.mpr ⟨laid.nodes,
        Statement.program_laid bodyTiled (Nat.le_trans (Nat.le_of_lt closing.forward) bounded) inBody⟩⟩
  | .decoratorBlock label call body, h, calls => by
    have bounded := h.within.2
    obtain ⟨opening, -, -, bodyTiled, closing⟩ := h
    obtain ⟨atTag, inBody⟩ := List.forall_mem_cons.mp calls
    have laid := atTag _ _ opening
    exact List.forall_mem_cons.mpr ⟨body_statement_laid rfl bounded laid bodyTiled closing rfl,
      List.forall_mem_append.mpr ⟨laid.nodes,
        Statement.program_laid bodyTiled (Nat.le_trans (Nat.le_of_lt closing.forward) bounded) inBody⟩⟩
  | .block label call inverted first second, h, calls => by
    have bounded := h.within.2
    obtain ⟨opening, -, -, firstTiled, rest⟩ := h
    obtain ⟨atTag, inBranches⟩ := List.forall_mem_cons.mp calls
    obtain ⟨inFirst, inSecond⟩ := List.forall_mem_append.mp inBranches
    have laid := atTag _ _ opening
    obtain ⟨ranges, ordered, listed⟩ := branches_ordered inverted firstTiled rest
    intro node member
    rcases Extract.mem_nodes_block member with rfl | inCall | isFirst | ⟨branch, isBranch, isSecond⟩
    · refine .of_call rfl bounded laid ordered ?_ trivial
      rw [← listed, Node.children, List.map_append, children_ranges, List.map_map]
      rfl
    · exact laid.nodes node inCall
    · exact Statement.program_laid firstTiled (Nat.le_trans (Statement.SecondTiled.within rest).1 bounded) inFirst
        node isFirst
    · exact Statement.branch_laid rest bounded inSecond isBranch node isSecond
  | .bare _ _, h, _ => h.elim

theorem Statement.program_laid {text : Text} : ∀ {program : Program Extent}, Statement.ProgramTiled text program →
    program.label.range.stop ≤ text.length → (∀ x ∈ Statement.programTagCalls program, CallAt text x) →
    ∀ node ∈ Statement.programNodes (Statement.mapProgram text.span program), node.Laid text
  | ⟨label, body, _, _⟩, h, bounded, calls => by
    refine List.forall_mem_cons.mpr ⟨?_, Statement.list_laid h.2.2.2.2 calls⟩
    refine ⟨label.range, _, rfl, bounded, (h.1.inTurn h.2.2.2.2).ordered, ?_, trivial⟩
    rw [← ranges_mapStatements]
    simp [Node.children, Node.label]

theorem Statement.branch_laid {text : Text} {chained : Bool} {extent : Extent} {branch : Program Span} :
    ∀ {second : Option (Program Extent)}, Statement.SecondTiled text chained extent second →
      extent.stop ≤ text.length → (∀ x ∈ Statement.branchTagCalls second, CallAt text x) →
      Statement.mapBranch text.span second = some branch → ∀ node ∈ Statement.programNodes branch, node.Laid text
  | none, _, _, _, isBranch => nomatch isBranch
  | some _, h, bounded, calls, isBranch => by
    obtain rfl := Option.some.inj isBranch
    exact Statement.program_laid h.2.1 (Nat.le_trans h.2.2.forward bounded) calls

theorem Statement.list_laid {text : Text} {chained : Bool} : ∀ {body : List (Statement Extent)},
    Statement.ListTiled text chained body → (∀ x ∈ Statement.listTagCalls body, CallAt text x) →
    ∀ node ∈ Statement.listNodes (Statement.mapList text.span body), node.Laid text
  | [], _, _ => List.forall_mem_nil _
  | _ :: _, h, calls => by
    obtain ⟨here, later⟩ := List.forall_mem_append.mp calls
    exact List.forall_mem_append.mpr ⟨Statement.laid h.1 here, Statement.list_laid h.2 later⟩

end

/-! ### Spans -/

/-- Whether a place lies in a span. -/
def Encloses (span : Span) (place : Position) : Prop := span.start ≤ place ∧ place < span.stop

/-- The nodes below a node lie in its span in the order of their starts, and no place lies in two of them. -/
structure Node.Nests (node : Node Span) : Prop where
  forward : node.label.range.start ≤ node.label.range.stop
  inside : ∀ child ∈ node.children,
    node.label.range.start ≤ child.label.range.start ∧ child.label.range.stop ≤ node.label.range.stop
  ascending : node.children.Pairwise fun child next => child.label.range.start ≤ next.label.range.start
  apart : node.children.Pairwise fun child next =>
    ∀ place, ¬(Encloses child.label.range place ∧ Encloses next.label.range place)

theorem Staggered.encloses {text : Text} {first second : Extent} (apart : Staggered first second) (place : Position) :
    ¬(Encloses (text.span first) place ∧ Encloses (text.span second) place) := by
  rintro ⟨⟨-, beforeStop⟩, behindStart, beforeSecondStop⟩
  rcases apart.2 with behind | empty
  · have reached := Position.lt_of_le_of_lt behindStart beforeStop
    rw [Text.span_start, Text.span_stop, Text.position_lt_iff] at reached
    omega
  · have filled := Position.lt_of_le_of_lt behindStart beforeSecondStop
    rw [Text.span_start, Text.span_stop, Text.position_lt_iff] at filled
    omega

theorem Node.Laid.nests {text : Text} {node : Node Span} (h : node.Laid text) : node.Nests := by
  obtain ⟨own, below, range, -, ordered, children, -⟩ := h
  have pairs (R : Span → Span → Prop)
      (each : ∀ first second, Staggered first second → R (text.span first) (text.span second)) :
      node.children.Pairwise fun child next => R child.label.range next.label.range := by
    rw [← List.pairwise_map, children, List.pairwise_map]
    exact ordered.apart.imp fun apart => each _ _ apart
  refine ⟨?_, ?_, pairs (·.start ≤ ·.start) fun _ _ apart => Text.position_le_iff.mpr apart.1,
    pairs (fun first second => ∀ place, ¬(Encloses first place ∧ Encloses second place))
      fun _ _ apart => apart.encloses⟩
  · rw [range]
    exact Text.position_le_iff.mpr ordered.forward
  · intro child member
    have listed : child.label.range ∈ below.map text.span := by
      rw [← children]
      exact List.mem_map_of_mem member
    obtain ⟨extent, isBelow, same⟩ := List.mem_map.mp listed
    obtain ⟨low, -, high⟩ := ordered.inside extent isBelow
    rw [range, ← same]
    exact ⟨Text.position_le_iff.mpr low, Text.position_le_iff.mpr high⟩

theorem Node.Laid.written {text : Text} {node : Node Span} (h : node.Laid text) :
    node.WrittenAs (Text.excerpt text.lines node.label.range.start node.label.range.stop) := by
  obtain ⟨own, below, range, bounded, ordered, -, written⟩ := h
  rw [range, Text.span_start, Text.span_stop, Text.excerpt_span ordered.forward bounded]
  exact written

/-- In a template that can be read, the nodes below a node lie in its span, in order and apart from each other,
and every node is written with the characters that its span cuts out of the text. -/
theorem load_nested {source : String} {text : Text} {template : Template}
    (loaded : Template.load source text = .ok template) : ∀ node ∈ template.program.nodes,
      node.Nests ∧ node.WrittenAs (Text.excerpt text.lines node.label.range.start node.label.range.stop) := by
  obtain ⟨tree, parsed, rfl⟩ := load_parsed loaded
  obtain ⟨tiled, range, -⟩ := parse_tiled parsed
  have calls := parse_tagCalls parsed fun front tag back => yields_callAt
  have bounded : tree.label.range.stop ≤ text.length := by
    rw [range]
  intro node member
  have laid := Statement.program_laid tiled bounded calls node member
  exact ⟨laid.nests, laid.written⟩

/-- All kinds of operands in one tag, and an inverse block that is empty up to a chained branch, whose branches
start together. -/
theorem load_nested_chain :
    ∃ text template, text = tagged "t 'a\\'b' (f 12 true) k=x.y" ++ ['\n'] ++ tagged "^a" ++ tagged "else b" ++ ['c'] ++
        tagged "/a" ∧ Template.load "page" text = .ok template ∧
      template.program.nodes.map Node.kind =
        [.program, .mustache, .path, .string, .sub, .path, .number, .boolean, .named, .namedPair, .path, .content,
          .block, .path, .program, .block, .path, .program, .content, .program] ∧
      ∀ node ∈ template.program.nodes,
        node.Nests ∧ node.WrittenAs (Text.excerpt text.lines node.label.range.start node.label.range.stop) := by
  have readable : ((Template.load "page" (tagged "t 'a\\'b' (f 12 true) k=x.y" ++ ['\n'] ++ tagged "^a" ++
      tagged "else b" ++ ['c'] ++ tagged "/a")).toOption.map fun template => template.program.nodes.map Node.kind) =
        some [.program, .mustache, .path, .string, .sub, .path, .number, .boolean, .named, .namedPair, .path, .content,
          .block, .path, .program, .block, .path, .program, .content, .program] := by decide +kernel
  obtain ⟨template, found, kinds⟩ := Option.map_eq_some_iff.mp readable
  have loaded := ok_of_toOption found
  exact ⟨_, template, rfl, loaded, kinds, load_nested loaded⟩

end Phrasebook.Template
