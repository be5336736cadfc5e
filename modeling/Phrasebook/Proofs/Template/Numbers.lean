import Phrasebook.Proofs.Template.Steps
import Mathlib.Data.List.Nodup

/-!
The numbers of nodes. Every step of the parser takes the next free numbers and gives each of them to
one node, so no two nodes of a tree have the same number.
-/

namespace Phrasebook.Template

/-- The numbers from `start` up to `stop`, each once, in any order. -/
structure Numbers (start stop : Nat) (ids : List Nat) : Prop where
  forward : start ≤ stop
  once (n : Nat) : ids.count n = if start ≤ n ∧ n < stop then 1 else 0

namespace Numbers

theorem nil (start : Nat) : Numbers start start [] :=
  ⟨Nat.le_refl _, fun n => by rw [if_neg (by omega)]; rfl⟩

theorem single (start : Nat) : Numbers start (start + 1) [start] := by
  refine ⟨by omega, fun n => ?_⟩
  rw [List.count_singleton]
  by_cases same : start = n
  · simp [same]
  · rw [if_neg (by simpa using same), if_neg (by omega)]

theorem append {start middle stop : Nat} {first second : List Nat} (h : Numbers start middle first)
    (h' : Numbers middle stop second) : Numbers start stop (first ++ second) := by
  have := h.forward
  have := h'.forward
  refine ⟨by omega, fun n => ?_⟩
  rw [List.count_append, h.once, h'.once]
  split <;> split <;> split <;> omega

theorem perm {start stop : Nat} {ids ids' : List Nat} (h : Numbers start stop ids)
    (same : ids'.Perm ids) : Numbers start stop ids' :=
  ⟨h.forward, fun n => by rw [same.count_eq, h.once]⟩

theorem nodup {start stop : Nat} {ids : List Nat} (h : Numbers start stop ids) : ids.Nodup := by
  rw [List.nodup_iff_count_le_one]
  intro n
  rw [h.once]
  split <;> omega

theorem range {stop : Nat} {ids : List Nat} (h : Numbers 0 stop ids) : ids.Perm (List.range stop) := by
  rw [List.perm_iff_count]
  intro n
  rw [h.once, List.count_range]
  simp

end Numbers

/-- The numbers of some nodes. -/
def numbersOf {ρ : Type} (nodes : List (Node ρ)) : List Nat := nodes.map fun node => node.label.id

section

variable {ρ : Type}

@[simp] theorem numbersOf_nil : numbersOf ([] : List (Node ρ)) = [] := rfl

@[simp] theorem numbersOf_cons (node : Node ρ) (rest : List (Node ρ)) :
    numbersOf (node :: rest) = node.label.id :: numbersOf rest := rfl

@[simp] theorem numbersOf_append (first second : List (Node ρ)) :
    numbersOf (first ++ second) = numbersOf first ++ numbersOf second := List.map_append

end

/-! ### Calls -/

theorem readPath_numbered {text : Text} {next : Nat} {data : Bool} {first segment : Token} {rest : List Token}
    {parsed : Parsed (Expr Extent) rest.length} (h : readPath text next data first segment rest = .ok parsed) :
    Numbers next parsed.next (numbersOf parsed.value.nodes) := by
  obtain ⟨more, -, h⟩ := bind_ok h
  obtain rfl := Except.ok.inj h
  exact .single next

/-- The readers of a call give the numbers between the first one and the next free one. -/
theorem readers_number (text : Text) : ReaderRules text
    (fun next _ _ operand next' _ => Numbers next next' (numbersOf operand.nodes))
    (fun next _ given next' _ => Numbers next next' (numbersOf (Expr.listNodes given.1 ++ Expr.namedNodes given.2)))
    (fun next _ pairs next' _ => Numbers next next' (numbersOf (Expr.pairNodes pairs))) where
  sub _ _ called given _ := by
    simpa [Expr.nodes, Expr.callNodes, Node.label, Expr.label] using
      (Numbers.single _).append (called.append given)
  name _ read := readPath_numbered read
  data _ _ read := readPath_numbered read
  literal _ _ _ _ := .single _
  noArguments := .nil _
  param _ _ first more := by simpa [Expr.listNodes] using first.append more
  withoutNamed _ found := found
  withNamed _ found := by
    -- The named arguments as a whole are numbered behind the pairs.
    refine (found.append (.single _)).perm ?_
    simp only [Expr.listNodes, Expr.namedNodes, List.nil_append, numbersOf_cons]
    exact (List.perm_append_singleton _ _).symm
  pair _ _ _ value more := by
    -- The pair is numbered behind its value.
    refine (value.append ((Numbers.single _).append more)).perm ?_
    simp only [Expr.pairNodes, numbersOf_cons, numbersOf_append]
    exact List.perm_middle.symm
  noPairs _ := .nil _

theorem readCall_numbered {text inner : Text} {next start offset : Nat} {allowParams : Bool}
    {read : CallRead} (h : readCall text next start offset inner allowParams = .ok read) :
    Numbers next read.next (numbersOf (Expr.callNodes read.call)) := by
  obtain ⟨token, rest, next', between, left, -, called, given, -⟩ := (readers_number text).of_readCall h
  rw [Expr.callNodes, List.append_assoc, numbersOf_append]
  exact called.append given

/-! ### Trees -/

section Trees

variable {ρ : Type}

mutual

/-- The numbers of the nodes of a statement, in the order of the text. -/
def Statement.numbers : Statement ρ → List Nat
  | .content label _ _ => [label.id]
  | .comment label _ => [label.id]
  | .mustache label call _ => label.id :: numbersOf (Expr.callNodes call)
  | .partialCall label call => label.id :: numbersOf (Expr.callNodes call)
  | .decorator label call => label.id :: numbersOf (Expr.callNodes call)
  | .block label call _ first second =>
    label.id :: (numbersOf (Expr.callNodes call) ++
      (Statement.programNumbers first ++ Statement.branchNumbers second))
  | .partialBlock label call body =>
    label.id :: (numbersOf (Expr.callNodes call) ++ Statement.programNumbers body)
  | .decoratorBlock label call body =>
    label.id :: (numbersOf (Expr.callNodes call) ++ Statement.programNumbers body)
  | .bare label _ => [label.id]

def Statement.programNumbers : ProgramOf ρ (Statement ρ) → List Nat
  | ⟨label, body, _, _⟩ => label.id :: Statement.listNumbers body

def Statement.branchNumbers : Option (ProgramOf ρ (Statement ρ)) → List Nat
  | none => []
  | some branch => Statement.programNumbers branch

def Statement.listNumbers : List (Statement ρ) → List Nat
  | [] => []
  | s :: rest => s.numbers ++ Statement.listNumbers rest

end

theorem Statement.listNumbers_append (first second : List (Statement ρ)) :
    Statement.listNumbers (first ++ second) =
      Statement.listNumbers first ++ Statement.listNumbers second := by
  induction first with
  | nil => rfl
  | cons s rest ih =>
    rw [List.cons_append, Statement.listNumbers, ih, Statement.listNumbers, List.append_assoc]

theorem Statement.listNumbers_reverse (body : List (Statement ρ)) :
    (Statement.listNumbers body.reverse).Perm (Statement.listNumbers body) := by
  induction body with
  | nil => exact .nil
  | cons s rest ih =>
    rw [List.reverse_cons, Statement.listNumbers_append, Statement.listNumbers]
    simp only [Statement.listNumbers, List.append_nil]
    exact (ih.append_right _).trans List.perm_append_comm

end Trees

/-! ### The invariant -/

def Opener.numbers (opener : Opener) : List Nat := opener.id :: numbersOf (Expr.callNodes opener.call)

/-- The numbers of the blocks around the innermost one and of their first branches. -/
def chainNumbers (chain : List (Opener × Program Extent)) : List Nat :=
  chain.flatMap fun (opener, first) => opener.numbers ++ Statement.programNumbers first

/-- The numbers of the branches of a block that is still open. -/
def branchesNumbers (opener : Opener) : Option SecondBranch → List Nat
  | none => [opener.programId]
  | some second => Statement.programNumbers second.first ++ [second.id]

def Frame.numbers (frame : Frame) : List Nat :=
  Statement.listNumbers frame.before ++ (chainNumbers frame.chain ++
    (frame.opener.numbers ++ branchesNumbers frame.opener frame.second))

/-- The numbers given to nodes so far, those of open blocks and their branches included. -/
def State.numbers (state : State) : List Nat :=
  Statement.listNumbers state.body ++ state.frames.flatMap Frame.numbers

/-- The numbers in front of the next free one were all given away, the root's apart. -/
def State.Numbered (state : State) : Prop := Numbers 1 state.next state.numbers

theorem State.start_numbered : State.start.Numbered := .nil 1

theorem State.Numbered.add {state : State} (h : state.Numbered) {next : Nat} {s : Statement Extent}
    (given : Numbers state.next next s.numbers) : (state.add next s).Numbered := by
  refine (Numbers.append h given).perm ?_
  rw [State.numbers, State.add, Statement.listNumbers, List.append_assoc]
  exact List.perm_append_comm

theorem MakesCall.numbers {kind : TagKind} {make : Label Extent → Call Extent → Statement Extent}
    (makes : MakesCall kind make) (label : Label Extent) (call : Call Extent) :
    (make label call).numbers = label.id :: numbersOf (Expr.callNodes call) := by
  cases makes <;> rfl

theorem opener_numbered {text : Text} {placed : State.Placed} {next next' : Nat} {kind : OpenKind}
    {opener : Opener} (run : placed.opener text next kind = .ok (opener, next')) :
    Numbers next next' (opener.numbers ++ [opener.programId]) := by
  obtain ⟨read, called, run⟩ := bind_ok run
  obtain ⟨rfl, rfl⟩ := Prod.mk.inj (Except.ok.inj run)
  exact ((Numbers.single next).append (readCall_numbered called)).append (.single read.next)

theorem programNumbers_reverse (label : Label Extent) (body : List (Statement Extent))
    (blockParams : List Text) (chained : Bool) :
    (Statement.programNumbers ⟨label, body.reverse, blockParams, chained⟩).Perm
      (label.id :: Statement.listNumbers body) :=
  (Statement.listNumbers_reverse body).cons _

theorem branches_numbers (frame : Frame) (body : List (Statement Extent)) (stop : Nat) :
    (Statement.programNumbers (State.branches frame body stop).1 ++
        Statement.branchNumbers (State.branches frame body stop).2).Perm
      (branchesNumbers frame.opener frame.second ++ Statement.listNumbers body) := by
  cases isSecond : frame.second with
  | none =>
    rw [State.branches_of_none isSecond, Statement.branchNumbers, List.append_nil]
    exact programNumbers_reverse _ body _ _
  | some second =>
    rw [State.branches_of_some isSecond, branchesNumbers, List.append_assoc]
    exact (programNumbers_reverse _ body [] false).append_left _

/-- Closing a chain gives one number to every branch that holds a nested block. -/
theorem closeChain_numbers {stop : Nat} {chain : List (Opener × Program Extent)} {opener : Opener}
    {first : Program Extent} {second : Option (Program Extent)} {next : Nat} {outer : Opener}
    {first' : Program Extent} {second' : Option (Program Extent)} {next' : Nat}
    (closed : State.closeChain stop opener first second next chain = (outer, first', second', next')) :
    ∃ given, Numbers next next' given ∧
      (outer.numbers ++ (Statement.programNumbers first' ++ Statement.branchNumbers second')).Perm
        (given ++ (chainNumbers chain ++ (opener.numbers ++
          (Statement.programNumbers first ++ Statement.branchNumbers second)))) := by
  induction chain generalizing opener first second next with
  | nil =>
    obtain ⟨rfl, rfl, rfl, rfl⟩ : opener = outer ∧ first = first' ∧ second = second' ∧ next = next' := by
      simpa [State.closeChain] using closed
    exact ⟨[], .nil next, .refl _⟩
  | cons link rest ih =>
    obtain ⟨around, aroundFirst⟩ := link
    obtain ⟨given, numbered, same⟩ := ih closed
    refine ⟨next :: given, (Numbers.single next).append numbered, same.trans ?_⟩
    rw [List.perm_iff_count]
    intro n
    simp only [Statement.branchNumbers, Statement.programNumbers, Statement.listNumbers,
      Statement.numbers, State.blockOf, chainNumbers, Opener.numbers, List.flatMap_cons,
      List.count_append, List.count_cons, List.append_nil]
    omega

theorem Closes.numbers {opener : Opener} {stop : Nat} {first : Program Extent}
    {second : Option (Program Extent)} {s : Statement Extent} (h : Closes opener stop first second s) :
    s.numbers =
      opener.numbers ++ (Statement.programNumbers first ++ Statement.branchNumbers second) := by
  cases h <;> simp [State.blockOf, Statement.numbers, Opener.numbers, Statement.branchNumbers]

/-- Taking a tag gives its numbers to the nodes that it adds. -/
theorem State.Takes.numbered {text : Text} {placed : State.Placed} {state result : State}
    (step : state.Takes text placed result) (h : state.Numbered) : result.Numbered := by
  cases step with
  | comment kind => exact h.add (.single state.next)
  | call makes called =>
    apply h.add
    rw [makes.numbers]
    exact (Numbers.single state.next).append (readCall_numbered called)
  | opens kind opened =>
    refine (Numbers.append h (opener_numbered opened)).perm ?_
    rw [List.perm_iff_count]
    intro n
    simp only [State.numbers, Frame.numbers, chainNumbers, branchesNumbers, Statement.listNumbers,
      List.flatMap_nil, List.flatMap_cons, List.count_append, List.count_nil]
    omega
  | @chains frame frames opener next kind isOpen noSecond opened =>
    have first := programNumbers_reverse ⟨frame.opener.programId, ⟨frame.opener.extent.stop, placed.start⟩⟩
      state.body frame.opener.blockParams false
    refine (Numbers.append h (opener_numbered opened)).perm ?_
    rw [List.perm_iff_count] at first ⊢
    intro n
    have first := first n
    simp only [List.count_cons] at first
    simp only [State.numbers, isOpen, Frame.numbers, noSecond, branchesNumbers, chainNumbers,
      State.firstBranch, Statement.listNumbers, List.flatMap_cons, List.count_append, List.count_nil,
      List.count_cons, first]
    omega
  | @separates stop frame frames kind notClose isOpen noSecond =>
    have first := programNumbers_reverse ⟨frame.opener.programId, ⟨frame.opener.extent.stop, placed.start⟩⟩
      state.body frame.opener.blockParams false
    refine (Numbers.append h (.single state.next)).perm ?_
    rw [List.perm_iff_count] at first ⊢
    intro n
    have first := first n
    simp only [List.count_cons] at first
    simp only [State.numbers, isOpen, Frame.numbers, noSecond, branchesNumbers, State.firstBranch,
      Statement.listNumbers, List.flatMap_cons, List.count_append, List.count_nil, List.count_cons, first]
    omega
  | @closes frame frames opener first second next s kind isOpen chain closes =>
    obtain ⟨given, numbered, same⟩ := closeChain_numbers chain
    have branches := branches_numbers frame state.body placed.start
    refine (Numbers.append h numbered).perm ?_
    rw [List.perm_iff_count] at same branches ⊢
    intro n
    have same := same n
    have branches := branches n
    simp only [List.count_append] at same branches
    simp only [State.numbers, isOpen, Frame.numbers, Statement.listNumbers, closes.numbers,
      List.flatMap_cons, List.count_append]
    omega

theorem State.numbered_invariant (text : Text) : Invariant text State.Numbered where
  start := State.start_numbered
  content {front written value _ state} _ _ _ h := by
    have added : (state.add (state.next + 1) (.content ⟨state.next, ⟨front.length, front.length + written.length⟩⟩
      value written)).Numbered := h.add (.single state.next)
    exact added
  tag _ _ _ h step := by
    have taken := step.numbered h
    exact taken

/-- The nodes of a tree have the numbers that the parser has given away when it ends, each once. -/
theorem parse_numbers {text : Text} {tree : Program Extent} (parsed : parse text = .ok tree) :
    ∃ state, (pieces text).pieces.foldlM (State.take text) State.start = .ok state ∧
      Numbers 0 state.next (Statement.programNumbers tree) := by
  obtain ⟨state, run, numbered, -, closed, rfl⟩ := (State.numbered_invariant text).of_parse parsed
  refine ⟨state, run, ((Numbers.single 0).append numbered).perm ?_⟩
  rw [State.numbers, closed, List.flatMap_nil, List.append_nil]
  exact programNumbers_reverse _ state.body _ _

/-! ### Nodes in the order of visits -/

section MapRange

variable {ρ σ : Type} (f : ρ → σ)

mutual

theorem Expr.numbers_mapRange : ∀ e : Expr ρ, numbersOf (Expr.mapRange f e).nodes = numbersOf e.nodes
  | .path _ _ => rfl
  | .literal _ _ => rfl
  | .sub _ call => by
    simp only [Expr.mapRange, Expr.nodes, numbersOf_cons, Expr.callNumbers_mapCall call]
    rfl

theorem Expr.callNumbers_mapCall : ∀ call : CallOf ρ (Expr ρ),
    numbersOf (Expr.callNodes (Expr.mapCall f call)) = numbersOf (Expr.callNodes call)
  | ⟨callee, params, named⟩ => by
    simp only [Expr.mapCall, Expr.callNodes, numbersOf_append, Expr.numbers_mapRange callee,
      Expr.listNumbers_mapList params, Expr.namedNumbers_mapNamed named]

theorem Expr.listNumbers_mapList : ∀ list : List (Expr ρ),
    numbersOf (Expr.listNodes (Expr.mapList f list)) = numbersOf (Expr.listNodes list)
  | [] => rfl
  | e :: rest => by
    simp only [Expr.mapList, Expr.listNodes, numbersOf_append, Expr.numbers_mapRange e,
      Expr.listNumbers_mapList rest]

theorem Expr.namedNumbers_mapNamed : ∀ named : Option (NamedArgs ρ (Expr ρ)),
    numbersOf (Expr.namedNodes (Expr.mapNamed f named)) = numbersOf (Expr.namedNodes named)
  | none => rfl
  | some ⟨_, pairs⟩ => by
    simp only [Expr.mapNamed, Expr.namedNodes, numbersOf_cons, Expr.pairNumbers_mapPairs pairs]
    rfl

theorem Expr.pairNumbers_mapPairs : ∀ pairs : List (NamedArg ρ (Expr ρ)),
    numbersOf (Expr.pairNodes (Expr.mapPairs f pairs)) = numbersOf (Expr.pairNodes pairs)
  | [] => rfl
  | ⟨_, _, value⟩ :: rest => by
    simp only [Expr.mapPairs, Expr.pairNodes, numbersOf_cons, numbersOf_append,
      Expr.numbers_mapRange value, Expr.pairNumbers_mapPairs rest]
    rfl

end

mutual

theorem Statement.numbers_mapRange :
    ∀ s : Statement ρ, (Statement.mapRange f s).numbers = s.numbers
  | .content _ _ _ => rfl
  | .comment _ _ => rfl
  | .mustache _ call _ => by
    simp only [Statement.mapRange, Statement.numbers, Expr.callNumbers_mapCall]
    rfl
  | .partialCall _ call => by
    simp only [Statement.mapRange, Statement.numbers, Expr.callNumbers_mapCall]
    rfl
  | .decorator _ call => by
    simp only [Statement.mapRange, Statement.numbers, Expr.callNumbers_mapCall]
    rfl
  | .block _ call _ first second => by
    simp only [Statement.mapRange, Statement.numbers, Expr.callNumbers_mapCall,
      Statement.programNumbers_mapProgram first, Statement.branchNumbers_mapBranch second]
    rfl
  | .partialBlock _ call body => by
    simp only [Statement.mapRange, Statement.numbers, Expr.callNumbers_mapCall,
      Statement.programNumbers_mapProgram body]
    rfl
  | .decoratorBlock _ call body => by
    simp only [Statement.mapRange, Statement.numbers, Expr.callNumbers_mapCall,
      Statement.programNumbers_mapProgram body]
    rfl
  | .bare _ _ => rfl

theorem Statement.programNumbers_mapProgram : ∀ program : ProgramOf ρ (Statement ρ),
    Statement.programNumbers (Statement.mapProgram f program) = Statement.programNumbers program
  | ⟨_, body, _, _⟩ => by
    simp only [Statement.mapProgram, Statement.programNumbers, Statement.listNumbers_mapList body]
    rfl

theorem Statement.branchNumbers_mapBranch : ∀ second : Option (ProgramOf ρ (Statement ρ)),
    Statement.branchNumbers (Statement.mapBranch f second) = Statement.branchNumbers second
  | none => rfl
  | some branch => Statement.programNumbers_mapProgram branch

theorem Statement.listNumbers_mapList : ∀ body : List (Statement ρ),
    Statement.listNumbers (Statement.mapList f body) = Statement.listNumbers body
  | [] => rfl
  | s :: rest => by
    simp only [Statement.mapList, Statement.listNumbers, Statement.numbers_mapRange s,
      Statement.listNumbers_mapList rest]

end

end MapRange

/-- Branches are visited in the order in which they start. -/
theorem branchesInOrder_perm {β : Type} (start : β → Position) (inverted : Bool) (first : β)
    (second : Option β) :
    (branchesInOrder start inverted first second).Perm (first :: second.toList) := by
  cases second with
  | none => cases inverted <;> exact .refl _
  | some branch =>
    cases inverted with
    | false =>
      show (if start branch < start first then [branch, first] else [first, branch]).Perm _
      split
      · exact .swap _ _ _
      · exact .refl _
    | true =>
      show (if start first < start branch then [first, branch] else [branch, first]).Perm _
      split
      · exact .refl _
      · exact .swap _ _ _

mutual

theorem Statement.nodes_numbers : ∀ s : Statement Span, (numbersOf s.nodes).Perm s.numbers
  | .content _ _ _ => .refl _
  | .comment _ _ => .refl _
  | .mustache _ _ _ => .refl _
  | .partialCall _ _ => .refl _
  | .decorator _ _ => .refl _
  | .block label call inverted first second => by
    have visited := ((branchesInOrder_perm Prod.fst inverted (first.start, Statement.programNodes first)
      (Statement.branchNodes second)).map Prod.snd).flatten.map fun node => node.label.id
    simp only [Statement.nodes, Statement.numbers, numbersOf_cons, numbersOf_append]
    refine List.Perm.cons _ (List.Perm.append_left _ (visited.trans ?_))
    have inFirst := Statement.programNodes_numbers first
    have inSecond := Statement.branchNodes_numbers second
    simpa [numbersOf] using inFirst.append inSecond
  | .partialBlock _ _ body => by
    simp only [Statement.nodes, Statement.numbers, numbersOf_cons, numbersOf_append]
    exact ((Statement.programNodes_numbers body).append_left _).cons _
  | .decoratorBlock _ _ body => by
    simp only [Statement.nodes, Statement.numbers, numbersOf_cons, numbersOf_append]
    exact ((Statement.programNodes_numbers body).append_left _).cons _
  | .bare _ _ => .refl _

theorem Statement.programNodes_numbers : ∀ program : ProgramOf Span (Statement Span),
    (numbersOf (Statement.programNodes program)).Perm (Statement.programNumbers program)
  | ⟨_, body, _, _⟩ => (Statement.listNodes_numbers body).cons _

theorem Statement.branchNodes_numbers : ∀ second : Option (ProgramOf Span (Statement Span)),
    (numbersOf ((Statement.branchNodes second).toList.map Prod.snd).flatten).Perm
      (Statement.branchNumbers second)
  | none => .refl _
  | some branch => by
    simpa [Statement.branchNodes, Statement.branchNumbers] using Statement.programNodes_numbers branch

theorem Statement.listNodes_numbers : ∀ body : List (Statement Span),
    (numbersOf (Statement.listNodes body)).Perm (Statement.listNumbers body)
  | [] => .refl _
  | s :: rest => by
    simp only [Statement.listNodes, Statement.listNumbers, numbersOf_append]
    exact (Statement.nodes_numbers s).append (Statement.listNodes_numbers rest)

end

/-- The nodes that a walk meets have the numbers that the parser has given away, each once. -/
theorem nodes_numbers {text : Text} {tree : Program Extent} (parsed : parse text = .ok tree) :
    ∃ state, (pieces text).pieces.foldlM (State.take text) State.start = .ok state ∧
      Numbers 0 state.next (numbersOf (tree.mapRange text.span).nodes) := by
  obtain ⟨state, run, numbers⟩ := parse_numbers parsed
  refine ⟨state, run, numbers.perm ((Statement.programNodes_numbers _).trans ?_)⟩
  rw [ProgramOf.mapRange, Statement.programNumbers_mapProgram]

end Phrasebook.Template
