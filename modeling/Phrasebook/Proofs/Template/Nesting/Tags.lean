import Phrasebook.Proofs.Template.Steps

/-!
The calls of the tags of a tree. Every call was read from the tag in front of whose place it is listed, so what
is known of all calls that can be read from the tags of a text holds of the calls of its tree. It is an
invariant of the run, open blocks included.
-/

namespace Phrasebook.Template

/-! ### The calls of tags -/

mutual

/-- The calls of the tags of a statement, each with the offset at which its tag starts. -/
def Statement.tagCalls : Statement Extent → List (Nat × Call Extent)
  | .content _ _ _ => []
  | .comment _ _ => []
  | .mustache label call _ => [(label.range.start, call)]
  | .partialCall label call => [(label.range.start, call)]
  | .decorator label call => [(label.range.start, call)]
  | .block label call _ first second =>
    (label.range.start, call) :: (Statement.programTagCalls first ++ Statement.branchTagCalls second)
  | .partialBlock label call body => (label.range.start, call) :: Statement.programTagCalls body
  | .decoratorBlock label call body => (label.range.start, call) :: Statement.programTagCalls body
  | .bare _ _ => []

/-- The calls of the tags of a program. -/
def Statement.programTagCalls : ProgramOf Extent (Statement Extent) → List (Nat × Call Extent)
  | ⟨_, body, _, _⟩ => Statement.listTagCalls body

/-- The calls of the tags of an optional branch. -/
def Statement.branchTagCalls : Option (ProgramOf Extent (Statement Extent)) → List (Nat × Call Extent)
  | none => []
  | some branch => Statement.programTagCalls branch

/-- The calls of the tags of several statements. -/
def Statement.listTagCalls : List (Statement Extent) → List (Nat × Call Extent)
  | [] => []
  | s :: rest => s.tagCalls ++ Statement.listTagCalls rest

end

theorem mem_listTagCalls {body : List (Statement Extent)} {x : Nat × Call Extent} :
    x ∈ Statement.listTagCalls body ↔ ∃ s ∈ body, x ∈ s.tagCalls := by
  induction body with
  | nil => simp [Statement.listTagCalls]
  | cons s rest ih => simp [Statement.listTagCalls, ih]

theorem programTagCalls_reverse {label : Label Extent} {body : List (Statement Extent)} {blockParams : List Text}
    {chained : Bool} {P : Nat × Call Extent → Prop} (every : ∀ x ∈ Statement.listTagCalls body, P x) :
    ∀ x ∈ Statement.programTagCalls ⟨label, body.reverse, blockParams, chained⟩, P x := by
  intro x member
  obtain ⟨s, isIn, inCall⟩ := mem_listTagCalls.mp member
  exact every x (mem_listTagCalls.mpr ⟨s, List.mem_reverse.mp isIn, inCall⟩)

def Opener.tagCall (opener : Opener) : Nat × Call Extent := (opener.extent.start, opener.call)

/-- The calls of the tags of the blocks around the innermost one and of their first branches. -/
def chainTagCalls (chain : List (Opener × Program Extent)) : List (Nat × Call Extent) :=
  chain.flatMap fun (opener, first) => opener.tagCall :: Statement.programTagCalls first

def Frame.tagCalls (frame : Frame) : List (Nat × Call Extent) :=
  Statement.listTagCalls frame.before ++ (chainTagCalls frame.chain ++
    (frame.opener.tagCall :: Statement.branchTagCalls (frame.second.map (·.first))))

/-- The calls of all tags that were taken so far. -/
def State.tagCalls (state : State) : List (Nat × Call Extent) :=
  Statement.listTagCalls state.body ++ state.frames.flatMap Frame.tagCalls

section Run

variable {P : Nat × Call Extent → Prop} {text : Text} {placed : State.Placed}

/-- Whatever is read from a tag at its place has a property. -/
def State.Placed.Yields (placed : State.Placed) (text : Text) (P : Nat × Call Extent → Prop) : Prop :=
  ∀ next allowParams read, placed.call text next allowParams = .ok read → P (placed.start, read.call)

theorem State.add_tagCalls {state : State} (next : Nat) {s : Statement Extent}
    (every : ∀ x ∈ state.tagCalls, P x) (here : ∀ x ∈ s.tagCalls, P x) :
    ∀ x ∈ (state.add next s).tagCalls, P x := by
  rw [State.tagCalls, List.forall_mem_append] at every ⊢
  exact ⟨List.forall_mem_append.mpr ⟨here, every.1⟩, every.2⟩

theorem MakesCall.tagCalls {kind : TagKind} {make : Label Extent → Call Extent → Statement Extent}
    (makes : MakesCall kind make) (label : Label Extent) (call : Call Extent) :
    (make label call).tagCalls = [(label.range.start, call)] := by
  cases makes <;> rfl

theorem Placed.opener_tagCall {next next' : Nat} {kind : OpenKind} {opener : Opener}
    (run : placed.opener text next kind = .ok (opener, next')) (yields : placed.Yields text P) :
    P opener.tagCall := by
  obtain ⟨read, called, run⟩ := bind_ok run
  obtain ⟨rfl, -⟩ := Prod.mk.inj (Except.ok.inj run)
  exact yields _ _ _ called

theorem branches_tagCalls {frame : Frame} {body : List (Statement Extent)} (stop : Nat)
    (second : ∀ x ∈ Statement.branchTagCalls (frame.second.map (·.first)), P x)
    (inBody : ∀ x ∈ Statement.listTagCalls body, P x) :
    (∀ x ∈ Statement.programTagCalls (State.branches frame body stop).1, P x) ∧
      ∀ x ∈ Statement.branchTagCalls (State.branches frame body stop).2, P x := by
  cases isSecond : frame.second with
  | none =>
    rw [State.branches_of_none isSecond]
    exact ⟨programTagCalls_reverse inBody, List.forall_mem_nil _⟩
  | some branch =>
    rw [isSecond] at second
    rw [State.branches_of_some isSecond, Statement.branchTagCalls]
    exact ⟨second, programTagCalls_reverse inBody⟩

theorem closeChain_tagCalls {stop : Nat} {chain : List (Opener × Program Extent)} {opener outer : Opener}
    {first first' : Program Extent} {second second' : Option (Program Extent)} {next next' : Nat}
    (closed : State.closeChain stop opener first second next chain = (outer, first', second', next'))
    (inChain : ∀ x ∈ chainTagCalls chain, P x) (here : P opener.tagCall)
    (inFirst : ∀ x ∈ Statement.programTagCalls first, P x)
    (inSecond : ∀ x ∈ Statement.branchTagCalls second, P x) :
    P outer.tagCall ∧ (∀ x ∈ Statement.programTagCalls first', P x) ∧
      ∀ x ∈ Statement.branchTagCalls second', P x := by
  induction chain generalizing opener first second next with
  | nil =>
    obtain ⟨rfl, rfl, rfl, rfl⟩ : opener = outer ∧ first = first' ∧ second = second' ∧ next = next' := by
      simpa [State.closeChain] using closed
    exact ⟨here, inFirst, inSecond⟩
  | cons link rest ih =>
    obtain ⟨around, aroundFirst⟩ := link
    rw [chainTagCalls, List.flatMap_cons, List.forall_mem_append, List.forall_mem_cons] at inChain
    obtain ⟨⟨atAround, inAround⟩, inRest⟩ := inChain
    refine ih closed inRest atAround inAround ?_
    simp only [Statement.branchTagCalls, Statement.programTagCalls, Statement.listTagCalls, State.blockOf,
      Statement.tagCalls, List.append_nil, List.forall_mem_cons, List.forall_mem_append]
    exact ⟨here, inFirst, inSecond⟩

theorem Closes.tagCalls {opener : Opener} {stop : Nat} {first : Program Extent}
    {second : Option (Program Extent)} {s : Statement Extent} (h : Closes opener stop first second s) :
    s.tagCalls = opener.tagCall :: (Statement.programTagCalls first ++ Statement.branchTagCalls second) := by
  cases h <;> simp [State.blockOf, Statement.tagCalls, Opener.tagCall, Statement.branchTagCalls]

theorem State.Takes.tagCalls {state result : State} (step : state.Takes text placed result)
    (yields : placed.Yields text P) (every : ∀ x ∈ state.tagCalls, P x) : ∀ x ∈ result.tagCalls, P x := by
  cases step with
  | comment kind => exact State.add_tagCalls _ every (List.forall_mem_nil _)
  | call makes called =>
    refine State.add_tagCalls _ every ?_
    rw [makes.tagCalls, List.forall_mem_singleton]
    exact yields _ _ _ called
  | opens kind opened =>
    have here := Placed.opener_tagCall opened yields
    rw [State.tagCalls, List.forall_mem_append] at every
    simp only [State.tagCalls, Frame.tagCalls, chainTagCalls, Statement.listTagCalls, Statement.branchTagCalls,
      List.flatMap_cons, List.flatMap_nil, List.nil_append, List.forall_mem_append, List.forall_mem_singleton,
      Option.map_none]
    exact ⟨⟨every.1, here⟩, every.2⟩
  | @chains frame frames opener next kind isOpen noSecond opened =>
    simp only [State.tagCalls, isOpen, Frame.tagCalls, List.flatMap_cons, List.forall_mem_append,
      List.forall_mem_cons] at every
    obtain ⟨inBody, ⟨before, inChain, here, -⟩, inFrames⟩ := every
    have opens := Placed.opener_tagCall opened yields
    have first : ∀ x ∈ Statement.programTagCalls (State.firstBranch frame.opener state.body placed.start), P x :=
      programTagCalls_reverse inBody
    simp only [State.tagCalls, Frame.tagCalls, Statement.listTagCalls, Statement.branchTagCalls,
      chainTagCalls, List.flatMap_cons, List.nil_append, List.forall_mem_append, List.forall_mem_cons,
      Option.map_none]
    exact ⟨⟨before, ⟨⟨here, first⟩, inChain⟩, opens, List.forall_mem_nil _⟩, inFrames⟩
  | @separates stop frame frames kind notClose isOpen noSecond =>
    simp only [State.tagCalls, isOpen, Frame.tagCalls, List.flatMap_cons, List.forall_mem_append,
      List.forall_mem_cons] at every
    obtain ⟨inBody, ⟨before, inChain, here, -⟩, inFrames⟩ := every
    have first : ∀ x ∈ Statement.programTagCalls (State.firstBranch frame.opener state.body placed.start), P x :=
      programTagCalls_reverse inBody
    simp only [State.tagCalls, Frame.tagCalls, Statement.listTagCalls, Statement.branchTagCalls,
      List.flatMap_cons, List.nil_append, List.forall_mem_append, List.forall_mem_cons, Option.map_some]
    exact ⟨⟨before, inChain, here, first⟩, inFrames⟩
  | closes kind isOpen chain closes =>
    simp only [State.tagCalls, isOpen, Frame.tagCalls, List.flatMap_cons, List.forall_mem_append,
      List.forall_mem_cons] at every
    obtain ⟨inBody, ⟨before, inChain, here, inSecond⟩, inFrames⟩ := every
    obtain ⟨first, second⟩ := branches_tagCalls placed.start inSecond inBody
    obtain ⟨opens, inFirst, inSecond⟩ := closeChain_tagCalls chain inChain here first second
    simp only [State.tagCalls, Statement.listTagCalls, closes.tagCalls, List.forall_mem_append, List.forall_mem_cons]
    exact ⟨⟨⟨opens, inFirst, inSecond⟩, before⟩, inFrames⟩

/-- Whatever can be read from a tag at its place holds of the calls of all tags that were taken. -/
theorem State.tagCalls_invariant
    (yields : ∀ front tag back, text = front ++ (tag.text ++ back) → ReadBefore back (.tag tag) →
      State.Placed.Yields ⟨tag, front.length⟩ text P) :
    Invariant text fun state => ∀ x ∈ state.tagCalls, P x where
  start := List.forall_mem_nil _
  content {front written value _ state} _ _ _ every := by
    have added : ∀ x ∈ (state.add (state.next + 1) (.content ⟨state.next, ⟨front.length, front.length +
      written.length⟩⟩ value written)).tagCalls, P x := State.add_tagCalls _ every (List.forall_mem_nil _)
    exact added
  tag parts read _ every step := by
    have taken := step.tagCalls (yields _ _ _ parts read) every
    exact taken

/-- What can be read from the tags of a text at their places holds of the calls of all tags of its tree. -/
theorem parse_tagCalls {tree : Program Extent} (parsed : parse text = .ok tree)
    (yields : ∀ front tag back, text = front ++ (tag.text ++ back) → ReadBefore back (.tag tag) →
      State.Placed.Yields ⟨tag, front.length⟩ text P) :
    ∀ x ∈ Statement.programTagCalls tree, P x := by
  obtain ⟨state, -, every, -, -, rfl⟩ := (State.tagCalls_invariant yields).of_parse parsed
  rw [State.tagCalls, List.forall_mem_append] at every
  exact programTagCalls_reverse every.1

end Run

end Phrasebook.Template
