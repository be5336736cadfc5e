import Phrasebook.Proofs.Extract.Recorded

/-!
Why an analysis stops. A template without reserved characters and without nodes that cannot be
analysed stops for one of three reasons only: a block whose branches start at the same place, a
numeric reference with too many digits, or markup that is refused.
-/

namespace Phrasebook.Extract

open Template Mask Markup Text

/-! ### Kinds of nodes -/

theorem mem_branchesInOrder {β : Type} {start : β → Position} {inverted : Bool} {first branch : β}
    {second : Option β} (member : branch ∈ branchesInOrder start inverted first second) :
    branch = first ∨ second = some branch := by
  cases second with
  | none =>
    cases inverted <;> exact .inl (by simpa [branchesInOrder, positiveBranch, negativeBranch] using member)
  | some other =>
    have either : branch = first ∨ branch = other := by
      cases inverted with
      | false =>
        have listed : branch ∈ if start other < start first then [other, first] else [first, other] :=
          member
        split at listed
        · simpa [or_comm] using listed
        · simpa using listed
      | true =>
        have listed : branch ∈ if start first < start other then [first, other] else [other, first] :=
          member
        split at listed
        · simpa using listed
        · simpa [or_comm] using listed
    exact either.imp_right fun same => congrArg _ same.symm

theorem mem_nodes_block {label : Label Span} {call : Call Span} {inverted : Bool} {first : Program Span}
    {second : Option (Program Span)} {node : Node Span}
    (member : node ∈ Statement.nodes (.block label call inverted first second)) :
    node = .statement (.block label call inverted first second) ∨ node ∈ Expr.callNodes call ∨
      node ∈ Statement.programNodes first ∨
      ∃ branch, second = some branch ∧ node ∈ Statement.programNodes branch := by
  rw [Statement.nodes] at member
  rcases List.mem_cons.mp member with same | below
  · exact .inl same
  rcases List.mem_append.mp below with inCall | inBranch
  · exact .inr (.inl inCall)
  obtain ⟨nodes, listed, inNodes⟩ := List.mem_flatten.mp inBranch
  obtain ⟨branch, isBranch, rfl⟩ := List.mem_map.mp listed
  rcases mem_branchesInOrder isBranch with rfl | isSecond
  · exact .inr (.inr (.inl inNodes))
  · cases second with
    | none => simp [Statement.branchNodes] at isSecond
    | some program =>
      obtain rfl := Option.some.inj isSecond
      exact .inr (.inr (.inr ⟨program, rfl, inNodes⟩))

theorem isOperand_known {node : Node Span} (operand : isOperand node = true) :
    node.kind.isKnown = true := by
  rcases node with p | s | e | n | p
  · simp [isOperand] at operand
  · simp [isOperand] at operand
  · rcases e with ⟨label, p⟩ | ⟨label, value⟩ | ⟨label, call⟩
    · rfl
    · cases value <;> rfl
    · rfl
  · rfl
  · rfl

/-- What a node of a tiled tree is: a part of a call, a program that tiles its range, or a statement that
does. -/
inductive TiledNode (text : Text) : Node Span → Prop where
  | operand {node : Node Span} (h : isOperand node = true) : TiledNode text node
  | program {program : Program Extent} (h : Statement.ProgramTiled text program) :
    TiledNode text (.program (Statement.mapProgram text.span program))
  | statement {s : Statement Extent} {chained : Bool} (h : s.Tiled text chained) :
    TiledNode text (.statement (s.mapRange text.span))

theorem call_tiledNodes (text : Text) (call : Call Extent) :
    ∀ node ∈ Expr.callNodes (Expr.mapCall text.span call), TiledNode text node :=
  fun _ member => .operand (callNodes_mapCall member).1

mutual

theorem statement_tiledNodes {text : Text} {chained : Bool} :
    ∀ {s : Statement Extent}, s.Tiled text chained → ∀ node ∈ (s.mapRange text.span).nodes, TiledNode text node
  | .content _ _ _, h => List.forall_mem_singleton.mpr (.statement h)
  | .comment _ _, h => List.forall_mem_singleton.mpr (.statement h)
  | .mustache _ call _, h => List.forall_mem_cons.mpr ⟨.statement h, call_tiledNodes text call⟩
  | .partialCall _ call, h => List.forall_mem_cons.mpr ⟨.statement h, call_tiledNodes text call⟩
  | .decorator _ call, h => List.forall_mem_cons.mpr ⟨.statement h, call_tiledNodes text call⟩
  | .partialBlock _ call body, h =>
    List.forall_mem_cons.mpr ⟨.statement h, List.forall_mem_append.mpr
      ⟨call_tiledNodes text call, program_tiledNodes h.2.2.2.1⟩⟩
  | .decoratorBlock _ call body, h =>
    List.forall_mem_cons.mpr ⟨.statement h, List.forall_mem_append.mpr
      ⟨call_tiledNodes text call, program_tiledNodes h.2.2.2.1⟩⟩
  | .block label call inverted first none, h => by
    intro node member
    rcases mem_nodes_block member with rfl | inCall | inFirst | ⟨branch, wrong, -⟩
    · exact .statement h
    · exact call_tiledNodes text call node inCall
    · exact program_tiledNodes h.2.2.2.1 node inFirst
    · simp [Statement.mapBranch] at wrong
  | .block label call inverted first (some second), h => by
    intro node member
    rcases mem_nodes_block member with rfl | inCall | inFirst | ⟨branch, isSecond, inSecond⟩
    · exact .statement h
    · exact call_tiledNodes text call node inCall
    · exact program_tiledNodes h.2.2.2.1 node inFirst
    · obtain rfl := Option.some.inj isSecond
      exact program_tiledNodes h.2.2.2.2.2.1 node inSecond
  | .bare _ _, h => h.elim

theorem program_tiledNodes {text : Text} :
    ∀ {program : Program Extent}, Statement.ProgramTiled text program →
      ∀ node ∈ Statement.programNodes (Statement.mapProgram text.span program), TiledNode text node
  | ⟨_, _, _, _⟩, h => List.forall_mem_cons.mpr ⟨.program h, list_tiledNodes h.2.2.2.2⟩

theorem list_tiledNodes {text : Text} {chained : Bool} :
    ∀ {body : List (Statement Extent)}, Statement.ListTiled text chained body →
      ∀ node ∈ Statement.listNodes (Statement.mapList text.span body), TiledNode text node
  | [], _ => by simp [Statement.mapList, Statement.listNodes]
  | _ :: _, h => List.forall_mem_append.mpr ⟨statement_tiledNodes h.1, list_tiledNodes h.2⟩

end

/-- All nodes of a tiled tree are of kinds that parsers make. -/
theorem program_known {text : Text} {program : Program Extent} (tiled : Statement.ProgramTiled text program) :
    ∀ node ∈ Statement.programNodes (Statement.mapProgram text.span program), node.kind.isKnown = true := by
  intro node member
  cases program_tiledNodes tiled node member with
  | operand operand => exact isOperand_known operand
  | program _ => rfl
  | @statement s _ h =>
    cases s with
    | bare => exact h.elim
    | _ => rfl

/-! ### Endings -/

theorem walk_texts (subject : Subject) {nodes : List (Node Span)}
    (known : ∀ node ∈ nodes, node.kind.isKnown = true) (masking : Masking) (visits : Visits)
    (findings : Findings) :
    nodes.foldlM (Walk.visit subject) ⟨[.texts masking], visits, findings⟩ =
      visitAll subject.source masking nodes >>= fun masking =>
        .ok ⟨[.texts masking], visits, findings⟩ := by
  induction nodes generalizing masking with
  | nil => rfl
  | cons node rest ih =>
    obtain ⟨here, later⟩ := List.forall_mem_cons.mp known
    rw [List.foldlM_cons, visitAll, List.foldlM_cons, Walk.visit, if_pos here]
    simp only [meetAll, Visitor.meet]
    cases masking.visit subject.source node with
    | error fault => rfl
    | ok next => exact ih later next

theorem start_ordinary {source : String} {text : Text} (ordinary : ∀ c ∈ text, isReserved c = false) :
    Masking.start source text = .ok ⟨text.lines, ⟨0, 0⟩⟩ := by
  rw [Masking.start, (rejectReserved_ok_iff source text).mpr ordinary]

/-- A numeric reference of a masked template has too many digits: one in an attribute, or one in a
text. -/
def LongReference (text : Text) (tiles : List Tile) : Prop :=
  (∃ digits, textRuns (maskedTiles text tiles) = .error (.longReference digits)) ∨
    ∃ runs, textRuns (maskedTiles text tiles) = .ok runs ∧ ∃ extent ∈ textExtents runs,
      ∃ long, unescape (text.slice extent.start extent.stop) = .error long

/-- Recording ranges ends with all of them, or at one with a reference that is too long. -/
theorem records_end (source : String) (text : Text) (texts : Texts) (extents : List Extent) :
    (∃ found, extents.foldlM (recordAt source text) texts = .ok found) ∧
        (∀ extent ∈ extents, ∃ key, unescape (text.slice extent.start extent.stop) = .ok key) ∨
      (∃ digits, extents.foldlM (recordAt source text) texts = .error (.longReference digits)) ∧
        ∃ extent ∈ extents, ∃ long, unescape (text.slice extent.start extent.stop) = .error long := by
  induction extents generalizing texts with
  | nil => exact .inl ⟨⟨texts, rfl⟩, by simp⟩
  | cons extent rest ih =>
    rw [List.foldlM_cons]
    cases read : unescape (text.slice extent.start extent.stop) with
    | error long =>
      refine .inr ⟨⟨long.digits, ?_⟩, extent, List.mem_cons_self, long, read⟩
      rw [recordAt, read]
      rfl
    | ok key =>
      have step : recordAt source text texts extent =
          .ok (texts.add key [⟨source, text.span extent⟩]) := by rw [recordAt, read]
      rw [step]
      rcases ih (texts.add key [⟨source, text.span extent⟩]) with
        ⟨found, keyed⟩ | ⟨stopped, other, member, long⟩
      · exact .inl ⟨found, List.forall_mem_cons.mpr ⟨⟨key, read⟩, keyed⟩⟩
      · exact .inr ⟨stopped, other, List.mem_cons_of_mem _ member, long⟩

/-- Reading a masked template ends with all of its texts, at a reference that is too long, or at
markup that is refused. -/
theorem readTexts_ends (source : String) {text : Text} {tiles : List Tile} (texts : Texts)
    (ordinary : ∀ c ∈ text, isReserved c = false) (h : TilesFrom text text.length 0 tiles) :
    (∃ found, readTexts source text.lines (maskedTiles text tiles).lines texts = .ok found) ∧
        ¬LongReference text tiles ∨
      (∃ digits, readTexts source text.lines (maskedTiles text tiles).lines texts =
        .error (.longReference digits)) ∧ LongReference text tiles ∨
      readTexts source text.lines (maskedTiles text tiles).lines texts = .error .refused ∧
        ¬LongReference text tiles := by
  rw [readTexts_eq source texts ordinary h]
  cases split : textRuns (maskedTiles text tiles) with
  | error refusal =>
    cases refusal with
    | badDeclaration => exact .inr (.inr ⟨rfl, by simp [LongReference, split]⟩)
    | longReference digits => exact .inr (.inl ⟨⟨digits, rfl⟩, .inl ⟨digits, split⟩⟩)
  | ok runs =>
    rcases records_end source text texts (textExtents runs) with
      ⟨recorded, keyed⟩ | ⟨stopped, long⟩
    · refine .inl ⟨recorded, ?_⟩
      rintro (⟨digits, wrong⟩ | ⟨others, same, extent, member, long, wrong⟩)
      · simp [split] at wrong
      · obtain rfl := Except.ok.inj (split.symm.trans same)
        obtain ⟨key, isKey⟩ := keyed extent member
        simp [isKey] at wrong
    · exact .inr (.inl ⟨stopped, .inr ⟨runs, split, long⟩⟩)

theorem over_texts {source : String} {text helper : Text} {tree : Program Extent}
    (tiled : tree.Tiled text) (ordinary : ∀ c ∈ text, isReserved c = false) :
    Walk.over ⟨source, text, helper⟩ [.texts] (tree.mapRange text.span) =
      visitAll source ⟨text.lines, ⟨0, 0⟩⟩ (tree.mapRange text.span).nodes >>= fun masking =>
        .ok ⟨[.texts masking], [], .empty⟩ := by
  rw [Walk.over, List.mapM_cons, List.mapM_nil, Visitor.start, start_ordinary ordinary]
  exact walk_texts ⟨source, text, helper⟩ (program_known tiled) ⟨text.lines, ⟨0, 0⟩⟩ [] .empty

/-- How an analysis of texts ends. -/
inductive Ending (source : String) (text : Text) (tiles : List Tile) (nodes : List (Node Span)) :
    Except Fault (Findings × Visits) → Prop where
  | clash {node : Node Span} (member : node ∈ nodes) (clash : Clashes node) (width : Int)
      (place : Position) :
      Ending source text tiles nodes
        (.error (.violation ⟨.markerWidth width, .ofPosition (some source) place⟩))
  | refused (apart : ∀ node ∈ nodes, ¬Clashes node) (short : ¬LongReference text tiles) :
      Ending source text tiles nodes (.error .refused)
  | long (apart : ∀ node ∈ nodes, ¬Clashes node) (long : LongReference text tiles) (digits : Nat) :
      Ending source text tiles nodes (.error (.longReference digits))
  | recorded (apart : ∀ node ∈ nodes, ¬Clashes node) (short : ¬LongReference text tiles)
      (found : Findings × Visits) : Ending source text tiles nodes (.ok found)

theorem analyse_ends {source : String} {text helper : Text} {tree : Program Extent}
    (parsed : parse text = .ok tree) (ordinary : ∀ c ∈ text, isReserved c = false)
    (supported : ∀ node ∈ (tree.mapRange text.span).nodes, ¬Unsupported node) :
    Ending source text tree.tiles (tree.mapRange text.span).nodes
      (analyseTemplate ⟨source, text, tree.mapRange text.span⟩ helper [.texts]).result := by
  obtain ⟨tiled, range, -⟩ := parse_tiled parsed
  have run := tree_run source tiled range
  rw [analyseTemplate, analyse]
  simp only [over_texts tiled ordinary]
  generalize visitAll source ⟨text.lines, ⟨0, 0⟩⟩ (tree.mapRange text.span).nodes = result at run
  cases run with
  | stopped member stops =>
    -- A marker failed on a clash only; a node that cannot be analysed is excluded.
    cases stops with
    | clash h width place => exact .clash member h width place
    | unsupported h => exact absurd h (supported _ member)
  | done reached maskable =>
    have apart : ∀ node ∈ (tree.mapRange text.span).nodes, ¬Clashes node :=
      fun node member => (maskable node member).1
    simp only [bind, Except.bind, finish, Findings.empty]
    rcases readTexts_ends source [] ordinary (parse_tilesFrom parsed) with
      ⟨⟨found, recorded⟩, short⟩ | ⟨⟨digits, stopped⟩, long⟩ | ⟨stopped, short⟩
    · rw [recorded]
      exact .recorded apart short _
    · rw [stopped]
      exact .long apart long digits
    · rw [stopped]
      exact .refused apart short

/-- Apart from refused markup an analysis of texts stops for two reasons: exactly if the tree has an
inverse block with an empty first branch and a chained second one, a marker does not fit; exactly if
it has none and a numeric reference has too many digits, the reference is too long. The places
recorded otherwise run forward. -/
theorem analyse_faults_exactly {source : String} {text helper : Text} {tree : Program Extent}
    (parsed : parse text = .ok tree) (ordinary : ∀ c ∈ text, isReserved c = false)
    (supported : ∀ node ∈ (tree.mapRange text.span).nodes, ¬Unsupported node) :
    let outcome := analyseTemplate ⟨source, text, tree.mapRange text.span⟩ helper [.texts]
    ((∃ width place, outcome.result = .error (.violation ⟨.markerWidth width, place⟩)) ↔
        ∃ node ∈ (tree.mapRange text.span).nodes, Clashes node) ∧
      ((∃ digits, outcome.result = .error (.longReference digits)) ↔
        (∀ node ∈ (tree.mapRange text.span).nodes, ¬Clashes node) ∧
          LongReference text tree.tiles) ∧
      (∀ fault, outcome.result = .error fault →
        (∃ width place, fault = .violation ⟨.markerWidth width, place⟩) ∨
          (∃ digits, fault = .longReference digits) ∨ fault = .refused) ∧
      ∀ findings visits, outcome.result = .ok (findings, visits) →
        ∀ place ∈ findings.texts.flatMap Prod.snd, place.span.start < place.span.stop := by
  intro outcome
  have ends : Ending source text tree.tiles (tree.mapRange text.span).nodes outcome.result :=
    analyse_ends parsed ordinary supported
  refine ⟨?_, ?_, ?_, ?_⟩
  · generalize outcome.result = result at ends
    cases ends with
    | clash member clash width place => exact iff_of_true ⟨width, _, rfl⟩ ⟨_, member, clash⟩
    | refused apart short => exact iff_of_false (by simp) fun ⟨node, member, h⟩ => apart node member h
    | long apart long digits => exact iff_of_false (by simp) fun ⟨node, member, h⟩ => apart node member h
    | recorded apart short found =>
      exact iff_of_false (by simp) fun ⟨node, member, h⟩ => apart node member h
  · generalize outcome.result = result at ends
    cases ends with
    | clash member clash width place =>
      exact iff_of_false (by simp) fun h => h.1 _ member clash
    | refused apart short => exact iff_of_false (by simp) fun h => short h.2
    | long apart long digits => exact iff_of_true ⟨digits, rfl⟩ ⟨apart, long⟩
    | recorded apart short found => exact iff_of_false (by simp) fun h => short h.2
  · intro fault stopped
    rw [stopped] at ends
    cases ends with
    | clash member clash width place => exact .inl ⟨width, _, rfl⟩
    | refused apart short => exact .inr (.inr rfl)
    | long apart long digits => exact .inr (.inl ⟨digits, rfl⟩)
  · intro findings visits done place member
    obtain ⟨-, -, runs, read, recorded⟩ := analyse_recorded parsed (by decide) done
    obtain ⟨⟨key, places⟩, isEntry, isPlace⟩ := List.mem_flatMap.mp member
    simp only [recorded.entry isEntry] at isPlace
    obtain ⟨extent, inRanges, rfl⟩ := List.mem_map.mp isPlace
    have forward := (textExtents_content ordinary (parse_tilesFrom parsed) read
      (mem_rangesOf.mp inRanges).1).1
    exact position_lt forward

/-- An inverse block whose first branch is empty, in front of a chained one. -/
theorem analyse_faults_exactly_clash :
    ∃ (text : Text) (tree : Program Extent),
      text = tagged "^a" ++ tagged "else b" ++ ['x'] ++ tagged "/a" ∧ parse text = .ok tree ∧
      (∀ c ∈ text, isReserved c = false) ∧
      (∀ node ∈ (tree.mapRange text.span).nodes, ¬Unsupported node) ∧
      (analyseTemplate ⟨"page", text, tree.mapRange text.span⟩ ['t'] [.texts]).result =
        .error (.violation ⟨.markerWidth (-11), .ofPosition (some "page") ⟨1, 17⟩⟩) ∧
      ∃ node ∈ (tree.mapRange text.span).nodes, Clashes node := by
  obtain ⟨text, same⟩ : ∃ text : Text,
      tagged "^a" ++ tagged "else b" ++ ['x'] ++ tagged "/a" = text := ⟨_, rfl⟩
  have runs : ((parse text).toOption.map fun tree =>
      ((tree.mapRange text.span).nodes.map Node.kind,
        match (analyseTemplate ⟨"page", text, tree.mapRange text.span⟩ ['t'] [.texts]).result with
        | .error fault => some fault
        | .ok _ => none)) =
      some ([.program, .block, .path, .program, .block, .path, .program, .content, .program],
        some (.violation ⟨.markerWidth (-11), .ofPosition (some "page") ⟨1, 17⟩⟩)) := by
    rw [← same]
    decide +kernel
  have ordinary : ∀ c ∈ text, isReserved c = false := by
    have unreserved : text.all (fun c => isReserved c = false) = true := by
      rw [← same]
      decide +kernel
    simpa using unreserved
  obtain ⟨tree, read, found⟩ := Option.map_eq_some_iff.mp runs
  have parsed := ok_of_toOption read
  obtain ⟨kinds, stopped⟩ := Prod.mk.inj found
  have supported : ∀ node ∈ (tree.mapRange text.span).nodes, ¬Unsupported node := by
    intro node member h
    have listed : node.kind ∈ (tree.mapRange text.span).nodes.map Node.kind :=
      List.mem_map_of_mem member
    rw [kinds] at listed
    rcases h with kind | kind | kind <;> simp [kind] at listed
  have result : (analyseTemplate ⟨"page", text, tree.mapRange text.span⟩ ['t'] [.texts]).result =
      .error (.violation ⟨.markerWidth (-11), .ofPosition (some "page") ⟨1, 17⟩⟩) := by
    split at stopped
    · next fault isFault => rw [isFault, Option.some.inj stopped]
    · simp at stopped
  exact ⟨text, tree, same.symm, parsed, ordinary, supported, result,
    (analyse_faults_exactly parsed ordinary supported).1.mp ⟨_, _, result⟩⟩

end Phrasebook.Extract
