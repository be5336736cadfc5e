import Phrasebook.Extract.Masking
import Phrasebook.Proofs.Mask.Cover
import Phrasebook.Proofs.Template.Tiling

/-!
Masking a tiled tree. Visiting the nodes of a tree writes one marker over every tag and leaves the
content as it is, whatever stands around the range of the tree; it stops only at a node that cannot
be analysed and at an inverse block that is empty up to a chained branch.
-/

namespace Phrasebook.Extract

open Template Mask Text

/-! ### Masked tiles -/

/-- The characters that masking leaves of a tile. -/
def maskedTile (text : Text) : Tile → Text
  | .content extent => text.slice extent.start extent.stop
  | .tag extent => cover (text.slice extent.start extent.stop)

/-- The characters that masking leaves of several tiles. -/
def maskedTiles (text : Text) (tiles : List Tile) : Text := tiles.flatMap (maskedTile text)

theorem maskedTiles_cons (text : Text) (tile : Tile) (rest : List Tile) :
    maskedTiles text (tile :: rest) = maskedTile text tile ++ maskedTiles text rest :=
  List.flatMap_cons

theorem maskedTiles_append (text : Text) (first second : List Tile) :
    maskedTiles text (first ++ second) = maskedTiles text first ++ maskedTiles text second :=
  List.flatMap_append

theorem maskedTiles_gapTiles (text : Text) (start stop : Nat) :
    maskedTiles text (gapTiles start stop) = cover (text.slice start stop) := by
  unfold gapTiles
  split
  · next same =>
    subst same
    rw [slice_self]
    rfl
  · simp [maskedTiles, maskedTile]

theorem sameLines_maskedTiles (text : Text) (tiles : List Tile) :
    SameLines (maskedTiles text tiles) (tilesText text tiles) := by
  induction tiles with
  | nil => exact .refl _
  | cons tile rest ih =>
    refine SameLines.append ?_ ih
    cases tile with
    | content extent => exact .refl _
    | tag extent => exact sameLines_cover _

/-! ### Nodes -/

/-- Whether a node stands for a part of a call. -/
def isOperand {ρ : Type} : Node ρ → Bool
  | .expr _ | .named _ | .pair _ => true
  | _ => false

mutual

/-- The nodes of a call with its ranges replaced are parts of calls and have the ranges of its own
nodes, replaced. -/
theorem callNodes_mapCall {ρ σ : Type} {f : ρ → σ} :
    ∀ {call : CallOf ρ (Expr ρ)} {node : Node σ}, node ∈ Expr.callNodes (Expr.mapCall f call) →
      isOperand node = true ∧ ∃ origin ∈ Expr.callNodes call, node.label = origin.label.map f
  | ⟨callee, params, named⟩, node, member => by
    simp only [Expr.mapCall, Expr.callNodes, List.mem_append] at member ⊢
    rcases member with (member | member) | member
    · obtain ⟨operand, origin, here, same⟩ := nodes_mapRange member
      exact ⟨operand, origin, .inl (.inl here), same⟩
    · obtain ⟨operand, origin, here, same⟩ := listNodes_mapList member
      exact ⟨operand, origin, .inl (.inr here), same⟩
    · obtain ⟨operand, origin, here, same⟩ := namedNodes_mapNamed member
      exact ⟨operand, origin, .inr here, same⟩

theorem nodes_mapRange {ρ σ : Type} {f : ρ → σ} :
    ∀ {e : Expr ρ} {node : Node σ}, node ∈ (Expr.mapRange f e).nodes →
      isOperand node = true ∧ ∃ origin ∈ e.nodes, node.label = origin.label.map f
  | .path label p, node, member => by
    obtain rfl : node = .expr (.path (label.map f) p) := by
      simpa [Expr.mapRange, Expr.nodes] using member
    exact ⟨rfl, .expr (.path label p), by simp [Expr.nodes], rfl⟩
  | .literal label value, node, member => by
    obtain rfl : node = .expr (.literal (label.map f) value) := by
      simpa [Expr.mapRange, Expr.nodes] using member
    exact ⟨rfl, .expr (.literal label value), by simp [Expr.nodes], rfl⟩
  | .sub label call, node, member => by
    simp only [Expr.mapRange, Expr.nodes, List.mem_cons] at member ⊢
    rcases member with rfl | member
    · exact ⟨rfl, .expr (.sub label call), .inl rfl, rfl⟩
    · obtain ⟨operand, origin, here, same⟩ := callNodes_mapCall member
      exact ⟨operand, origin, .inr here, same⟩

theorem listNodes_mapList {ρ σ : Type} {f : ρ → σ} :
    ∀ {es : List (Expr ρ)} {node : Node σ}, node ∈ Expr.listNodes (Expr.mapList f es) →
      isOperand node = true ∧ ∃ origin ∈ Expr.listNodes es, node.label = origin.label.map f
  | [], node, member => by simp [Expr.mapList, Expr.listNodes] at member
  | e :: rest, node, member => by
    simp only [Expr.mapList, Expr.listNodes, List.mem_append] at member ⊢
    rcases member with member | member
    · obtain ⟨operand, origin, here, same⟩ := nodes_mapRange member
      exact ⟨operand, origin, .inl here, same⟩
    · obtain ⟨operand, origin, here, same⟩ := listNodes_mapList member
      exact ⟨operand, origin, .inr here, same⟩

theorem namedNodes_mapNamed {ρ σ : Type} {f : ρ → σ} :
    ∀ {named : Option (NamedArgs ρ (Expr ρ))} {node : Node σ},
      node ∈ Expr.namedNodes (Expr.mapNamed f named) →
      isOperand node = true ∧ ∃ origin ∈ Expr.namedNodes named, node.label = origin.label.map f
  | none, node, member => by simp [Expr.mapNamed, Expr.namedNodes] at member
  | some ⟨label, pairs⟩, node, member => by
    simp only [Expr.mapNamed, Expr.namedNodes, List.mem_cons] at member ⊢
    rcases member with rfl | member
    · exact ⟨rfl, .named ⟨label, pairs⟩, .inl rfl, rfl⟩
    · obtain ⟨operand, origin, here, same⟩ := pairNodes_mapPairs member
      exact ⟨operand, origin, .inr here, same⟩

theorem pairNodes_mapPairs {ρ σ : Type} {f : ρ → σ} :
    ∀ {pairs : List (NamedArg ρ (Expr ρ))} {node : Node σ},
      node ∈ Expr.pairNodes (Expr.mapPairs f pairs) →
      isOperand node = true ∧ ∃ origin ∈ Expr.pairNodes pairs, node.label = origin.label.map f
  | [], node, member => by simp [Expr.mapPairs, Expr.pairNodes] at member
  | ⟨label, name, value⟩ :: rest, node, member => by
    simp only [Expr.mapPairs, Expr.pairNodes, List.mem_cons, List.mem_append] at member ⊢
    rcases member with rfl | member | member
    · exact ⟨rfl, .pair ⟨label, name, value⟩, .inl rfl, rfl⟩
    · obtain ⟨operand, origin, here, same⟩ := nodes_mapRange member
      exact ⟨operand, origin, .inr (.inl here), same⟩
    · obtain ⟨operand, origin, here, same⟩ := pairNodes_mapPairs member
      exact ⟨operand, origin, .inr (.inr here), same⟩

end

/-- An inverse block that is empty up to a chained branch. Both of its branches start at the same
place, and the second one counts as the first since it is the one for the positive case. -/
def Clashes {ρ : Type} : Node ρ → Prop
  | .statement (.block _ _ inverted first second) =>
    inverted = true ∧ first.body = [] ∧ ∃ branch, second = some branch ∧ branch.chained = true
  | _ => False

/-- The kinds of nodes that cannot be analysed. -/
def Unsupported {ρ : Type} (node : Node ρ) : Prop :=
  node.kind = .partialBlock ∨ node.kind = .decorator ∨ node.kind = .decoratorBlock

/-- Why masking stops at a node. -/
inductive Stops (source : String) (node : Node Span) : Fault → Prop where
  | clash (h : Clashes node) (width : Int) (place : Position) :
    Stops source node (.violation ⟨.markerWidth width, .ofPosition (some source) place⟩)
  | unsupported (h : Unsupported node) : Stops source node (unsupported source node)

theorem isOperand_maskable {node : Node Span} (operand : isOperand node = true) :
    ¬Clashes node ∧ ¬Unsupported node := by
  rcases node with p | s | e | n | p
  · simp [isOperand] at operand
  · simp [isOperand] at operand
  · refine ⟨id, ?_⟩
    rcases e with ⟨label, p⟩ | ⟨label, value⟩ | ⟨label, call⟩
    · simp [Unsupported, Node.kind]
    · cases value <;> simp [Unsupported, Node.kind]
    · simp [Unsupported, Node.kind]
  · exact ⟨id, by simp [Unsupported, Node.kind]⟩
  · exact ⟨id, by simp [Unsupported, Node.kind]⟩

theorem visit_operand {source : String} {masking : Masking} {node : Node Span}
    (operand : isOperand node = true) (inside : node.label.range.start < masking.maskedTo) :
    masking.visit source node = .ok masking := by
  rcases node with p | s | e | n | p
  · simp [isOperand] at operand
  · simp [isOperand] at operand
  · rcases e with ⟨label, p⟩ | ⟨label, value⟩ | ⟨label, call⟩
    · rfl
    · cases value <;> rfl
    · simp only [Masking.visit, Node.kind, Masking.tag]
      rw [if_pos inside]
  · rfl
  · rfl

/-! ### Marking gaps -/

/-- A range that can be marked: it is empty or has room for a marker. -/
structure Gap (text : Text) (start stop : Nat) : Prop where
  forward : start ≤ stop
  bounded : stop ≤ text.length
  room : start = stop ∨ 2 ≤ width (text.slice start stop)

theorem gap_of_tagAt {text : Text} {extent : Extent} {kind : TagKind} (h : TagAt text extent kind) :
    Gap text extent.start extent.stop := by
  refine ⟨Nat.le_of_lt h.forward, h.bounded, .inr ?_⟩
  obtain ⟨inner, braces⟩ := h.braces
  rw [braces, width_append, width_append]
  have opening : width ['{', '{'] = 2 := by decide
  omega

theorem gap_of_closeAt {text : Text} {chained : Bool} {extent : Extent}
    (h : CloseAt text chained extent) (start : extent.start ≤ text.length) :
    Gap text extent.start extent.stop := by
  unfold CloseAt at h
  split at h
  · exact ⟨Nat.le_of_eq h, h ▸ start, .inl h⟩
  · exact gap_of_tagAt h

theorem mark_gap {text before after : Text} {start stop : Nat} (source : Option String)
    (gap : Gap text start stop) (atStart : before.length = start)
    (same : SameLines (before ++ text.slice start stop ++ after) text) :
    mark source (before ++ text.slice start stop ++ after).lines (text.position start)
        (text.position stop) =
      .ok (before ++ cover (text.slice start stop) ++ after).lines := by
  rcases gap.room with empty | wide
  · subst empty
    rw [mark, if_pos rfl, slice_self]
    rfl
  · have atStop : stop = before.length + (text.slice start stop).length := by
      rw [length_slice text gap.bounded]
      have := gap.forward
      omega
    have marked := mark_parts source before after wide
    rw [same.position_eq, same.position_eq, ← atStop, atStart] at marked
    exact marked

/-- A branch of a block: its range, its nodes, and what masking leaves of it. -/
structure Branch where
  extent : Extent
  nodes : List (Node Span)
  region : Text

/-- The gaps around branches of a block from `cursor` up to `stop` can be marked. -/
def Gaps (text : Text) (stop : Nat) : Nat → List Branch → Prop
  | cursor, [] => Gap text cursor stop
  | cursor, branch :: rest =>
    Gap text cursor branch.extent.start ∧ branch.extent.start ≤ branch.extent.stop ∧
      branch.extent.stop ≤ text.length ∧ Gaps text stop branch.extent.stop rest

/-- A block from `cursor` up to `stop` with its gaps covered and `pick` in place of its branches. -/
def gapped (text : Text) (stop : Nat) (pick : Branch → Text) : Nat → List Branch → Text
  | cursor, [] => cover (text.slice cursor stop)
  | cursor, branch :: rest =>
    cover (text.slice cursor branch.extent.start) ++ pick branch ++
      gapped text stop pick branch.extent.stop rest

/-- The text of a branch. -/
def Branch.text (text : Text) (branch : Branch) : Text :=
  text.slice branch.extent.start branch.extent.stop

theorem Gaps.forward {text : Text} {stop cursor : Nat} {branches : List Branch}
    (h : Gaps text stop cursor branches) : cursor ≤ stop := by
  induction branches generalizing cursor with
  | nil => exact Gap.forward h
  | cons branch rest ih =>
    obtain ⟨gap, forward, -, tail⟩ := h
    have := gap.forward
    have := ih tail
    omega

theorem Gaps.slice_cons {text : Text} {stop cursor : Nat} {branch : Branch} {rest : List Branch}
    (h : Gaps text stop cursor (branch :: rest)) :
    text.slice cursor stop = text.slice cursor branch.extent.start ++ branch.text text ++
      text.slice branch.extent.stop stop := by
  obtain ⟨gap, forward, -, tail⟩ := h
  rw [Branch.text, slice_append_slice text gap.forward forward,
    slice_append_slice text (Nat.le_trans gap.forward forward) tail.forward]

theorem Gaps.sameLines {text : Text} {stop cursor : Nat} {branches : List Branch}
    (h : Gaps text stop cursor branches) :
    SameLines (gapped text stop (Branch.text text) cursor branches) (text.slice cursor stop) := by
  induction branches generalizing cursor with
  | nil => exact sameLines_cover _
  | cons branch rest ih =>
    rw [h.slice_cons]
    exact SameLines.append (SameLines.append (sameLines_cover _) (.refl _)) (ih h.2.2.2)

/-- Marking the gaps of a block covers them and leaves the branches as they are. -/
theorem markAll_gaps {text before after : Text} {stop cursor : Nat} {branches : List Branch}
    (source : Option String) (h : Gaps text stop cursor branches) (atStart : before.length = cursor)
    (same : SameLines (before ++ text.slice cursor stop ++ after) text) :
    markAll source (before ++ text.slice cursor stop ++ after).lines
        (gaps (text.position cursor) (text.position stop)
          (branches.map fun branch => text.span branch.extent)) =
      ((before ++ gapped text stop (Branch.text text) cursor branches ++ after).lines, none) := by
  induction branches generalizing cursor before with
  | nil =>
    simp only [List.map_nil, gaps, markAll, mark_gap source h atStart same]
    rfl
  | cons branch rest ih =>
    have parts := h.slice_cons
    obtain ⟨gap, forward, bounded, tail⟩ := h
    have first : before ++ text.slice cursor stop ++ after =
        before ++ text.slice cursor branch.extent.start ++
          (branch.text text ++ text.slice branch.extent.stop stop ++ after) := by
      rw [parts]
      simp only [List.append_assoc]
    rw [first] at same ⊢
    have covered := (SameLines.append (SameLines.append (.refl before)
      (sameLines_cover (text.slice cursor branch.extent.start))) (.refl _)).trans same
    have reached : (before ++ cover (text.slice cursor branch.extent.start) ++
        branch.text text).length = branch.extent.stop := by
      have := gap.forward
      simp only [List.length_append, (sameLines_cover _).length_eq, Branch.text,
        length_slice text gap.bounded, length_slice text bounded]
      omega
    have regroup (last : Text) :
        before ++ cover (text.slice cursor branch.extent.start) ++
            (branch.text text ++ last ++ after) =
          before ++ cover (text.slice cursor branch.extent.start) ++ branch.text text ++ last ++
            after := by
      simp only [List.append_assoc]
    rw [regroup] at covered
    simp only [List.map_cons, gaps, markAll, span_start, span_stop, mark_gap source gap atStart same]
    rw [regroup, ih tail reached covered, gapped]
    simp only [List.append_assoc]

/-! ### Runs -/

/-- How visiting nodes up to the offset `stop` ends: with the given buffer and nothing masked behind
the offset, or at a node that stops it. -/
inductive MaskRun (source : String) (text : Text) (nodes : List (Node Span)) (stop : Nat)
    (buffer : Buffer) : Except Fault Masking → Prop where
  | done {maskedTo : Position} (reached : ¬text.position stop < maskedTo)
      (maskable : ∀ node ∈ nodes, ¬Clashes node ∧ ¬Unsupported node) :
      MaskRun source text nodes stop buffer (.ok ⟨buffer, maskedTo⟩)
  | stopped {node : Node Span} {fault : Fault} (member : node ∈ nodes)
      (stops : Stops source node fault) : MaskRun source text nodes stop buffer (.error fault)

/-- Visits nodes in turn. -/
def visitAll (source : String) (masking : Masking) (nodes : List (Node Span)) :
    Except Fault Masking :=
  nodes.foldlM (fun masking node => masking.visit source node) masking

theorem visitAll_append (source : String) (masking : Masking) (first second : List (Node Span)) :
    visitAll source masking (first ++ second) =
      visitAll source masking first >>= fun masking => visitAll source masking second :=
  List.foldlM_append

theorem visitAll_cons {source : String} {masking next : Masking} {node : Node Span}
    (rest : List (Node Span)) (step : masking.visit source node = .ok next) :
    visitAll source masking (node :: rest) = visitAll source next rest := by
  rw [visitAll, List.foldlM_cons, step]
  rfl

theorem MaskRun.append {source : String} {text : Text} {first second : List (Node Span)}
    {middle stop : Nat} {between buffer : Buffer} {masking : Masking}
    (head : MaskRun source text first middle between (visitAll source masking first))
    (tail : ∀ maskedTo, ¬text.position middle < maskedTo →
      MaskRun source text second stop buffer (visitAll source ⟨between, maskedTo⟩ second)) :
    MaskRun source text (first ++ second) stop buffer (visitAll source masking (first ++ second)) := by
  rw [visitAll_append]
  generalize visitAll source masking first = result at head
  cases head with
  | stopped member stops => exact .stopped (List.mem_append_left _ member) stops
  | @done maskedTo reached maskable =>
    have next := tail maskedTo reached
    simp only [bind, Except.bind]
    generalize visitAll source ⟨between, maskedTo⟩ second = result at next
    cases next with
    | stopped member stops => exact .stopped (List.mem_append_right _ member) stops
    | done reached' maskable' =>
      refine .done reached' fun node member => ?_
      rcases List.mem_append.mp member with here | here
      · exact maskable node here
      · exact maskable' node here

/-- Visiting nodes changes a range of a text into `region`, whatever stands around the range, as long
as nothing is masked behind its start. -/
structure Masked (source : String) (text : Text) (nodes : List (Node Span)) (extent : Extent)
    (region : Text) : Prop where
  same : SameLines region (text.slice extent.start extent.stop)
  run : ∀ (before after : Text) {maskedTo : Position}, before.length = extent.start →
    SameLines (before ++ text.slice extent.start extent.stop ++ after) text →
    ¬text.position extent.start < maskedTo →
    MaskRun source text nodes extent.stop (before ++ region ++ after).lines
      (visitAll source
        ⟨(before ++ text.slice extent.start extent.stop ++ after).lines, maskedTo⟩ nodes)

theorem Masked.nil (source : String) (text : Text) (offset : Nat) :
    Masked source text [] ⟨offset, offset⟩ [] := by
  refine ⟨by rw [slice_self]; exact .refl _, fun _ _ _ _ _ notMasked => ?_⟩
  rw [slice_self]
  exact .done notMasked (by simp)

theorem Masked.append {source : String} {text : Text} {first second : List (Node Span)}
    {start middle stop : Nat} {region region' : Text}
    (head : Masked source text first ⟨start, middle⟩ region)
    (tail : Masked source text second ⟨middle, stop⟩ region') (forward : start ≤ middle)
    (forward' : middle ≤ stop) (bounded : middle ≤ text.length) :
    Masked source text (first ++ second) ⟨start, stop⟩ (region ++ region') := by
  have parts := (slice_append_slice text forward forward').symm
  refine ⟨?_, ?_⟩
  · simp only [parts]
    exact SameLines.append head.same tail.same
  · intro before after maskedTo atStart same notMasked
    simp only [parts] at same ⊢
    have regroup (left right : Text) :
        before ++ (left ++ right) ++ after = before ++ left ++ (right ++ after) := by
      simp only [List.append_assoc]
    have regroup' (left right : Text) :
        before ++ left ++ (right ++ after) = (before ++ left) ++ right ++ after := by
      simp only [List.append_assoc]
    rw [regroup] at same
    rw [regroup, regroup]
    refine MaskRun.append (head.run _ _ atStart same notMasked) fun maskedTo reached => ?_
    rw [regroup', regroup']
    refine tail.run _ _ ?_ ?_ reached
    · rw [List.length_append, head.same.length_eq, length_slice text bounded]
      simp only [atStart]
      omega
    · rw [← regroup']
      exact (SameLines.append (SameLines.append (.refl _) head.same) (.refl _)).trans same

theorem not_position_lt {text : Text} {first second : Nat} {place : Position}
    (forward : first ≤ second) (h : ¬text.position first < place) : ¬text.position second < place := by
  refine Position.not_lt_trans h ?_
  rw [position_lt_iff text]
  omega

/-- The offset up to which a block from its first gap on may be masked. -/
def entry (stop : Nat) : List Branch → Nat
  | [] => stop
  | branch :: _ => branch.extent.start

theorem Gaps.le_entry {text : Text} {stop cursor : Nat} {branches : List Branch}
    (h : Gaps text stop cursor branches) : cursor ≤ entry stop branches := by
  cases branches with
  | nil => exact Gap.forward h
  | cons branch rest => exact h.1.forward

/-- The branches of a block one after the other, with the gaps around them covered already. -/
theorem branches_run {source : String} {text before after : Text} {stop cursor : Nat}
    {branches : List Branch} {maskedTo : Position} (h : Gaps text stop cursor branches)
    (masked : ∀ branch ∈ branches, Masked source text branch.nodes branch.extent branch.region)
    (atStart : before.length = cursor)
    (same : SameLines (before ++ gapped text stop (Branch.text text) cursor branches ++ after) text)
    (notMasked : ¬text.position (entry stop branches) < maskedTo) :
    MaskRun source text (branches.flatMap Branch.nodes) stop
      (before ++ gapped text stop Branch.region cursor branches ++ after).lines
      (visitAll source
        ⟨(before ++ gapped text stop (Branch.text text) cursor branches ++ after).lines, maskedTo⟩
        (branches.flatMap Branch.nodes)) := by
  induction branches generalizing cursor before maskedTo with
  | nil => exact .done notMasked (by simp)
  | cons branch rest ih =>
    obtain ⟨gap, forward, bounded, tail⟩ := h
    obtain ⟨here, later⟩ := List.forall_mem_cons.mp masked
    have regroup (left middle right : Text) :
        before ++ (left ++ middle ++ right) ++ after = (before ++ left) ++ middle ++ (right ++ after) := by
      simp only [List.append_assoc]
    have regroup' (left middle right : Text) :
        (before ++ left) ++ middle ++ (right ++ after) = (before ++ left ++ middle) ++ right ++ after := by
      simp only [List.append_assoc]
    have opened : (before ++ cover (text.slice cursor branch.extent.start)).length =
        branch.extent.start := by
      have := gap.forward
      rw [List.length_append, (sameLines_cover _).length_eq, length_slice text gap.bounded, atStart]
      omega
    simp only [gapped, List.flatMap_cons] at same ⊢
    rw [regroup] at same ⊢
    rw [regroup]
    refine MaskRun.append (here.run _ _ opened same notMasked) fun maskedTo reached => ?_
    rw [regroup', regroup']
    refine ih tail later ?_ ?_ (not_position_lt tail.le_entry reached)
    · rw [List.length_append, opened, here.same.length_eq, length_slice text bounded]
      omega
    · rw [← regroup']
      exact (SameLines.append (SameLines.append (.refl _) here.same) (.refl _)).trans same

/-! ### Statements -/

/-- Parts of a call that start in front of an offset. -/
def Operands (text : Text) (offset : Nat) (nodes : List (Node Span)) : Prop :=
  ∀ node ∈ nodes, isOperand node = true ∧ node.label.range.start < text.position offset

theorem callNodes_operands (text : Text) {extent : Extent} {call : Call Extent}
    (starts : StartsIn extent call) :
    Operands text extent.stop (Expr.callNodes (Expr.mapCall text.span call)) := by
  intro node member
  obtain ⟨operand, origin, here, same⟩ := callNodes_mapCall member
  refine ⟨operand, ?_⟩
  rw [same]
  exact (position_lt_iff text).mpr (starts origin here).2

theorem visitAll_operands {source : String} {text : Text} {offset : Nat} {nodes : List (Node Span)}
    (h : Operands text offset nodes) (buffer : Buffer) (maskedTo : Position) :
    visitAll source ⟨buffer, maskedTo.later (text.position offset)⟩ nodes =
      .ok ⟨buffer, maskedTo.later (text.position offset)⟩ := by
  induction nodes with
  | nil => rfl
  | cons node rest ih =>
    obtain ⟨⟨operand, inside⟩, later⟩ := List.forall_mem_cons.mp h
    rw [visitAll_cons rest (visit_operand operand (Position.lt_later_right inside)), ih later]

theorem MaskRun.operands {source : String} {text : Text} {nodes : List (Node Span)} {offset : Nat}
    {maskedTo : Position} (h : Operands text offset nodes) (buffer : Buffer)
    (notMasked : ¬text.position offset < maskedTo) :
    MaskRun source text nodes offset buffer
      (visitAll source ⟨buffer, maskedTo.later (text.position offset)⟩ nodes) := by
  rw [visitAll_operands h]
  exact .done (Position.not_lt_later notMasked (Position.lt_irrefl _))
    fun node member => isOperand_maskable (h node member).1

theorem MaskRun.cons {source : String} {text : Text} {node : Node Span} {rest : List (Node Span)}
    {stop : Nat} {buffer : Buffer} {masking next : Masking}
    (maskable : ¬Clashes node ∧ ¬Unsupported node) (step : masking.visit source node = .ok next)
    (tail : MaskRun source text rest stop buffer (visitAll source next rest)) :
    MaskRun source text (node :: rest) stop buffer (visitAll source masking (node :: rest)) := by
  rw [visitAll_cons rest step]
  generalize visitAll source next rest = result at tail
  cases tail with
  | stopped member stops => exact .stopped (List.mem_cons_of_mem _ member) stops
  | done reached maskable' => exact .done reached (List.forall_mem_cons.mpr ⟨maskable, maskable'⟩)

theorem MaskRun.stop {source : String} {text : Text} {node : Node Span} {rest : List (Node Span)}
    {stop : Nat} {buffer : Buffer} {masking : Masking} {fault : Fault} (stops : Stops source node fault)
    (step : masking.visit source node = .error fault) :
    MaskRun source text (node :: rest) stop buffer (visitAll source masking (node :: rest)) := by
  rw [visitAll, List.foldlM_cons, step]
  exact .stopped List.mem_cons_self stops

theorem tag_masked {source : String} {text : Text} {node : Node Span} {operands : List (Node Span)}
    {extent : Extent} {kind : TagKind} (tag : TagAt text extent kind)
    (range : node.label.range = text.span extent)
    (isTag : node.kind = .mustache ∨ node.kind = .partialCall ∨ node.kind = .comment)
    (inside : Operands text extent.stop operands) :
    Masked source text (node :: operands) extent (cover (text.slice extent.start extent.stop)) := by
  refine ⟨sameLines_cover _, ?_⟩
  intro before after maskedTo atStart same notMasked
  have maskable : ¬Clashes node ∧ ¬Unsupported node := by
    constructor
    · rcases node with p | s | e | n | p <;> try exact id
      cases s <;> simp [Node.kind] at isTag <;> exact id
    · rcases isTag with kind | kind | kind <;> simp [Unsupported, kind]
  have step : Masking.visit ⟨(before ++ text.slice extent.start extent.stop ++ after).lines, maskedTo⟩
      source node = .ok ⟨(before ++ cover (text.slice extent.start extent.stop) ++ after).lines,
        maskedTo.later (text.position extent.stop)⟩ := by
    have marked : Masking.tag ⟨(before ++ text.slice extent.start extent.stop ++ after).lines, maskedTo⟩
        source node.label.range = .ok ⟨(before ++ cover (text.slice extent.start extent.stop) ++
          after).lines, maskedTo.later (text.position extent.stop)⟩ := by
      simp only [Masking.tag, range, span_start, span_stop, if_neg notMasked,
        mark_gap (some source) (gap_of_tagAt tag) atStart same]
    rcases isTag with kind | kind | kind <;> simp only [Masking.visit, kind, marked]
  exact MaskRun.cons maskable step
    (MaskRun.operands inside _ (not_position_lt (Nat.le_of_lt tag.forward) notMasked))

/-! ### Blocks -/

theorem branchesInOrder_eq {β : Type} {start : β → Position} {inverted : Bool} {first : β}
    {second : Option β}
    (ordered : ∀ branch, second = some branch →
      if inverted then start first < start branch else ¬start branch < start first) :
    branchesInOrder start inverted first second = first :: second.toList := by
  cases second with
  | none => cases inverted <;> rfl
  | some branch =>
    have here := ordered branch rfl
    cases inverted with
    | true => exact if_pos here
    | false => exact if_neg here

theorem branchSpans_eq (inverted : Bool) (first : Span) (second : Option Span) :
    branchSpans (positiveBranch inverted first second) (negativeBranch inverted first second) =
      branchesInOrder Span.start inverted first second := by
  cases second <;> cases inverted <;> rfl

theorem branchRanges_block (label : Label Span) (call : Call Span) (inverted : Bool)
    (first : Program Span) (second : Option (Program Span)) :
    branchRanges (.statement (.block label call inverted first second)) =
      (positiveBranch inverted first.label.range (second.map (·.label.range)),
        negativeBranch inverted first.label.range (second.map (·.label.range))) := by
  cases inverted <;> rfl

theorem masking_block (source : String) {text before after : Text} {extent : Extent}
    {inverted : Bool} {first : Extent} {second : Option Extent} {branches : List Branch}
    {maskedTo : Position} (h : Gaps text extent.stop extent.start branches)
    (extents : branches.map Branch.extent = first :: second.toList)
    (ordered : ∀ branch, second = some branch → if inverted
      then text.position first.start < text.position branch.start
      else ¬text.position branch.start < text.position first.start)
    (atStart : before.length = extent.start)
    (same : SameLines (before ++ text.slice extent.start extent.stop ++ after) text)
    (notMasked : ¬text.position extent.start < maskedTo) :
    Masking.block ⟨(before ++ text.slice extent.start extent.stop ++ after).lines, maskedTo⟩ source
        (text.span extent) (positiveBranch inverted (text.span first) (second.map text.span))
        (negativeBranch inverted (text.span first) (second.map text.span)) =
      .ok ⟨(before ++ gapped text extent.stop (Branch.text text) extent.start branches ++
        after).lines, maskedTo.later (text.position first.start)⟩ := by
  have spans : branchSpans (positiveBranch inverted (text.span first) (second.map text.span))
      (negativeBranch inverted (text.span first) (second.map text.span)) =
        branches.map fun branch => text.span branch.extent := by
    have inOrder : branches.map (fun branch => text.span branch.extent) =
        text.span first :: (second.map text.span).toList := by
      have mapped := congrArg (List.map text.span) extents
      rw [List.map_map, List.map_cons] at mapped
      rw [Option.toList_map]
      exact mapped
    rw [inOrder, branchSpans_eq, branchesInOrder_eq]
    intro branch isSecond
    obtain ⟨extent, isSome, rfl⟩ := Option.map_eq_some_iff.mp isSecond
    exact ordered extent isSome
  have marked : markBlock (some source) (before ++ text.slice extent.start extent.stop ++ after).lines
      (text.span extent) (positiveBranch inverted (text.span first) (second.map text.span))
      (negativeBranch inverted (text.span first) (second.map text.span)) =
        ((before ++ gapped text extent.stop (Branch.text text) extent.start branches ++
          after).lines, none) := by
    rw [← markAll_gaps (some source) h atStart same, markBlock, spans]
    cases branches with
    | nil => simp at extents
    | cons branch rest => rfl
  simp only [Masking.block, span_start, if_neg notMasked, marked]
  cases second with
  | none => cases inverted <;> rfl
  | some branch =>
    have here := ordered branch rfl
    cases inverted with
    | true =>
      rw [if_pos rfl] at here
      simp [positiveBranch, negativeBranch, Position.earlier, here]
    | false =>
      simp only [Bool.false_eq_true, if_false] at here
      simp [positiveBranch, negativeBranch, Position.earlier, here]

/-- Masking stops at a block whose second branch starts with the first and counts as the first. -/
theorem masking_block_clash {source : String} {text before after : Text} {extent first second : Extent}
    {maskedTo : Position} (opening : Gap text extent.start second.start)
    (together : second.start = first.start) (forward : second.start < second.stop)
    (bounded : second.stop ≤ text.length) (inside : second.stop ≤ extent.stop)
    (atStart : before.length = extent.start)
    (same : SameLines (before ++ text.slice extent.start extent.stop ++ after) text)
    (notMasked : ¬text.position extent.start < maskedTo) :
    ∃ width, Masking.block ⟨(before ++ text.slice extent.start extent.stop ++ after).lines, maskedTo⟩
        source (text.span extent) (some (text.span second)) (some (text.span first)) =
      .error (.violation ⟨.markerWidth width, .ofPosition (some source) (text.position second.stop)⟩) := by
  have parts : before ++ text.slice extent.start extent.stop ++ after =
      before ++ text.slice extent.start second.start ++
        (text.slice second.start extent.stop ++ after) := by
    rw [← slice_append_slice text opening.forward
      (Nat.le_trans (Nat.le_of_lt forward) inside)]
    simp only [List.append_assoc]
  rw [parts] at same ⊢
  have marked := mark_gap (some source) opening atStart same
  have covered : SameLines (before ++ cover (text.slice extent.start second.start) ++
      (text.slice second.start extent.stop ++ after)) text :=
    (SameLines.append (SameLines.append (.refl _) (sameLines_cover _)) (.refl _)).trans same
  have rows : (before ++ cover (text.slice extent.start second.start) ++
      (text.slice second.start extent.stop ++ after)).lines.length = text.lines.length := by
    have lengths := congrArg List.length covered.lines_length
    simpa only [List.length_map] using lengths
  obtain ⟨width, failed⟩ := mark_reversed (some source) forward bounded rows
  refine ⟨width, ?_⟩
  have spans : branchSpans (some (text.span second)) (some (text.span first)) =
      [text.span second, text.span first] := by
    simp only [branchSpans, span_start, together]
    exact if_neg (Position.lt_irrefl _)
  simp only [Masking.block, span_start, if_neg notMasked, markBlock, spans, gaps, markAll, marked,
    ← together, span_stop, failed]
  rfl

/-- The branch that a program of a tree makes. -/
def branchOf (text : Text) (program : Program Extent) : Branch :=
  ⟨program.label.range, Statement.programNodes (Statement.mapProgram text.span program),
    maskedTiles text (Statement.programTiles program)⟩

theorem block_gaps {text : Text} {chained inverted : Bool} {label : Label Extent}
    {call : Call Extent} {first : Program Extent} {second : Option (Program Extent)}
    (tiled : Statement.Tiled text chained (.block label call inverted first second)) :
    Gaps text label.range.stop label.range.start
      (branchOf text first :: second.toList.map (branchOf text)) := by
  obtain ⟨opening, -, -, firstTiled, rest⟩ := tiled
  obtain ⟨firstForward, firstBounded⟩ := Statement.ProgramTiled.within firstTiled
  have firstBounded := firstBounded opening.bounded
  refine ⟨gap_of_tagAt opening, firstForward, firstBounded, ?_⟩
  cases second with
  | none => exact gap_of_closeAt rest firstBounded
  | some branch =>
    obtain ⟨before, branchTiled, closing⟩ := rest
    obtain ⟨branchForward, branchBounded⟩ := Statement.ProgramTiled.within branchTiled
    have between : Gap text first.label.range.stop branch.label.range.start := by
      split at before
      · exact ⟨Nat.le_of_eq before, before ▸ firstBounded, .inl before⟩
      · rcases before with tag | tag
        · exact gap_of_tagAt tag
        · exact gap_of_tagAt tag
    have branchBounded := branchBounded between.bounded
    exact ⟨between, branchForward, branchBounded, gap_of_closeAt closing branchBounded⟩

@[simp] theorem label_mapProgram {ρ σ : Type} (f : ρ → σ) (program : Program ρ) :
    (Statement.mapProgram f program).label = program.label.map f := by
  rcases program with ⟨label, body, blockParams, chained⟩
  rfl

theorem clashes_mapRange {ρ σ : Type} (f : ρ → σ) (label : Label ρ) (call : Call ρ) (inverted : Bool)
    (first : Program ρ) (second : Option (Program ρ)) :
    Clashes (.statement (Statement.mapRange f (.block label call inverted first second))) ↔
      inverted = true ∧ first.body = [] ∧ ∃ branch, second = some branch ∧ branch.chained = true := by
  rcases first with ⟨_, body, _, _⟩
  have empty : Statement.mapList f body = [] ↔ body = [] := by
    cases body <;> simp [Statement.mapList]
  rcases second with _ | ⟨_, _, _, chained⟩
  · simp [Clashes, Statement.mapRange, Statement.mapProgram, Statement.mapBranch]
  · simp [Clashes, Statement.mapRange, Statement.mapProgram, Statement.mapBranch, empty]

theorem block_ordered {text : Text} {chained inverted : Bool} {label : Label Extent}
    {call : Call Extent} {first : Program Extent} {second : Option (Program Extent)}
    (tiled : Statement.Tiled text chained (.block label call inverted first second))
    (apart : ¬(inverted = true ∧ first.body = [] ∧
      ∃ branch, second = some branch ∧ branch.chained = true))
    {branch : Program Extent} (isSecond : second = some branch) :
    if inverted then text.position first.label.range.start < text.position branch.label.range.start
    else ¬text.position branch.label.range.start < text.position first.label.range.start := by
  subst isSecond
  obtain ⟨-, -, -, firstTiled, before, -, -⟩ := tiled
  have forward := (Statement.ProgramTiled.within firstTiled).1
  rw [position_lt_iff text, position_lt_iff text]
  by_cases chained : branch.chained = true
  · rw [if_pos chained] at before
    simp only at before
    cases inverted with
    | true =>
      have filled : first.body ≠ [] := fun empty => apart ⟨rfl, empty, branch, rfl, chained⟩
      rw [ne_eq, firstTiled.body_eq_nil_iff] at filled
      rw [if_pos rfl]
      omega
    | false =>
      rw [if_neg (by simp)]
      omega
  · rw [if_neg chained] at before
    have := before.forward
    simp only at this
    split <;> omega

theorem nodes_block {text : Text} {chained inverted : Bool} {label : Label Extent}
    {call : Call Extent} {first : Program Extent} {second : Option (Program Extent)}
    (tiled : Statement.Tiled text chained (.block label call inverted first second))
    (apart : ¬(inverted = true ∧ first.body = [] ∧
      ∃ branch, second = some branch ∧ branch.chained = true)) :
    (Statement.mapRange text.span (.block label call inverted first second)).nodes =
      .statement (Statement.mapRange text.span (.block label call inverted first second)) ::
        (Expr.callNodes (Expr.mapCall text.span call) ++
          (branchOf text first :: second.toList.map (branchOf text)).flatMap Branch.nodes) := by
  rw [Statement.mapRange, Statement.nodes]
  congr 2
  rw [branchesInOrder_eq]
  · cases second <;> simp [Statement.branchNodes, Statement.mapBranch, branchOf]
  · intro branch isSecond
    cases second with
    | none => simp [Statement.mapBranch, Statement.branchNodes] at isSecond
    | some program =>
      obtain rfl := Option.some.inj isSecond
      simpa [ProgramOf.start, Label.map] using block_ordered tiled apart rfl

theorem maskedTiles_block {text : Text} (label : Label Extent) (call : Call Extent) (inverted : Bool)
    (first : Program Extent) (second : Option (Program Extent)) :
    maskedTiles text (Statement.tiles (.block label call inverted first second)) =
      gapped text label.range.stop Branch.region label.range.start
        (branchOf text first :: second.toList.map (branchOf text)) := by
  cases second <;> simp [Statement.tiles, Statement.secondTiles, maskedTiles_append,
    maskedTiles_gapTiles, gapped, branchOf]

theorem visit_block {text : Text} (source : String) (masking : Masking) (label : Label Extent)
    (call : Call Extent) (inverted : Bool) (first : Program Extent)
    (second : Option (Program Extent)) :
    masking.visit source
        (.statement (Statement.mapRange text.span (.block label call inverted first second))) =
      masking.block source (text.span label.range)
        (positiveBranch inverted (text.span first.label.range)
          ((second.map (·.label.range)).map text.span))
        (negativeBranch inverted (text.span first.label.range)
          ((second.map (·.label.range)).map text.span)) := by
  simp only [Statement.mapRange, Masking.visit, Node.kind, branchRanges_block, label_mapProgram]
  cases second with
  | none => rfl
  | some branch => simp [Statement.mapBranch, Node.label, Statement.label, Label.map]

/-- A block whose branches start together stops the run. -/
theorem block_stopped {source : String} {text before after : Text} {chained : Bool}
    {label : Label Extent} {call : Call Extent} {first branch : Program Extent} {maskedTo : Position}
    (tiled : Statement.Tiled text chained (.block label call true first (some branch)))
    (empty : first.body = []) (isChained : branch.chained = true)
    (atStart : before.length = label.range.start)
    (same : SameLines (before ++ text.slice label.range.start label.range.stop ++ after) text)
    (notMasked : ¬text.position label.range.start < maskedTo) :
    ∃ fault, Masking.visit
        ⟨(before ++ text.slice label.range.start label.range.stop ++ after).lines, maskedTo⟩ source
        (.statement (Statement.mapRange text.span (.block label call true first (some branch)))) =
          .error fault ∧
      Stops source
        (.statement (Statement.mapRange text.span (.block label call true first (some branch))))
        fault := by
  have clash := (clashes_mapRange text.span label call true first (some branch)).mpr
    ⟨rfl, empty, branch, rfl, isChained⟩
  obtain ⟨opening, -, -, firstTiled, before', branchTiled, closing⟩ := tiled
  rw [if_pos isChained] at before'
  rw [firstTiled.body_eq_nil_iff] at empty
  -- An empty branch stops where it starts, and no tag stands in front of a chained branch.
  have together : branch.label.range.start = first.label.range.start := by
    simp only at before'
    omega
  have filled := branchTiled.body_ne_nil isChained
  rw [ne_eq, branchTiled.body_eq_nil_iff] at filled
  obtain ⟨forward, bounded⟩ := Statement.ProgramTiled.within branchTiled
  have opening := gap_of_tagAt opening
  simp only [← together] at opening
  obtain ⟨width, failed⟩ := masking_block_clash opening together (by omega)
    (bounded opening.bounded) closing.forward atStart same notMasked
  exact ⟨_, by rw [visit_block]; exact failed, .clash clash width _⟩

/-- A block is masked if its branches are: they are visited after its tags are covered. -/
theorem block_masked {source : String} {text : Text} {chained inverted : Bool} {label : Label Extent}
    {call : Call Extent} {first : Program Extent} {second : Option (Program Extent)}
    (tiled : Statement.Tiled text chained (.block label call inverted first second))
    (masked : ∀ branch ∈ branchOf text first :: second.toList.map (branchOf text),
      Masked source text branch.nodes branch.extent branch.region) :
    Masked source text (Statement.mapRange text.span (.block label call inverted first second)).nodes
      label.range (maskedTiles text (Statement.tiles (.block label call inverted first second))) := by
  have gaps := block_gaps tiled
  refine ⟨?_, ?_⟩
  · exact tiled.tilesFrom.tilesText ▸ sameLines_maskedTiles text _
  · intro before after maskedTo atStart same notMasked
    by_cases clash : inverted = true ∧ first.body = [] ∧
      ∃ branch, second = some branch ∧ branch.chained = true
    · obtain ⟨rfl, empty, branch, rfl, isChained⟩ := clash
      obtain ⟨fault, failed, stops⟩ := block_stopped tiled empty isChained atStart same notMasked
      exact MaskRun.stop stops failed
    · have ordered : ∀ extent, second.map (·.label.range) = some extent → if inverted
          then text.position first.label.range.start < text.position extent.start
          else ¬text.position extent.start < text.position first.label.range.start := by
        intro extent isSecond
        obtain ⟨branch, isSome, rfl⟩ := Option.map_eq_some_iff.mp isSecond
        exact block_ordered tiled clash isSome
      have extents : (branchOf text first :: second.toList.map (branchOf text)).map Branch.extent =
          first.label.range :: (second.map (·.label.range)).toList := by
        cases second <;> rfl
      have step := masking_block source gaps extents ordered atStart same notMasked
      rw [nodes_block tiled clash, maskedTiles_block]
      have maskable : ¬Clashes (.statement
            (Statement.mapRange text.span (.block label call inverted first second))) ∧
          ¬Unsupported (.statement
            (Statement.mapRange text.span (.block label call inverted first second))) :=
        ⟨fun here => clash ((clashes_mapRange ..).mp here), by
          simp [Unsupported, Statement.mapRange, Node.kind]⟩
      refine MaskRun.cons maskable (by rw [visit_block]; exact step) ?_
      have starts := callNodes_operands text tiled.2.1
      have opening := tiled.1.forward
      refine MaskRun.append (MaskRun.operands starts _
        (not_position_lt (Nat.le_of_lt opening) notMasked)) fun maskedTo reached => ?_
      exact branches_run gaps masked atStart
        ((SameLines.append (SameLines.append (.refl _) gaps.sameLines) (.refl _)).trans same) reached

/-! ### Whole trees -/

theorem unsupported_masked {source : String} {text : Text} {s : Statement Extent} {chained : Bool}
    {rest : List (Node Span)} (tiled : s.Tiled text chained)
    (h : Unsupported (.statement (s.mapRange text.span))) :
    Masked source text (.statement (s.mapRange text.span) :: rest) s.label.range
      (maskedTiles text s.tiles) := by
  refine ⟨tiled.tilesFrom.tilesText ▸ sameLines_maskedTiles text _, ?_⟩
  intro before after maskedTo _ _ _
  refine MaskRun.stop (.unsupported h) ?_
  rcases h with kind | kind | kind <;> simp only [Masking.visit, kind]

theorem program_masked_of_list {source : String} {text : Text} {program : Program Extent}
    (h : Masked source text (Statement.listNodes (Statement.mapList text.span program.body))
      program.label.range (maskedTiles text (Statement.listTiles program.body))) :
    Masked source text (Statement.programNodes (Statement.mapProgram text.span program))
      program.label.range (maskedTiles text (Statement.programTiles program)) := by
  rcases program with ⟨label, body, blockParams, chained⟩
  refine ⟨h.same, fun before after maskedTo atStart same notMasked => ?_⟩
  exact MaskRun.cons ⟨id, by simp [Unsupported, Node.kind]⟩ rfl
    (h.run before after atStart same notMasked)

mutual

/-- Visiting the nodes of a statement covers its tags. -/
theorem statement_masked (source : String) {text : Text} {chained : Bool} :
    ∀ {s : Statement Extent}, s.Tiled text chained →
      Masked source text (s.mapRange text.span).nodes s.label.range (maskedTiles text s.tiles)
  | .content label value written, h => by
    simp only [Statement.tiles, maskedTiles, maskedTile, List.flatMap_cons, List.flatMap_nil,
      List.append_nil]
    refine ⟨.refl _, fun _ _ _ _ _ notMasked => ?_⟩
    exact MaskRun.cons ⟨id, by simp [Unsupported, Node.kind]⟩ rfl
      (.done (not_position_lt (Nat.le_of_lt h.forward) notMasked) (by simp))
  | .comment label value, h => by
    simp only [Statement.tiles, maskedTiles, maskedTile, List.flatMap_cons, List.flatMap_nil,
      List.append_nil]
    exact tag_masked h rfl (.inr (.inr rfl)) (by simp [Operands])
  | .mustache label call escaped, h => by
    simp only [Statement.tiles, maskedTiles, maskedTile, List.flatMap_cons, List.flatMap_nil,
      List.append_nil]
    exact tag_masked h.1 rfl (.inl rfl) (callNodes_operands text h.2)
  | .partialCall label call, h => by
    simp only [Statement.tiles, maskedTiles, maskedTile, List.flatMap_cons, List.flatMap_nil,
      List.append_nil]
    exact tag_masked h.1 rfl (.inr (.inl rfl)) (callNodes_operands text h.2)
  | .decorator label call, h => unsupported_masked h (.inr (.inl rfl))
  | .partialBlock label call body, h => unsupported_masked h (.inl rfl)
  | .decoratorBlock label call body, h => unsupported_masked h (.inr (.inr rfl))
  | .block label call inverted first none, h => by
    have firstMasked := program_masked source h.2.2.2.1 h.1.bounded
    exact block_masked h (List.forall_mem_cons.mpr ⟨firstMasked, by simp⟩)
  | .block label call inverted first (some branch), h => by
    have firstMasked := program_masked source h.2.2.2.1 h.1.bounded
    have branchMasked := program_masked source h.2.2.2.2.2.1 (block_gaps h).2.2.2.1.bounded
    exact block_masked h
      (List.forall_mem_cons.mpr ⟨firstMasked, List.forall_mem_singleton.mpr branchMasked⟩)
  | .bare _ _, h => h.elim

theorem program_masked (source : String) {text : Text} :
    ∀ {program : Program Extent}, Statement.ProgramTiled text program →
      program.label.range.start ≤ text.length →
      Masked source text (Statement.programNodes (Statement.mapProgram text.span program))
        program.label.range (maskedTiles text (Statement.programTiles program))
  | ⟨_, _, _, _⟩, h, bounded =>
    program_masked_of_list (list_masked source h.2.2.2.2 h.1 bounded)

theorem list_masked (source : String) {text : Text} {chained : Bool} :
    ∀ {body : List (Statement Extent)} {start stop : Nat}, Statement.ListTiled text chained body →
      Abut start stop body → start ≤ text.length →
      Masked source text (Statement.listNodes (Statement.mapList text.span body)) ⟨start, stop⟩
        (maskedTiles text (Statement.listTiles body))
  | [], start, stop, _, abut, _ => by
    obtain rfl := abut
    exact Masked.nil source text start
  | s :: rest, start, stop, h, abut, _ => by
    obtain ⟨rfl, abutRest⟩ := abut
    obtain ⟨forward, bounded⟩ := Statement.Tiled.within h.1
    have restForward := (Statement.ListTiled.within h.2 abutRest).1
    rw [Statement.listTiles, maskedTiles_append]
    exact Masked.append (statement_masked source h.1) (list_masked source h.2 abutRest bounded)
      (Nat.le_of_lt forward) restForward bounded

end

end Phrasebook.Extract
