import Phrasebook.Proofs.Extract.Together
import Phrasebook.Proofs.Extract.Merged
import Phrasebook.Proofs.Template.Calls

/-!
The keys that an analysis collects. Nodes have distinct numbers, so no node is passed over.
`Analysed.keys` says which keys are found in terms of the calls of the tree.
-/

namespace Phrasebook

theorem Members.mem_names_alter_iff {κ β : Type} [BEq κ] [LawfulBEq κ] {members : List (κ × β)}
    {name key : κ} {change : Option β → β} :
    key ∈ names (alter members name change) ↔ key ∈ names members ∨ key = name := by
  refine ⟨mem_names_alter, fun member => ?_⟩
  induction members with
  | nil => simpa [alter, names] using member
  | cons first rest ih =>
    obtain ⟨first, value⟩ := first
    by_cases here : first = name
    · subst here
      rw [alter_cons_self]
      exact member.elim id fun same => List.mem_cons.mpr (.inl same)
    · rw [alter_cons_of_ne rest here]
      rcases member with member | same
      · rcases List.mem_cons.mp member with same | later
        · exact List.mem_cons.mpr (.inl same)
        · exact List.mem_cons_of_mem _ (ih (.inl later))
      · exact List.mem_cons_of_mem _ (ih (.inr same))

namespace Extract

open Template Mask Text

/-! ### Calls of the helper -/

/-- A call names the helper. -/
def CallsHelper (helper : Text) (call : Call Unit) : Prop :=
  ∃ path, call.callee = .path .blank path ∧ path.written = helper

/-- The only operand of a call is a string. -/
def HasKey (call : Call Unit) (key : Text) : Prop := call.params = [.literal .blank (.string key)]

theorem callsHelper_iff {helper : Text} {call : Call Span} :
    callsHelper helper call = true ↔ CallsHelper helper (Expr.callShape call) := by
  obtain ⟨callee, params, named⟩ := call
  unfold callsHelper CallsHelper
  cases callee with
  | path label path => simp [Expr.callShape, Expr.shape]
  | literal label value => simp [Expr.callShape, Expr.shape]
  | sub label call => simp [Expr.callShape, Expr.shape]

theorem keyOf?_iff {call : Call Span} {key : Text} :
    keyOf? call = some key ↔ HasKey (Expr.callShape call) key := by
  obtain ⟨callee, params, named⟩ := call
  unfold keyOf? HasKey
  rcases params with _ | ⟨param, _ | ⟨other, more⟩⟩
  · simp [Expr.callShape, Expr.listShape]
  · rcases param with ⟨label, path⟩ | ⟨label, value⟩ | ⟨label, call⟩
    · simp [Expr.callShape, Expr.listShape, Expr.shape]
    · cases value <;> simp [Expr.callShape, Expr.listShape, Expr.shape]
    · simp [Expr.callShape, Expr.listShape, Expr.shape]
  · simp [Expr.callShape, Expr.listShape]

/-- Every call of the helper has a string as its only operand. -/
def WellUsed (helper : Text) (calls : List (Call Unit)) : Prop :=
  ∀ call ∈ calls, CallsHelper helper call → ∃ key, HasKey call key

/-- The helper is called with a key. -/
def Uses (helper : Text) (calls : List (Call Unit)) (key : Text) : Prop :=
  ∃ call ∈ calls, CallsHelper helper call ∧ HasKey call key

/-! ### Collecting keys -/

/-- Adds the key of a node, if it calls the helper. -/
def collectAt (source : String) (helper : Text) (keys : Keys) (node : Node Span) : Except Fault Keys :=
  match callOf? node with
  | none => .ok keys
  | some call => collectKey source helper keys node call

theorem collectAt_ok {source : String} {helper : Text} {keys keys' : Keys} {node : Node Span}
    (h : collectAt source helper keys node = .ok keys') :
    WellUsed helper (callsAt [node]) ∧
      ∀ key, key ∈ Members.names keys' ↔ key ∈ Members.names keys ∨ Uses helper (callsAt [node]) key := by
  unfold collectAt at h
  split at h
  · next noCall =>
    obtain rfl := Except.ok.inj h
    rw [callsAt_cons_none noCall]
    simp [WellUsed, Uses]
  · next call found =>
    rw [callsAt_cons_some found]
    unfold collectKey at h
    split at h
    · next isCall =>
      split at h
      · next key isKey =>
        obtain rfl := Except.ok.inj h
        have isKey := keyOf?_iff.mp isKey
        have only (other : Text) : HasKey (Expr.callShape call) other ↔ other = key := by
          unfold HasKey at isKey ⊢
          simp [isKey, eq_comm]
        refine ⟨by simpa [WellUsed] using fun _ => ⟨key, isKey⟩, fun other => ?_⟩
        rw [Keys.add, Members.mem_names_alter_iff]
        simp [Uses, callsHelper_iff.mp isCall, only]
      · simp at h
    · next other =>
      obtain rfl := Except.ok.inj h
      rw [callsHelper_iff] at other
      simp [WellUsed, Uses, other]

theorem wellUsed_append {helper : Text} {first second : List (Call Unit)} :
    WellUsed helper (first ++ second) ↔ WellUsed helper first ∧ WellUsed helper second :=
  List.forall_mem_append

theorem uses_append {helper : Text} {first second : List (Call Unit)} {key : Text} :
    Uses helper (first ++ second) key ↔ Uses helper first key ∨ Uses helper second key := by
  simp [Uses, or_and_right, exists_or]

theorem callsAt_cons (node : Node Span) (rest : List (Node Span)) :
    callsAt (node :: rest) = callsAt [node] ++ callsAt rest :=
  callsAt_append [node] rest

theorem collectAll_ok {source : String} {helper : Text} {keys keys' : Keys} {nodes : List (Node Span)}
    (h : nodes.foldlM (collectAt source helper) keys = .ok keys') :
    WellUsed helper (callsAt nodes) ∧
      ∀ key, key ∈ Members.names keys' ↔ key ∈ Members.names keys ∨ Uses helper (callsAt nodes) key := by
  induction nodes generalizing keys with
  | nil =>
    obtain rfl := Except.ok.inj h
    simp [WellUsed, Uses]
  | cons node rest ih =>
    obtain ⟨next, here, later⟩ := bind_ok h
    obtain ⟨used, names⟩ := collectAt_ok here
    obtain ⟨usedLater, namesLater⟩ := ih later
    rw [callsAt_cons]
    refine ⟨wellUsed_append.mpr ⟨used, usedLater⟩, fun key => ?_⟩
    rw [namesLater, names, uses_append, or_assoc]

/-! ### Nodes that are met once -/

/-- The nodes that were not met before. -/
def Fresh (visits : Visits) (nodes : List (Node Span)) : Prop :=
  (numbersOf nodes).Nodup ∧ ∀ node ∈ nodes, (keyOwner, node.label.id) ∉ visits

/-- The visits that the collector of keys records at nodes that it meets for the first time. -/
def visitsOf (nodes : List (Node Span)) : Visits :=
  (nodes.filter fun node => (callOf? node).isSome).map fun node => (keyOwner, node.label.id)

theorem mem_visitsOf {nodes : List (Node Span)} {id : Nat} :
    (keyOwner, id) ∈ visitsOf nodes ↔ ∃ node ∈ nodes, (callOf? node).isSome = true ∧ node.label.id = id := by
  simp [visitsOf, and_assoc]

theorem meetKeys_fresh {subject : Subject} {node : Node Span} {visits : Visits} {keys : Keys}
    (fresh : (keyOwner, node.label.id) ∉ visits) :
    meetKeys subject (visits, keys) node =
      collectAt subject.source subject.helper keys node >>= fun keys => .ok (visits ++ visitsOf [node], keys) := by
  have first : firstVisit visits keyOwner node.label.id = (visits ++ [(keyOwner, node.label.id)], true) := by
    simp [firstVisit, fresh]
  unfold meetKeys collectAt visitsOf
  cases found : callOf? node with
  | none => simp [bind, Except.bind, found]
  | some call =>
    simp only [first]
    simp [found]

/-- The collector of keys takes every node that it meets for the first time. -/
theorem meetAllKeys_fresh {subject : Subject} {nodes : List (Node Span)} {visits : Visits} {keys : Keys}
    (fresh : Fresh visits nodes) :
    nodes.foldlM (meetKeys subject) (visits, keys) =
      nodes.foldlM (collectAt subject.source subject.helper) keys >>= fun keys =>
        .ok (visits ++ visitsOf nodes, keys) := by
  induction nodes generalizing visits keys with
  | nil => simp [visitsOf, bind, Except.bind, pure, Except.pure]
  | cons node rest ih =>
    obtain ⟨distinct, unseen⟩ := fresh
    rw [numbersOf_cons, List.nodup_cons] at distinct
    have freshRest : Fresh (visits ++ visitsOf [node]) rest := by
      refine ⟨distinct.2, fun other member seen => ?_⟩
      rcases List.mem_append.mp seen with before | here
      · exact unseen other (List.mem_cons_of_mem _ member) before
      · obtain ⟨same, isNode, -, sameId⟩ := mem_visitsOf.mp here
        obtain rfl := List.mem_singleton.mp isNode
        exact distinct.1 (List.mem_map.mpr ⟨other, member, sameId.symm⟩)
    rw [List.foldlM_cons, List.foldlM_cons, meetKeys_fresh (unseen node List.mem_cons_self)]
    cases collectAt subject.source subject.helper keys node with
    | error fault => rfl
    | ok next =>
      refine (ih freshRest).trans (congrArg _ (funext fun keys => ?_))
      rw [List.append_assoc, visitsOf, visitsOf, visitsOf, ← List.map_append, ← List.filter_append]
      rfl

theorem collectAll_fresh {subject : Subject} {nodes : List (Node Span)} {visits : Visits} {keys : Keys}
    {state : Visits × Keys} (fresh : Fresh visits nodes)
    (met : nodes.foldlM (meetKeys subject) (visits, keys) = .ok state) :
    nodes.foldlM (collectAt subject.source subject.helper) keys = .ok state.2 := by
  rw [meetAllKeys_fresh fresh] at met
  obtain ⟨found, collected, done⟩ := bind_ok met
  obtain rfl := Except.ok.inj done
  exact collected

/-! ### Whole analyses -/

theorem fresh_nodes {text : Text} {tree : Program Extent} (parsed : parse text = .ok tree) :
    Fresh [] (tree.mapRange text.span).nodes := by
  obtain ⟨_, -, numbers⟩ := nodes_numbers parsed
  exact ⟨numbers.nodup, by simp⟩

theorem callsAt_mapRange (tree : Program Extent) (text : Text) (call : Call Unit) :
    call ∈ callsAt (tree.mapRange text.span).nodes ↔ call ∈ (tree.mapRange text.span).calls :=
  (callsAt_nodes _).mem_iff

theorem wellUsed_congr {helper : Text} {first second : List (Call Unit)}
    (same : ∀ call, call ∈ first ↔ call ∈ second) : WellUsed helper first ↔ WellUsed helper second := by
  simp only [WellUsed, same]

theorem uses_congr {helper : Text} {first second : List (Call Unit)}
    (same : ∀ call, call ∈ first ↔ call ∈ second) (key : Text) :
    Uses helper first key ↔ Uses helper second key := by
  simp only [Uses, same]

/-- An analysis that ends finds the keys that the helper is called with. -/
theorem Analysed.keys {helper : Text} {template : Template} {findings : Findings}
    (h : Analysed helper template findings) :
    WellUsed helper template.program.calls ∧
      ∀ key, key ∈ Members.names findings.keys ↔ Uses helper template.program.calls key := by
  obtain ⟨loaded, visits, done⟩ := h
  obtain ⟨tree, parsed, eq⟩ := load_parsed loaded
  rw [eq] at done ⊢
  obtain ⟨-, -, collected⟩ := (analyse_apart (by decide)).mp (Outcome.eq_of_result done)
  obtain ⟨used, names⟩ := collectAll_ok (collectAll_fresh (fresh_nodes parsed) collected)
  refine ⟨(wellUsed_congr (callsAt_mapRange tree template.text)).mp used, fun key => (names key).trans ?_⟩
  rw [or_iff_right (by simp [Members.names])]
  exact uses_congr (callsAt_mapRange tree template.text) key

end Extract

end Phrasebook
