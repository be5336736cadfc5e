import Phrasebook.Proofs.Extract.Faults

/-!
# Visitors that share a walk

A walk with several aims does for each of them what a walk of its own would do. `meetAll_apart` says so of a
node, `walk_apart` of all nodes and `analyse_apart` of whole analyses: an analysis ends if every part of it
does. `analyse_together` compares the walk for texts and keys with one walk for each.
-/

namespace Phrasebook.Extract

open Template Mask Text

/-! ### The parts of a walk -/

/-- Lets the collector of keys meet a node. -/
def meetKeys (subject : Subject) (state : Visits × Keys) (node : Node Span) : Except Fault (Visits × Keys) :=
  match callOf? node with
  | none => .ok state
  | some call =>
    match firstVisit state.1 keyOwner node.label.id with
    | (_, false) => .ok state
    | (visits, true) => do .ok (visits, ← collectKey subject.source subject.helper state.2 node call)

/-- The visitor for an aim. -/
def Visitor.working (masking : Masking) : Aim → Visitor
  | .texts => .texts masking
  | .keys => .keys

/-- A walk on its way. -/
def Walk.underway (aims : List Aim) (texts : Texts) (masking : Masking) (state : Visits × Keys) : Walk :=
  ⟨aims.map (Visitor.working masking), state.1, ⟨texts, state.2⟩⟩

/-- Where a part of a walk comes to: as far as its steps lead, or nowhere if the walk does not have it. -/
structure Part {σ : Type} (asked : Prop) (before : σ) (steps : Except Fault σ) (after : σ) : Prop where
  runs : asked → steps = .ok after
  rests : ¬asked → after = before

namespace Part

variable {σ : Type} {asked : Prop} {before after : σ} {steps : Except Fault σ}

theorem iff_of_asked (h : asked) : Part asked before steps after ↔ steps = .ok after :=
  ⟨fun part => part.runs h, fun runs => ⟨fun _ => runs, fun other => absurd h other⟩⟩

theorem iff_of_not (h : ¬asked) : Part asked before steps after ↔ after = before :=
  ⟨fun part => part.rests h, fun rests => ⟨fun other => absurd other h, fun _ => rests⟩⟩

theorem pure_iff : Part asked before (pure before) after ↔ after = before := by
  by_cases h : asked
  · rw [iff_of_asked h, pure_ok_iff, eq_comm]
  · rw [iff_of_not h]

theorem bind_iff {later : σ → Except Fault σ} :
    Part asked before (steps >>= later) after ↔
      ∃ middle, Part asked before steps middle ∧ Part asked middle (later middle) after := by
  by_cases h : asked
  · simp only [iff_of_asked h, bind_ok_iff]
  · simp only [iff_of_not h, exists_eq_left]

end Part

variable {subject : Subject} {aims : List Aim}

theorem meetAll_texts (node : Node Span) (visits : Visits) (findings : Findings) (masking : Masking)
    (rest : List Visitor) :
    meetAll subject node visits findings (.texts masking :: rest) =
      masking.visit subject.source node >>= fun masking =>
        meetAll subject node visits findings rest >>= fun others =>
          .ok (.texts masking :: others.1, others.2) := by
  rw [meetAll, Visitor.meet, bind_assoc]
  rfl

theorem meetAll_keys (node : Node Span) (visits : Visits) (findings : Findings) (rest : List Visitor) :
    meetAll subject node visits findings (.keys :: rest) =
      meetKeys subject (visits, findings.keys) node >>= fun state =>
        meetAll subject node state.1 { findings with keys := state.2 } rest >>= fun others =>
          .ok (.keys :: others.1, others.2) := by
  rw [meetAll, Visitor.meet, meetKeys]
  cases callOf? node with
  | none => rfl
  | some call =>
    dsimp only
    rcases firstVisit visits keyOwner node.label.id with ⟨visits, _ | _⟩
    · rfl
    · cases collectKey subject.source subject.helper findings.keys node call <;> rfl

/-! ### Nodes -/

theorem working_fresh (fresh : .texts ∉ aims) (masking next : Masking) :
    aims.map (Visitor.working masking) = aims.map (Visitor.working next) := by
  refine List.map_congr_left fun aim isIn => ?_
  cases aim with
  | texts => exact absurd isIn fresh
  | keys => rfl

/-- Visitors with different aims meet a node if each of them can, and in each of them the node leaves what
it would leave alone. -/
theorem meetAll_apart (distinct : aims.Nodup) {node : Node Span} {texts : Texts} {masking : Masking}
    {state : Visits × Keys} {result : List Visitor × Visits × Findings} :
    meetAll subject node state.1 ⟨texts, state.2⟩ (aims.map (Visitor.working masking)) = .ok result ↔
      ∃ masking' state', Part (.texts ∈ aims) masking (masking.visit subject.source node) masking' ∧
        Part (.keys ∈ aims) state (meetKeys subject state node) state' ∧
        result = (aims.map (Visitor.working masking'), state'.1, ⟨texts, state'.2⟩) := by
  induction aims generalizing state result with
  | nil =>
    simp only [Part.iff_of_not (List.not_mem_nil), List.map_nil, meetAll, Except.ok.injEq]
    constructor
    · rintro rfl
      exact ⟨masking, state, rfl, rfl, rfl⟩
    · rintro ⟨_, _, rfl, rfl, rfl⟩
      rfl
  | cons aim rest ih =>
    obtain ⟨fresh, later⟩ := List.nodup_cons.mp distinct
    cases aim with
    | texts =>
      have asked : Aim.texts ∈ Aim.texts :: rest := List.mem_cons_self
      have others : Aim.keys ∈ Aim.texts :: rest ↔ Aim.keys ∈ rest := by simp
      rw [List.map_cons, Visitor.working, meetAll_texts]
      simp only [bind_ok_iff, Except.ok.injEq, ih later, Part.iff_of_asked asked, Part.iff_of_not fresh, others]
      -- No visitor for texts is left, so the others are the same for every masking.
      constructor
      · rintro ⟨masking', visited, _, ⟨masking, state', rfl, collected, rfl⟩, rfl⟩
        refine ⟨masking', state', visited, collected, ?_⟩
        rw [List.map_cons, working_fresh fresh masking' masking]
        rfl
      · rintro ⟨masking', state', visited, collected, rfl⟩
        refine ⟨masking', visited, _, ⟨masking, state', rfl, collected, rfl⟩, ?_⟩
        rw [List.map_cons, working_fresh fresh masking' masking]
        rfl
    | keys =>
      have asked : Aim.keys ∈ Aim.keys :: rest := List.mem_cons_self
      have others : Aim.texts ∈ Aim.keys :: rest ↔ Aim.texts ∈ rest := by simp
      rw [List.map_cons, Visitor.working, meetAll_keys]
      simp only [bind_ok_iff, Except.ok.injEq, ih later, Part.iff_of_asked asked, Part.iff_of_not fresh, others]
      constructor
      · rintro ⟨_, collected, _, ⟨masking', state', visited, rfl, rfl⟩, rfl⟩
        exact ⟨masking', state', visited, collected, rfl⟩
      · rintro ⟨masking', state', visited, collected, rfl⟩
        exact ⟨state', collected, _, ⟨masking', state', visited, rfl, rfl⟩, rfl⟩

theorem visit_apart (distinct : aims.Nodup) {node : Node Span} {texts : Texts} {masking : Masking}
    {state : Visits × Keys} {walk : Walk} :
    Walk.visit subject (.underway aims texts masking state) node = .ok walk ↔
      node.kind.isKnown = true ∧
      ∃ masking' state', Part (.texts ∈ aims) masking (masking.visit subject.source node) masking' ∧
        Part (.keys ∈ aims) state (meetKeys subject state node) state' ∧
        walk = .underway aims texts masking' state' := by
  unfold Walk.visit
  split
  · next known =>
    rw [and_iff_right known, bind_ok_iff]
    constructor
    · rintro ⟨met, meets, done⟩
      obtain ⟨masking', state', visited, collected, rfl⟩ := (meetAll_apart distinct).mp meets
      exact ⟨masking', state', visited, collected, (Except.ok.inj done).symm⟩
    · rintro ⟨masking', state', visited, collected, rfl⟩
      exact ⟨_, (meetAll_apart distinct).mpr ⟨masking', state', visited, collected, rfl⟩, rfl⟩
  · next unknown => simp [unknown]

/-- A walk over nodes ends if all of them are known and each of its parts ends. -/
theorem walk_apart (distinct : aims.Nodup) {nodes : List (Node Span)} {texts : Texts} {masking : Masking}
    {state : Visits × Keys} {walk : Walk} :
    nodes.foldlM (Walk.visit subject) (.underway aims texts masking state) = .ok walk ↔
      (∀ node ∈ nodes, node.kind.isKnown = true) ∧
      ∃ masking' state', Part (.texts ∈ aims) masking (visitAll subject.source masking nodes) masking' ∧
        Part (.keys ∈ aims) state (nodes.foldlM (meetKeys subject) state) state' ∧
        walk = .underway aims texts masking' state' := by
  induction nodes generalizing masking state with
  | nil =>
    simp only [List.foldlM_nil, visitAll, pure_ok_iff, Part.pure_iff]
    constructor
    · rintro rfl
      exact ⟨by simp, masking, state, rfl, rfl, rfl⟩
    · rintro ⟨-, _, _, rfl, rfl, rfl⟩
      rfl
  | cons node rest ih =>
    rw [List.foldlM_cons, bind_ok_iff, List.forall_mem_cons]
    simp only [visit_apart distinct, visitAll, List.foldlM_cons, Part.bind_iff]
    constructor
    · rintro ⟨_, ⟨known, masking₁, state₁, visited, collected, rfl⟩, later⟩
      obtain ⟨knownRest, masking', state', visitedRest, collectedRest, rfl⟩ := ih.mp later
      exact ⟨⟨known, knownRest⟩, masking', state', ⟨masking₁, visited, visitedRest⟩,
        ⟨state₁, collected, collectedRest⟩, rfl⟩
    · rintro ⟨⟨known, knownRest⟩, masking', state', ⟨masking₁, visited, visitedRest⟩,
        ⟨state₁, collected, collectedRest⟩, rfl⟩
      exact ⟨_, ⟨known, masking₁, state₁, visited, collected, rfl⟩,
        ih.mpr ⟨knownRest, masking', state', visitedRest, collectedRest, rfl⟩⟩

/-! ### Whole analyses -/

/-- The masking that a visitor for texts starts with. -/
def Masking.unmasked (text : Text) : Masking := ⟨text.lines, ⟨0, 0⟩⟩

theorem start_apart (distinct : aims.Nodup) {visitors : List Visitor} :
    aims.mapM (Visitor.start subject) = .ok visitors ↔
      ∃ masking, Part (.texts ∈ aims) (.unmasked subject.text) (Masking.start subject.source subject.text) masking ∧
        visitors = aims.map (Visitor.working masking) := by
  induction aims generalizing visitors with
  | nil =>
    simp only [Part.iff_of_not List.not_mem_nil, exists_eq_left, List.mapM_nil, pure_ok_iff]
    exact eq_comm
  | cons aim rest ih =>
    obtain ⟨fresh, later⟩ := List.nodup_cons.mp distinct
    simp only [List.mapM_cons, bind_ok_iff, pure_ok_iff, ih later]
    cases aim with
    | texts =>
      have asked : Aim.texts ∈ Aim.texts :: rest := List.mem_cons_self
      simp only [Visitor.start, bind_ok_iff, Except.ok.injEq, Part.iff_of_asked asked, Part.iff_of_not fresh]
      constructor
      · rintro ⟨_, ⟨masking, started, rfl⟩, _, ⟨_, rfl, rfl⟩, rfl⟩
        refine ⟨masking, started, ?_⟩
        rw [List.map_cons, working_fresh fresh masking]
        rfl
      · rintro ⟨masking, started, rfl⟩
        refine ⟨_, ⟨masking, started, rfl⟩, _, ⟨_, rfl, rfl⟩, ?_⟩
        rw [List.map_cons, working_fresh fresh masking]
        rfl
    | keys =>
      have others : Aim.texts ∈ Aim.keys :: rest ↔ Aim.texts ∈ rest := by simp
      simp only [Visitor.start, Except.ok.injEq, exists_eq_left', others]
      constructor
      · rintro ⟨_, ⟨masking, started, rfl⟩, rfl⟩
        exact ⟨masking, started, rfl⟩
      · rintro ⟨masking, started, rfl⟩
        exact ⟨_, ⟨masking, started, rfl⟩, rfl⟩

theorem over_apart (distinct : aims.Nodup) {program : Program Span} {walk : Walk} :
    Walk.over subject aims program = .ok walk ↔
      (∀ node ∈ program.nodes, node.kind.isKnown = true) ∧
      ∃ masking state,
        Part (.texts ∈ aims) (.unmasked subject.text) (Masking.start subject.source subject.text >>= fun masking =>
          visitAll subject.source masking program.nodes) masking ∧
        Part (.keys ∈ aims) ([], []) (program.nodes.foldlM (meetKeys subject) ([], [])) state ∧
        walk = .underway aims [] masking state := by
  have starts (masking : Masking) :
      (⟨aims.map (Visitor.working masking), [], .empty⟩ : Walk) = .underway aims [] masking ([], []) := rfl
  rw [Walk.over, bind_ok_iff]
  simp only [start_apart distinct, Part.bind_iff]
  constructor
  · rintro ⟨_, ⟨first, started, rfl⟩, walked⟩
    rw [starts, walk_apart distinct] at walked
    obtain ⟨known, masking, state, visited, collected, rfl⟩ := walked
    exact ⟨known, masking, state, ⟨first, started, visited⟩, collected, rfl⟩
  · rintro ⟨known, masking, state, ⟨first, started, visited⟩, collected, rfl⟩
    refine ⟨_, ⟨first, started, rfl⟩, ?_⟩
    rw [starts, walk_apart distinct]
    exact ⟨known, masking, state, visited, collected, rfl⟩

theorem finish_working (distinct : aims.Nodup) (visits : Visits) (findings : Findings) (masking : Masking) :
    finish subject visits findings (aims.map (Visitor.working masking)) =
      if .texts ∈ aims then
        ⟨[masking.buffer], do
          let texts ← readTexts subject.source subject.text.lines masking.buffer findings.texts
          .ok ({ findings with texts }, visits)⟩
      else ⟨[], .ok (findings, visits)⟩ := by
  have sameAims : (aims.map (Visitor.working masking)).map Visitor.aim = aims := by
    rw [List.map_map, List.map_id'' fun aim => by cases aim <;> rfl]
  split
  · next asked =>
    refine finish_once subject _ _ ?_ fun other isIn => ?_
    · rw [sameAims]
      exact List.count_eq_one_of_mem distinct asked
    · obtain ⟨aim, -, same⟩ := List.mem_map.mp isIn
      cases aim with
      | texts => exact congrArg Masking.buffer (Visitor.texts.inj same).symm
      | keys => cases same
  · next notAsked =>
    exact finish_keys subject _ _ (by rwa [sameAims])

/-- A walk is finished by reading its texts, if it has an aim for it. What it has besides stays as it is. -/
theorem finish_apart (distinct : aims.Nodup) {masking : Masking} {state : Visits × Keys}
    {masked : List Mask.Buffer} {findings : Findings} {visits : Visits} :
    finish subject state.1 ⟨[], state.2⟩ (aims.map (Visitor.working masking)) = ⟨masked, .ok (findings, visits)⟩ ↔
      (if .texts ∈ aims then masked = [masking.buffer] ∧
          readTexts subject.source subject.text.lines masking.buffer [] = .ok findings.texts
        else masked = [] ∧ findings.texts = []) ∧
      state = (visits, findings.keys) := by
  rw [finish_working distinct, Outcome.mk.injEq]
  split
  · simp only [bind_ok_iff, Except.ok.injEq, Prod.mk.injEq]
    constructor
    · rintro ⟨rfl, texts, read, rfl, rfl⟩
      exact ⟨⟨rfl, read⟩, rfl⟩
    · rintro ⟨⟨rfl, read⟩, rfl⟩
      exact ⟨rfl, _, read, rfl, rfl⟩
  · rw [Except.ok.injEq, Prod.mk.injEq]
    constructor
    · rintro ⟨rfl, rfl, rfl⟩
      exact ⟨⟨rfl, rfl⟩, rfl⟩
    · rintro ⟨⟨rfl, nothing⟩, rfl⟩
      rw [← nothing]
      exact ⟨rfl, rfl, rfl⟩

theorem Outcome.eq_of_result {outcome : Outcome} {found : Findings × Visits} (done : outcome.result = .ok found) :
    outcome = ⟨outcome.masked, .ok found⟩ := by
  rw [← done]

theorem analyse_ok_iff {program : Program Span} {masked : List Mask.Buffer} {found : Findings × Visits} :
    analyse subject aims program = ⟨masked, .ok found⟩ ↔
      ∃ walk, Walk.over subject aims program = .ok walk ∧
        finish subject walk.visits walk.findings walk.visitors = ⟨masked, .ok found⟩ := by
  unfold analyse
  cases Walk.over subject aims program <;> simp

/-- A template's texts are found in a buffer. -/
def TextsFound (subject : Subject) (program : Program Span) (masked : List Mask.Buffer) (texts : Texts) : Prop :=
  ∃ first last, Masking.start subject.source subject.text = .ok first ∧
    visitAll subject.source first program.nodes = .ok last ∧ masked = [last.buffer] ∧
    readTexts subject.source subject.text.lines last.buffer [] = .ok texts

/-- A template's keys are found at the nodes that were visited. -/
def KeysFound (subject : Subject) (program : Program Span) (keys : Keys) (visits : Visits) : Prop :=
  program.nodes.foldlM (meetKeys subject) ([], []) = .ok (visits, keys)

/-- An analysis ends if all nodes are known and each of its parts ends, and it finds what they find. -/
theorem analyse_apart (distinct : aims.Nodup) {program : Program Span} {masked : List Mask.Buffer}
    {findings : Findings} {visits : Visits} :
    analyse subject aims program = ⟨masked, .ok (findings, visits)⟩ ↔
      (∀ node ∈ program.nodes, node.kind.isKnown = true) ∧
      (if .texts ∈ aims then TextsFound subject program masked findings.texts
        else masked = [] ∧ findings.texts = []) ∧
      (if .keys ∈ aims then KeysFound subject program findings.keys visits
        else visits = [] ∧ findings.keys = []) := by
  rw [analyse_ok_iff]
  constructor
  · rintro ⟨_, walked, finished⟩
    obtain ⟨known, masking, state, textsPart, keysPart, rfl⟩ := (over_apart distinct).mp walked
    obtain ⟨ends, rfl⟩ := (finish_apart distinct).mp finished
    refine ⟨known, ?_, ?_⟩
    · split at ends
      · next asked =>
        obtain ⟨first, started, visited⟩ := bind_ok (textsPart.runs asked)
        rw [if_pos asked]
        exact ⟨first, masking, started, visited, ends⟩
      · next notAsked =>
        rwa [if_neg notAsked]
    · split
      · next asked => exact keysPart.runs asked
      · next notAsked => exact Prod.mk.inj (keysPart.rests notAsked)
  · rintro ⟨known, texts, keys⟩
    have keysPart : Part (.keys ∈ aims) ([], []) (program.nodes.foldlM (meetKeys subject) ([], []))
        (visits, findings.keys) := by
      split at keys
      · next asked => exact (Part.iff_of_asked asked).mpr keys
      · next notAsked => exact (Part.iff_of_not notAsked).mpr (Prod.ext keys.1 keys.2)
    split at texts
    · next asked =>
      obtain ⟨first, last, started, visited, ends⟩ := texts
      refine ⟨_, (over_apart distinct).mpr ⟨known, last, _, ?_, keysPart, rfl⟩,
        (finish_apart distinct).mpr ⟨?_, rfl⟩⟩
      · rw [Part.iff_of_asked asked, started]
        exact visited
      · rwa [if_pos asked]
    · next notAsked =>
      refine ⟨_, (over_apart distinct).mpr ⟨known, .unmasked subject.text, _, ?_, keysPart, rfl⟩,
        (finish_apart distinct).mpr ⟨?_, rfl⟩⟩
      · rw [Part.iff_of_not notAsked]
      · rwa [if_neg notAsked]

/-- Texts and keys are looked for in one walk as in two: it ends if and only if the walk for the texts and the
walk for the keys do, and it finds the texts and the buffer of the one, and the keys and visits of the other,
whichever of the visitors comes first. -/
theorem analyse_together (template : Template) (helper : Text) (order : aims.Perm defaultAims) :
    let both := analyseTemplate template helper aims
    let forTexts := analyseTemplate template helper [.texts]
    let forKeys := analyseTemplate template helper [.keys]
    ((∃ found, both.result = .ok found) ↔
      (∃ found, forTexts.result = .ok found) ∧ ∃ found, forKeys.result = .ok found) ∧
    ∀ findings visits, both.result = .ok (findings, visits) →
      forTexts = ⟨both.masked, .ok (⟨findings.texts, []⟩, [])⟩ ∧ forKeys = ⟨[], .ok (⟨[], findings.keys⟩, visits)⟩ := by
  intro both forTexts forKeys
  have distinct : aims.Nodup := order.nodup_iff.mpr (by decide)
  have texts : Aim.texts ∈ aims := order.mem_iff.mpr (by decide)
  have keys : Aim.keys ∈ aims := order.mem_iff.mpr (by decide)
  have apart (findings : Findings) (visits : Visits) (done : both.result = .ok (findings, visits)) :
      forTexts = ⟨both.masked, .ok (⟨findings.texts, []⟩, [])⟩ ∧
        forKeys = ⟨[], .ok (⟨[], findings.keys⟩, visits)⟩ := by
    have parts := (analyse_apart distinct).mp (Outcome.eq_of_result done)
    rw [if_pos texts, if_pos keys] at parts
    obtain ⟨known, textsFound, keysFound⟩ := parts
    exact ⟨(analyse_apart (by decide)).mpr ⟨known, textsFound, rfl, rfl⟩,
      (analyse_apart (by decide)).mpr ⟨known, ⟨rfl, rfl⟩, keysFound⟩⟩
  refine ⟨⟨?_, ?_⟩, apart⟩
  · rintro ⟨⟨findings, visits⟩, done⟩
    obtain ⟨forTexts, forKeys⟩ := apart findings visits done
    exact ⟨⟨_, congrArg Outcome.result forTexts⟩, _, congrArg Outcome.result forKeys⟩
  · rintro ⟨⟨⟨withTexts, _⟩, textsDone⟩, ⟨withKeys, visits⟩, keysDone⟩
    obtain ⟨known, textsFound, -⟩ := (analyse_apart (by decide)).mp (Outcome.eq_of_result textsDone)
    obtain ⟨-, -, keysFound⟩ := (analyse_apart (by decide)).mp (Outcome.eq_of_result keysDone)
    have done : both = ⟨forTexts.masked, .ok (⟨withTexts.texts, withKeys.keys⟩, visits)⟩ := by
      refine (analyse_apart distinct).mpr ?_
      rw [if_pos texts, if_pos keys]
      exact ⟨known, textsFound, keysFound⟩
    exact ⟨_, congrArg Outcome.result done⟩

/-- A text behind a call of the helper, with the collector of keys registered first. -/
theorem analyse_together_keys_first :
    [Aim.keys, .texts].Perm defaultAims ∧ ∃ template findings visits,
      Template.load "page" (tagged "t 'a'" ++ ['x']) = .ok template ∧
      (analyseTemplate template ['t'] [.keys, .texts]).result = .ok (findings, visits) ∧
      (Members.names findings.texts, Members.names findings.keys) = ([['x']], [['a']]) ∧
      analyseTemplate template ['t'] [.texts] =
        ⟨(analyseTemplate template ['t'] [.keys, .texts]).masked, .ok (⟨findings.texts, []⟩, [])⟩ ∧
      analyseTemplate template ['t'] [.keys] = ⟨[], .ok (⟨[], findings.keys⟩, visits)⟩ := by
  have order : [Aim.keys, .texts].Perm defaultAims := by decide
  have runs : (((Template.load "page" (tagged "t 'a'" ++ ['x'])).toOption.bind fun template =>
      (analyseTemplate template ['t'] [.keys, .texts]).result.toOption).map fun found =>
        (Members.names found.1.texts, Members.names found.1.keys)) = some ([['x']], [['a']]) := by
    decide +kernel
  obtain ⟨⟨findings, visits⟩, found, names⟩ := Option.map_eq_some_iff.mp runs
  obtain ⟨template, read, ended⟩ := Option.bind_eq_some_iff.mp found
  have done := ok_of_toOption ended
  have apart := (analyse_together template ['t'] order).2 findings visits done
  exact ⟨order, template, findings, visits, ok_of_toOption read, done, names, apart⟩

end Phrasebook.Extract
