import Phrasebook.Extract.Analysis
import Phrasebook.Proofs.Template.Parser
import Phrasebook.Proofs.Extract.Buffer

/-!
The walk over a template, from the text to the masked buffers. Every visitor for texts ends with the
same buffer: the text with one marker over each of its tags.
-/

namespace Phrasebook.Extract

open Template Mask Text

/-! ### Visitors -/

theorem tree_run {text : Text} {tree : Program Extent} (source : String) (tiled : tree.Tiled text)
    (range : tree.label.range = ⟨0, text.length⟩) :
    MaskRun source text (tree.mapRange text.span).nodes text.length
      (maskedTiles text tree.tiles).lines
      (visitAll source ⟨text.lines, ⟨0, 0⟩⟩ (tree.mapRange text.span).nodes) := by
  have bounded : tree.label.range.start ≤ text.length := by simp [range]
  have masked := program_masked source tiled bounded
  rw [range] at masked
  have notMasked : ¬text.position 0 < ⟨0, 0⟩ := by
    rw [position_zero, Position.lt_iff]
    simp
  have run := masked.run [] [] rfl (by simpa [slice_zero_length] using SameLines.refl text) notMasked
  simp only [slice_zero_length, List.nil_append, List.append_nil] at run
  exact run

/-- What a visitor looks for. -/
def Visitor.aim : Visitor → Aim
  | .texts _ => .texts
  | .keys => .keys

theorem triple_inj {α β γ ε : Type} {a a' : α} {b b' : β} {c c' : γ}
    (h : (Except.ok (a, b, c) : Except ε (α × β × γ)) = .ok (a', b', c')) :
    a = a' ∧ b = b' ∧ c = c' := by
  simpa using h

theorem Visitor.meet_aim {subject : Subject} {node : Node Span} {visits visits' : Visits}
    {findings findings' : Findings} {visitor next : Visitor}
    (h : visitor.meet subject node visits findings = .ok (next, visits', findings')) :
    next.aim = visitor.aim ∧ findings'.texts = findings.texts ∧ ∀ masking, next = .texts masking →
      ∃ earlier, visitor = .texts earlier ∧ earlier.visit subject.source node = .ok masking := by
  cases visitor with
  | texts earlier =>
    obtain ⟨masking, visited, done⟩ := bind_ok h
    obtain ⟨rfl, -, rfl⟩ := triple_inj done
    refine ⟨rfl, rfl, fun other same => ⟨earlier, rfl, ?_⟩⟩
    obtain rfl := Visitor.texts.inj same
    exact visited
  | keys =>
    obtain ⟨rfl, texts⟩ : next = .keys ∧ findings'.texts = findings.texts := by
      simp only [Visitor.meet] at h
      split at h
      · obtain ⟨rfl, -, rfl⟩ := triple_inj h
        exact ⟨rfl, rfl⟩
      · split at h
        · obtain ⟨rfl, -, rfl⟩ := triple_inj h
          exact ⟨rfl, rfl⟩
        · obtain ⟨keys, -, done⟩ := bind_ok h
          obtain ⟨rfl, -, rfl⟩ := triple_inj done
          exact ⟨rfl, rfl⟩
    exact ⟨rfl, texts, fun masking same => Visitor.noConfusion same⟩

theorem meetAll_aims {subject : Subject} {node : Node Span} {visits visits' : Visits}
    {findings findings' : Findings} {visitors next : List Visitor}
    (h : meetAll subject node visits findings visitors = .ok (next, visits', findings')) :
    next.map Visitor.aim = visitors.map Visitor.aim ∧ findings'.texts = findings.texts ∧
      ∀ masking, .texts masking ∈ next →
        ∃ earlier, .texts earlier ∈ visitors ∧ earlier.visit subject.source node = .ok masking := by
  induction visitors generalizing visits findings visits' findings' next with
  | nil =>
    obtain ⟨rfl, -, rfl⟩ := triple_inj h
    simp
  | cons visitor rest ih =>
    obtain ⟨⟨first, visits₁, findings₁⟩, met, h⟩ := bind_ok h
    obtain ⟨⟨others, visits₂, findings₂⟩, metRest, h⟩ := bind_ok h
    obtain ⟨rfl, -, rfl⟩ := triple_inj h
    obtain ⟨aim, texts, visited⟩ := Visitor.meet_aim met
    obtain ⟨aims, textsRest, visitedRest⟩ := ih metRest
    refine ⟨by simp [aim, aims], textsRest.trans texts, fun masking member => ?_⟩
    rcases List.mem_cons.mp member with same | later
    · obtain ⟨earlier, rfl, step⟩ := visited masking same.symm
      exact ⟨earlier, List.mem_cons_self, step⟩
    · obtain ⟨earlier, here, step⟩ := visitedRest masking later
      exact ⟨earlier, List.mem_cons_of_mem _ here, step⟩

/-- Every visitor for texts of a walk comes from one that has visited the same nodes. -/
theorem walk_aims {subject : Subject} {nodes : List (Node Span)} {walk result : Walk}
    (h : nodes.foldlM (Walk.visit subject) walk = .ok result) :
    result.visitors.map Visitor.aim = walk.visitors.map Visitor.aim ∧
      result.findings.texts = walk.findings.texts ∧
      ∀ masking, .texts masking ∈ result.visitors →
        ∃ earlier, .texts earlier ∈ walk.visitors ∧
          visitAll subject.source earlier nodes = .ok masking := by
  induction nodes generalizing walk with
  | nil =>
    obtain rfl := Except.ok.inj h
    exact ⟨rfl, rfl, fun masking member => ⟨masking, member, rfl⟩⟩
  | cons node rest ih =>
    obtain ⟨next, step, h⟩ := bind_ok h
    obtain ⟨aims, texts, visited⟩ := ih h
    unfold Walk.visit at step
    split at step
    · obtain ⟨⟨visitors, visits, findings⟩, met, step⟩ := bind_ok step
      obtain rfl := Except.ok.inj step
      obtain ⟨aims', texts', visited'⟩ := meetAll_aims met
      refine ⟨aims.trans aims', texts.trans texts', fun masking member => ?_⟩
      obtain ⟨middle, here, run⟩ := visited masking member
      obtain ⟨earlier, first, step⟩ := visited' middle here
      exact ⟨earlier, first, by rw [visitAll_cons rest step]; exact run⟩
    · simp at step

theorem start_ok {source : String} {text : Text} {masking : Masking}
    (h : Masking.start source text = .ok masking) :
    masking = ⟨text.lines, ⟨0, 0⟩⟩ ∧ ∀ c ∈ text, isReserved c = false := by
  unfold Masking.start at h
  split at h
  · next accepted =>
    exact ⟨(Except.ok.inj h).symm, (rejectReserved_ok_iff source text).mp accepted⟩
  · simp at h

theorem start_aims {subject : Subject} {aims : List Aim} {visitors : List Visitor}
    (h : aims.mapM (Visitor.start subject) = .ok visitors) :
    visitors.map Visitor.aim = aims ∧ ∀ masking, .texts masking ∈ visitors →
      masking = ⟨subject.text.lines, ⟨0, 0⟩⟩ ∧ ∀ c ∈ subject.text, isReserved c = false := by
  induction aims generalizing visitors with
  | nil =>
    obtain rfl := Except.ok.inj h
    simp
  | cons aim rest ih =>
    rw [List.mapM_cons] at h
    obtain ⟨visitor, started, h⟩ := bind_ok h
    obtain ⟨others, startedRest, h⟩ := bind_ok h
    obtain rfl := Except.ok.inj h
    obtain ⟨aims, startedTexts⟩ := ih startedRest
    cases aim with
    | texts =>
      obtain ⟨masking, accepted, started⟩ := bind_ok started
      obtain rfl := Except.ok.inj started
      refine ⟨by simp [aims, Visitor.aim], fun other member => ?_⟩
      rcases List.mem_cons.mp member with same | later
      · obtain rfl := Visitor.texts.inj same
        exact start_ok accepted
      · exact startedTexts other later
    | keys =>
      obtain rfl := Except.ok.inj started
      refine ⟨by simp [aims, Visitor.aim], fun other member => ?_⟩
      exact startedTexts other (by simpa using member)

/-- A walk that ends leaves every visitor for texts with the masked text. -/
theorem over_masked {subject : Subject} {aims : List Aim} {tree : Program Extent} {walk : Walk}
    (tiled : tree.Tiled subject.text) (range : tree.label.range = ⟨0, subject.text.length⟩)
    (walked : Walk.over subject aims (tree.mapRange subject.text.span) = .ok walk) :
    walk.visitors.map Visitor.aim = aims ∧ walk.findings.texts = [] ∧
      ∀ masking, .texts masking ∈ walk.visitors →
        masking.buffer = (maskedTiles subject.text tree.tiles).lines ∧
          ∀ c ∈ subject.text, isReserved c = false := by
  obtain ⟨visitors, started, visited⟩ := bind_ok walked
  obtain ⟨aims, startedTexts⟩ := start_aims started
  obtain ⟨same, texts, visitedTexts⟩ := walk_aims visited
  refine ⟨same.trans aims, texts, fun masking member => ?_⟩
  obtain ⟨earlier, first, run⟩ := visitedTexts masking member
  obtain ⟨rfl, ordinary⟩ := startedTexts earlier first
  have ends := tree_run subject.source tiled range
  rw [run] at ends
  cases ends with
  | done reached maskable => exact ⟨rfl, ordinary⟩

/-- The buffers that an analysis hands out are those of its visitors for texts. -/
theorem finish_masked (subject : Subject) (visits : Visits) (findings : Findings)
    (visitors : List Visitor) :
    (∀ buffer ∈ (finish subject visits findings visitors).masked,
        ∃ masking, .texts masking ∈ visitors ∧ buffer = masking.buffer) ∧
      (.texts ∈ visitors.map Visitor.aim →
        (finish subject visits findings visitors).masked ≠ []) := by
  induction visitors generalizing findings with
  | nil => simp [finish]
  | cons visitor rest ih =>
    cases visitor with
    | keys =>
      obtain ⟨buffers, present⟩ := ih findings
      refine ⟨fun buffer member => ?_, fun here => present (by simpa [Visitor.aim] using here)⟩
      obtain ⟨masking, later, same⟩ := buffers buffer member
      exact ⟨masking, List.mem_cons_of_mem _ later, same⟩
    | texts masking =>
      rw [finish]
      split
      · exact ⟨fun buffer member => ⟨masking, List.mem_cons_self, by simpa using member⟩, by simp⟩
      · next texts read =>
        refine ⟨fun buffer member => ?_, by simp⟩
        rcases List.mem_cons.mp member with rfl | later
        · exact ⟨masking, List.mem_cons_self, rfl⟩
        · obtain ⟨other, here, same⟩ := (ih { findings with texts }).1 buffer later
          exact ⟨other, List.mem_cons_of_mem _ here, same⟩

theorem finish_keys (subject : Subject) (visits : Visits) (findings : Findings)
    {visitors : List Visitor} (none : .texts ∉ visitors.map Visitor.aim) :
    finish subject visits findings visitors = ⟨[], .ok (findings, visits)⟩ := by
  induction visitors with
  | nil => rfl
  | cons visitor rest ih =>
    rw [List.map_cons, List.mem_cons, not_or] at none
    cases visitor with
    | texts masking => exact absurd rfl none.1
    | keys => exact ih none.2

theorem finish_once (subject : Subject) (visits : Visits) (findings : Findings)
    {visitors : List Visitor} {buffer : Buffer}
    (once : (visitors.map Visitor.aim).count .texts = 1)
    (masked : ∀ masking, .texts masking ∈ visitors → masking.buffer = buffer) :
    finish subject visits findings visitors =
      ⟨[buffer], do
        let texts ← readTexts subject.source subject.text.lines buffer findings.texts
        .ok ({ findings with texts }, visits)⟩ := by
  induction visitors with
  | nil => simp at once
  | cons visitor rest ih =>
    cases visitor with
    | keys =>
      refine ih ?_ fun masking member => masked masking (List.mem_cons_of_mem _ member)
      simpa [Visitor.aim] using once
    | texts masking =>
      have noTexts : Aim.texts ∉ rest.map Visitor.aim := by
        rw [← List.count_eq_zero]
        simpa [Visitor.aim] using once
      rw [finish, masked masking List.mem_cons_self]
      cases readTexts subject.source subject.text.lines buffer findings.texts with
      | error fault => rfl
      | ok texts =>
        simp only [finish_keys subject visits _ noTexts]
        rfl

theorem sameLines_masked {text : Text} {tree : Program Extent} (parsed : parse text = .ok tree) :
    SameLines (maskedTiles text tree.tiles) text := by
  have lines := sameLines_maskedTiles text tree.tiles
  rwa [(parse_tilesFrom parsed).tilesText, slice_zero_length] at lines

/-- The buffers of an analysis whose walk ends, joined, are the text with one marker over each tag and
its content unchanged. All lines keep their lengths, and the markers found in a buffer are the tags. -/
theorem analyse_masked_exactly {source : String} {text helper : Text} {aims : List Aim}
    {tree : Program Extent} {walk : Walk} (parsed : parse text = .ok tree)
    (walked : Walk.over ⟨source, text, helper⟩ aims (tree.mapRange text.span) = .ok walk) :
    let outcome := analyseTemplate ⟨source, text, tree.mapRange text.span⟩ helper aims
    (.texts ∈ aims → outcome.masked ≠ []) ∧
      ∀ buffer ∈ outcome.masked,
        Text.ofLines buffer = maskedTiles text tree.tiles ∧
        TilesFrom text text.length 0 tree.tiles ∧
        buffer.map List.length = text.lines.map List.length ∧
        markers (Text.ofLines buffer) = tagExtents tree.tiles := by
  intro outcome
  obtain ⟨tiled, range, -⟩ := parse_tiled parsed
  obtain ⟨sameAims, -, texts⟩ := over_masked tiled range walked
  have tiles := parse_tilesFrom parsed
  have ended : outcome = finish ⟨source, text, helper⟩ walk.visits walk.findings walk.visitors := by
    simp only [outcome, analyseTemplate, analyse, walked]
  obtain ⟨buffers, present⟩ :=
    finish_masked ⟨source, text, helper⟩ walk.visits walk.findings walk.visitors
  rw [sameAims] at present
  rw [ended]
  refine ⟨present, fun buffer member => ?_⟩
  obtain ⟨masking, here, rfl⟩ := buffers buffer member
  obtain ⟨same, ordinary⟩ := texts masking here
  rw [same, ofLines_lines]
  exact ⟨rfl, tiles, (sameLines_masked parsed).lines_length, markers_maskedTiles ordinary tiles⟩

/-- A block with an else tag, a call with arguments and a comment over two lines. -/
theorem analyse_masked_exactly_page :
    ∃ text tree walk, text = tagged "#a" ++ ['x'] ++ tagged "else" ++ tagged "t (f 1)" ++ tagged "/a" ++
        tagged "! b\nc" ++ ['y'] ∧
      parse text = .ok tree ∧
      Walk.over ⟨"page", text, ['t']⟩ [.texts] (tree.mapRange text.span) = .ok walk ∧
      ∀ buffer ∈ (analyseTemplate ⟨"page", text, tree.mapRange text.span⟩ ['t'] [.texts]).masked,
        Text.ofLines buffer = maskedTiles text tree.tiles ∧
          markers (Text.ofLines buffer) = tagExtents tree.tiles := by
  refine ⟨tagged "#a" ++ ['x'] ++ tagged "else" ++ tagged "t (f 1)" ++ tagged "/a" ++
    tagged "! b\nc" ++ ['y'], ?_⟩
  generalize same : tagged "#a" ++ ['x'] ++ tagged "else" ++ tagged "t (f 1)" ++ tagged "/a" ++
    tagged "! b\nc" ++ ['y'] = text
  have runs : ((parse text).toOption.bind fun tree =>
      (Walk.over ⟨"page", text, ['t']⟩ [.texts] (tree.mapRange text.span)).toOption).isSome = true := by
    rw [← same]
    decide +kernel
  obtain ⟨walk, found⟩ := Option.isSome_iff_exists.mp runs
  obtain ⟨tree, read, ended⟩ := Option.bind_eq_some_iff.mp found
  have parsed := ok_of_toOption read
  have walked := ok_of_toOption ended
  refine ⟨tree, walk, rfl, parsed, walked, fun buffer member => ?_⟩
  obtain ⟨exact_, -, -, tags⟩ := (analyse_masked_exactly parsed walked).2 buffer member
  exact ⟨exact_, tags⟩

end Phrasebook.Extract
