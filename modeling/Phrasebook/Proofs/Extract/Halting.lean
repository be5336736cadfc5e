import Phrasebook.Proofs.Extract.Together

/-!
Why a whole analysis stops, whatever it is for. A template that was read has all the lines that its
nodes speak of, and its texts are found in order, so an analysis stops for a reason that lies in the
template.
-/

namespace Phrasebook.Extract

open Template Mask Markup Text

/-- Why the analysis of a template that was read may stop. -/
inductive Halts : Fault → Prop where
  | reserved (reserved : Reserved) : Halts (.reserved reserved)
  | violation (violation : Violation) : Halts (.violation violation)
  | longReference (digits : Nat) : Halts (.longReference digits)
  | refused : Halts .refused

theorem bind_error {α β ε : Type} {first : Except ε α} {next : α → Except ε β} {fault : ε}
    (failed : first >>= next = .error fault) :
    first = .error fault ∨ ∃ value, first = .ok value ∧ next value = .error fault := by
  cases first with
  | error other => exact .inl (congrArg Except.error (Except.error.inj failed))
  | ok value => exact .inr ⟨value, rfl, failed⟩

/-! ### Walks -/

/-- The collector of keys has met a call of the helper without a key. -/
def Misused (helper : Text) (fault : Fault) : Prop := ∃ place, fault = .violation ⟨.helperUsage helper, place⟩

theorem collectKey_misused {source : String} {helper : Text} {keys : Keys} {node : Node Span} {call : Call Span}
    {fault : Fault} (failed : collectKey source helper keys node call = .error fault) : Misused helper fault := by
  unfold collectKey at failed
  split at failed
  · split at failed
    · cases failed
    · exact ⟨_, (Except.error.inj failed).symm⟩
  · cases failed

theorem Visitor.meet_stopped {subject : Subject} {node : Node Span} {visits : Visits} {findings : Findings}
    {visitor : Visitor} {fault : Fault} (failed : visitor.meet subject node visits findings = .error fault) :
    (∃ masking, visitor = .texts masking ∧ masking.visit subject.source node = .error fault) ∨
      Misused subject.helper fault := by
  cases visitor with
  | texts masking =>
    rcases bind_error failed with visited | ⟨next, -, done⟩
    · exact .inl ⟨masking, rfl, visited⟩
    · cases done
  | keys =>
    unfold Visitor.meet at failed
    dsimp only at failed
    split at failed
    · cases failed
    · split at failed
      · cases failed
      · rcases bind_error failed with collected | ⟨keys, -, done⟩
        · exact .inr (collectKey_misused collected)
        · cases done

theorem meetAll_stopped {subject : Subject} {node : Node Span} {visits : Visits} {findings : Findings}
    {visitors : List Visitor} {fault : Fault}
    (failed : meetAll subject node visits findings visitors = .error fault) :
    (∃ masking, .texts masking ∈ visitors ∧ masking.visit subject.source node = .error fault) ∨
      Misused subject.helper fault := by
  induction visitors generalizing visits findings with
  | nil => cases failed
  | cons visitor rest ih =>
    rcases bind_error failed with met | ⟨met, -, failed⟩
    · refine (Visitor.meet_stopped met).imp_left ?_
      rintro ⟨masking, rfl, visited⟩
      exact ⟨masking, List.mem_cons_self, visited⟩
    · rcases bind_error failed with metRest | ⟨_, -, done⟩
      · refine (ih metRest).imp_left ?_
        rintro ⟨masking, isIn, visited⟩
        exact ⟨masking, List.mem_cons_of_mem _ isIn, visited⟩
      · cases done

/-- A walk over nodes of known kinds stops where a visitor for texts would stop by itself, or at a call
of the helper without a key. -/
theorem walk_stopped {subject : Subject} {nodes : List (Node Span)}
    (known : ∀ node ∈ nodes, node.kind.isKnown = true) {walk : Walk} {fault : Fault}
    (failed : nodes.foldlM (Walk.visit subject) walk = .error fault) :
    (∃ masking, .texts masking ∈ walk.visitors ∧ visitAll subject.source masking nodes = .error fault) ∨
      Misused subject.helper fault := by
  induction nodes generalizing walk with
  | nil => cases failed
  | cons node rest ih =>
    obtain ⟨here, later⟩ := List.forall_mem_cons.mp known
    rw [List.foldlM_cons, Walk.visit, if_pos here] at failed
    rcases bind_error failed with stopped | ⟨next, visited, failed⟩
    · rcases bind_error stopped with met | ⟨_, -, done⟩
      · refine (meetAll_stopped met).imp_left ?_
        rintro ⟨masking, isIn, stopped⟩
        refine ⟨masking, isIn, ?_⟩
        rw [visitAll, List.foldlM_cons, stopped]
        rfl
      · cases done
    · refine (ih later failed).imp_left ?_
      rintro ⟨masking, isIn, stopped⟩
      obtain ⟨⟨visitors, visits, findings⟩, met, done⟩ := bind_ok visited
      obtain rfl := Except.ok.inj done
      obtain ⟨earlier, wasIn, step⟩ := (meetAll_aims met).2.2 masking isIn
      exact ⟨earlier, wasIn, (visitAll_cons rest step).trans stopped⟩

theorem start_reserved {subject : Subject} {aims : List Aim} {fault : Fault}
    (failed : aims.mapM (Visitor.start subject) = .error fault) : ∃ reserved, fault = .reserved reserved := by
  induction aims with
  | nil => cases failed
  | cons aim rest ih =>
    rw [List.mapM_cons] at failed
    rcases bind_error failed with here | ⟨_, -, failed⟩
    · cases aim with
      | keys => cases here
      | texts =>
        rcases bind_error here with started | ⟨_, -, done⟩
        · unfold Masking.start at started
          split at started
          · cases started
          · exact ⟨_, (Except.error.inj started).symm⟩
        · cases done
    · rcases bind_error failed with later | ⟨_, -, done⟩
      · exact ih later
      · cases done

/-- Why a walk over a tree stops. -/
inductive WalkStops (subject : Subject) (aims : List Aim) (nodes : List (Node Span)) : Fault → Prop where
  | reserved (reserved : Reserved) : WalkStops subject aims nodes (.reserved reserved)
  | misused {fault : Fault} (misused : Misused subject.helper fault) : WalkStops subject aims nodes fault
  | unmaskable {node : Node Span} {fault : Fault} (asked : .texts ∈ aims) (member : node ∈ nodes)
    (stops : Stops subject.source node fault) : WalkStops subject aims nodes fault

theorem over_stops {subject : Subject} {aims : List Aim} {tree : Program Extent} {fault : Fault}
    (tiled : tree.Tiled subject.text) (range : tree.label.range = ⟨0, subject.text.length⟩)
    (failed : Walk.over subject aims (tree.mapRange subject.text.span) = .error fault) :
    WalkStops subject aims (tree.mapRange subject.text.span).nodes fault := by
  have known : ∀ node ∈ (tree.mapRange subject.text.span).nodes, node.kind.isKnown = true := program_known tiled
  rcases bind_error failed with started | ⟨visitors, started, walked⟩
  · obtain ⟨reserved, rfl⟩ := start_reserved started
    exact .reserved reserved
  · rcases walk_stopped known walked with ⟨masking, isIn, stopped⟩ | misused
    · obtain ⟨sameAims, unmasked⟩ := start_aims started
      obtain ⟨rfl, -⟩ := unmasked masking isIn
      have run := tree_run subject.source tiled range
      rw [stopped] at run
      cases run with
      | stopped member stops =>
        exact .unmaskable (sameAims ▸ List.mem_map_of_mem (f := Visitor.aim) isIn) member stops
    · exact .misused misused

theorem WalkStops.halts {subject : Subject} {aims : List Aim} {nodes : List (Node Span)} {fault : Fault}
    (h : WalkStops subject aims nodes fault) : Halts fault := by
  cases h with
  | reserved reserved => exact .reserved reserved
  | misused misused =>
    obtain ⟨place, rfl⟩ := misused
    exact .violation _
  | unmaskable asked member stops => cases stops <;> exact .violation _

/-! ### Whole analyses -/

/-- Texts are read from a masked buffer unless its markup cannot be. -/
theorem finish_fault {subject : Subject} {visits : Visits} {findings : Findings} {visitors : List Visitor}
    {tiles : List Tile} {fault : Fault} (failed : (finish subject visits findings visitors).result = .error fault)
    (tiling : TilesFrom subject.text subject.text.length 0 tiles)
    (masked : ∀ masking, .texts masking ∈ visitors →
      masking.buffer = (maskedTiles subject.text tiles).lines ∧ ∀ c ∈ subject.text, isReserved c = false) :
    (∃ digits, fault = .longReference digits) ∨ fault = .refused := by
  induction visitors generalizing findings with
  | nil => cases failed
  | cons visitor rest ih =>
    have maskedRest := fun masking (isIn : .texts masking ∈ rest) => masked masking (List.mem_cons_of_mem _ isIn)
    cases visitor with
    | keys => exact ih failed maskedRest
    | texts masking =>
      obtain ⟨isMasked, ordinary⟩ := masked masking List.mem_cons_self
      rw [finish, isMasked] at failed
      rcases readTexts_ends subject.source findings.texts ordinary tiling with
        ⟨⟨texts, read⟩, -⟩ | ⟨⟨digits, read⟩, -⟩ | ⟨read, -⟩
      · rw [read] at failed
        exact ih failed maskedRest
      · rw [read] at failed
        exact .inl ⟨digits, (Except.error.inj failed).symm⟩
      · rw [read] at failed
        exact .inr (Except.error.inj failed).symm

theorem analyseTemplate_halts {helper : Text} {source : String} {text : Text} {template : Template} {aims : List Aim}
    {fault : Fault} (loaded : Template.load source text = .ok template)
    (failed : (analyseTemplate template helper aims).result = .error fault) : Halts fault := by
  obtain ⟨tree, parsed, rfl⟩ := load_parsed loaded
  obtain ⟨tiled, range, -⟩ := parse_tiled parsed
  unfold analyseTemplate analyse at failed
  split at failed
  · next other walked =>
    obtain rfl := Except.error.inj failed
    exact (over_stops tiled range walked).halts
  · next walk walked =>
    rcases finish_fault failed (parse_tilesFrom parsed) (over_masked tiled range walked).2.2 with ⟨digits, rfl⟩ | rfl
    · exact .longReference digits
    · exact .refused

/-- A template with a reserved character is not masked. -/
theorem analyseTemplate_reserved {helper : Text} {source : String} {text : Text} {template : Template}
    {aims : List Aim} {reserved : Reserved} (loaded : Template.load source text = .ok template)
    (failed : (analyseTemplate template helper aims).result = .error (.reserved reserved)) :
    (analyseTemplate template helper aims).masked = [] := by
  obtain ⟨tree, parsed, rfl⟩ := load_parsed loaded
  obtain ⟨tiled, range, -⟩ := parse_tiled parsed
  unfold analyseTemplate analyse at failed ⊢
  split at failed
  · rfl
  · next walk walked =>
    rcases finish_fault failed (parse_tilesFrom parsed) (over_masked tiled range walked).2.2 with ⟨digits, same⟩ | same
    · cases same
    · cases same

/-- A template that was analysed has one masked buffer, with the lines of its text. -/
theorem analyseTemplate_lines {helper : Text} {source : String} {text : Text} {template : Template}
    {found : Findings × Visits} (loaded : Template.load source text = .ok template)
    (done : (analyseTemplate template helper defaultAims).result = .ok found) :
    ∃ buffer, (analyseTemplate template helper defaultAims).masked = [buffer] ∧ buffer.length = text.lines.length := by
  obtain ⟨tree, parsed, rfl⟩ := load_parsed loaded
  obtain ⟨tiled, range, -⟩ := parse_tiled parsed
  obtain ⟨walk, walked, finished⟩ := analyse_ok_iff.mp (Outcome.eq_of_result done)
  obtain ⟨aims, -, masked⟩ := over_masked tiled range walked
  rw [finish_once _ _ _ (by rw [aims]; decide) fun masking isIn => (masked masking isIn).1] at finished
  refine ⟨_, (Outcome.mk.inj finished).1.symm, ?_⟩
  have lengths := congrArg List.length (sameLines_masked parsed).lines_length
  simpa only [List.length_map] using lengths

end Phrasebook.Extract
