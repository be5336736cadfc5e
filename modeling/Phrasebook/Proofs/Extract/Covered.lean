import Phrasebook.Proofs.Edit.Substitution
import Phrasebook.Proofs.Extract.Texts
import Phrasebook.Proofs.Markup.Recast

/-!
# Texts that go under markers

The texts of a masked template that are chosen go under markers, and nothing else changes. `Covered` is what
becomes of a run, `textRuns_covered` what becomes of all runs: the new text is read in the same runs, and
what stands in them between markers is blank or one of the texts that were not chosen.
-/

namespace Phrasebook.Extract

open Template Mask Markup Text ChangeSet

/-! ### Cut at markers -/

/-- A text of ordinary parts with markers between them. -/
inductive Cut : Text → Prop where
  | last {part : Text} (plain : ∀ c ∈ part, isReserved c = false) : Cut part
  | marker {part marker rest : Text} (plain : ∀ c ∈ part, isReserved c = false) (is : IsMarker marker)
    (later : Cut rest) : Cut (part ++ (marker ++ rest))

theorem Cut.cons {c : Char} {text : Text} (ordinary : isReserved c = false) (h : Cut text) : Cut (c :: text) := by
  cases h with
  | last plain => exact .last (List.forall_mem_cons.mpr ⟨ordinary, plain⟩)
  | marker plain is later =>
    rw [← List.cons_append]
    exact .marker (List.forall_mem_cons.mpr ⟨ordinary, plain⟩) is later

theorem cut_of_wellMarked {text : Text} (h : WellMarked text) : Cut text := by
  induction h with
  | nil => exact .last (by simp)
  | plain ordinary _ ih => exact ih.cons ordinary
  | marker is _ ih => exact @Cut.marker [] _ _ (by simp) is ih

/-- The parts of a text that stands at an offset. -/
def partsAt (offset : Nat) (text : Text) : List (Nat × Text) := unmarked.go 0 offset offset [] text

theorem unmarked_go_plain {plain : Text} (ordinary : ∀ c ∈ plain, isReserved c = false) (rest : Text)
    (offset start : Nat) (part : Text) :
    unmarked.go 0 offset start part (plain ++ rest) =
      unmarked.go 0 (offset + plain.length) start (plain.reverse ++ part) rest := by
  induction plain generalizing offset part with
  | nil => rfl
  | cons c more ih =>
    obtain ⟨here, later⟩ := List.forall_mem_cons.mp ordinary
    have notStart : c ≠ startChar := by
      rintro rfl
      simp [isReserved] at here
    rw [List.cons_append, unmarked.go, markerLength?_of_ne notStart]
    simp only
    rw [ih later, List.length_cons, List.reverse_cons, List.append_assoc, List.singleton_append]
    congr 1
    omega

theorem partsAt_last {part : Text} (plain : ∀ c ∈ part, isReserved c = false) (offset : Nat) :
    partsAt offset part = [(offset, part)] := by
  have read := unmarked_go_plain plain [] offset offset []
  rw [List.append_nil, List.append_nil] at read
  rw [partsAt, read, unmarked.go, List.reverse_reverse]

theorem partsAt_marker {part marker : Text} (plain : ∀ c ∈ part, isReserved c = false) (is : IsMarker marker)
    (rest : Text) (offset : Nat) :
    partsAt offset (part ++ (marker ++ rest)) =
      (offset, part) :: partsAt (offset + (part.length + marker.length)) rest := by
  rw [partsAt, unmarked_go_plain plain, unmarked_go_marker is, List.append_nil, List.reverse_reverse, Nat.add_assoc]
  rfl

theorem Cut.partsAt_add {text : Text} (h : Cut text) (distance offset : Nat) :
    partsAt (distance + offset) text = (partsAt offset text).map fun part => (distance + part.1, part.2) := by
  induction h generalizing offset with
  | last plain => rw [partsAt_last plain, partsAt_last plain, List.map_singleton]
  | marker plain is _ ih => rw [partsAt_marker plain is, partsAt_marker plain is, Nat.add_assoc, ih, List.map_cons]

theorem partsOf_cons (run : TextRun) (rest : List TextRun) (h : WellMarked run.raw) :
    partsOf (run :: rest) = partsAt run.offset run.raw ++ partsOf rest := by
  have here := (cut_of_wellMarked h).partsAt_add run.offset 0
  rw [Nat.add_zero] at here
  rw [here]
  rfl

/-! ### Texts that are chosen -/

/-- The key for a text as it is written, if it is to be put into a call. -/
def chosenKey? (all : Bool) (written : Text) : Option Text :=
  (unescape written).toOption.filter fun key => all || key.hasLetter

/-- The edit of a part, if its text is to be put into a call. -/
def partEdit? (all : Bool) (part : Nat × Text) : Option (Extent × Text) :=
  (trimmed? part).bind fun extent => (chosenKey? all (strip part.2)).map fun key => (extent, key)

/-- The edits of parts. -/
def partEdits (all : Bool) (parts : List (Nat × Text)) : List (Extent × Text) := parts.filterMap (partEdit? all)

section Covered

/-- A text that is not put into a call. -/
def Stays (all : Bool) (written : Text) : Prop := written ≠ [] ∧ chosenKey? all written = none

/-- A part whose text stays as it is, or goes under a marker if it is chosen. -/
inductive PartCovered (mark : Text → Text) (all : Bool) : Text → Text → Prop where
  | blank {part : Text} (none : strip part = []) : PartCovered mark all part part
  | stays {part : Text} (stays : Stays all (strip part)) : PartCovered mark all part part
  | covered {lead text trail key : Text} (front : ∀ c ∈ lead, isBlank c = true) (back : ∀ c ∈ trail, isBlank c = true)
    (stripped : strip (lead ++ (text ++ trail)) = text)
    (edit : ∀ offset, partEdit? all (offset, lead ++ (text ++ trail)) =
      some (⟨offset + lead.length, offset + (lead.length + text.length)⟩, key)) :
    PartCovered mark all (lead ++ (text ++ trail)) (lead ++ (mark key ++ trail))

/-- A run whose texts stay as they are, or go under markers if they are chosen. -/
inductive Covered (mark : Text → Text) (all : Bool) : Text → Text → Prop where
  | last {part part' : Text} (plain : ∀ c ∈ part, isReserved c = false) (here : PartCovered mark all part part') :
    Covered mark all part part'
  | marker {part part' marker rest rest' : Text} (plain : ∀ c ∈ part, isReserved c = false)
    (here : PartCovered mark all part part') (is : IsMarker marker) (later : Covered mark all rest rest') :
    Covered mark all (part ++ (marker ++ rest)) (part' ++ (marker ++ rest'))

variable {mark : Text → Text} {all : Bool}

theorem exists_partCovered (part : Text) : ∃ part', PartCovered mark all part part' := by
  by_cases isBlank : strip part = []
  · exact ⟨part, .blank isBlank⟩
  cases found : chosenKey? all (strip part) with
  | none => exact ⟨part, .stays ⟨isBlank, found⟩⟩
  | some key =>
    obtain ⟨lead, trail, whole, front, back, skipped⟩ := strip_parts part
    obtain ⟨text, isText⟩ : ∃ text, strip part = text := ⟨_, rfl⟩
    rw [isText, List.append_assoc] at whole
    rw [isText] at found isBlank
    subst whole
    refine ⟨lead ++ (mark key ++ trail), .covered front back isText fun offset => ?_⟩
    simp only [partEdit?, trimmed?, isText, List.isEmpty_eq_false_iff.mpr isBlank, skipped, found, Nat.add_assoc]
    rfl

theorem exists_covered {raw : Text} (h : WellMarked raw) : ∃ raw', Covered mark all raw raw' := by
  have cut := cut_of_wellMarked h
  clear h
  induction cut with
  | @last part plain =>
    obtain ⟨part', here⟩ := @exists_partCovered mark all part
    exact ⟨part', .last plain here⟩
  | @marker part marker rest plain is _ ih =>
    obtain ⟨part', here⟩ := @exists_partCovered mark all part
    obtain ⟨rest', later⟩ := ih
    exact ⟨_, .marker plain here is later⟩

/-! ### Replaced ranges -/

theorem PartCovered.substitute {part part' : Text} (h : PartCovered mark all part part') (before after : Text) :
    Text.substitute (before ++ (part ++ after)) before.length (before.length + part.length)
        ((partEdits all [(before.length, part)]).map (marked mark)) = part' := by
  have whole : before ++ (part ++ after) = before ++ part ++ after := by rw [List.append_assoc]
  have same : (before ++ (part ++ after) : Text).slice before.length (before.length + part.length) = part := by
    rw [whole]
    exact slice_append_of_length rfl rfl
  have kept (none : partEdit? all (before.length, part) = none) :
      Text.substitute (before ++ (part ++ after)) before.length (before.length + part.length)
        ((partEdits all [(before.length, part)]).map (marked mark)) = part := by
    rw [partEdits, List.filterMap_cons_none none, List.filterMap_nil, List.map_nil, Text.substitute, same]
  cases h with
  | blank none => exact kept (by simp [partEdit?, trimmed?, none])
  | stays stays => exact kept (by simp [partEdit?, stays.2])
  | @covered lead text trail key front back stripped edit =>
    rw [partEdits, List.filterMap_cons_some (edit before.length), List.filterMap_nil, List.map_singleton, marked,
      Text.substitute, Text.substitute]
    have first : (before ++ (lead ++ (text ++ trail) ++ after) : Text).slice before.length
        (before.length + lead.length) = lead := by
      have parts : before ++ (lead ++ (text ++ trail) ++ after) = before ++ lead ++ (text ++ trail ++ after) := by simp
      rw [parts]
      exact slice_append_of_length rfl rfl
    have last : (before ++ (lead ++ (text ++ trail) ++ after) : Text).slice
        (before.length + (lead.length + text.length)) (before.length + (lead ++ (text ++ trail)).length) = trail := by
      have parts : before ++ (lead ++ (text ++ trail) ++ after) = before ++ lead ++ text ++ trail ++ after := by simp
      rw [parts]
      exact slice_append_of_length (by simp) (by simp [Nat.add_assoc])
    rw [first, last, List.append_assoc]

theorem PartCovered.edits_within {part part' : Text} (h : PartCovered mark all part part') (offset : Nat) :
    ∀ edit ∈ partEdits all [(offset, part)], offset ≤ edit.1.start ∧ edit.1.stop ≤ offset + part.length := by
  cases h with
  | blank none => simp [partEdits, partEdit?, trimmed?, none]
  | stays stays => simp [partEdits, partEdit?, stays.2]
  | covered front back stripped edit =>
    rw [partEdits, List.filterMap_cons_some (edit offset)]
    simp

theorem partEdits_append (first second : List (Nat × Text)) :
    partEdits all (first ++ second) = partEdits all first ++ partEdits all second :=
  List.filterMap_append

theorem Covered.edits_within {raw raw' : Text} (h : Covered mark all raw raw') (offset : Nat) :
    ∀ edit ∈ partEdits all (partsAt offset raw), offset ≤ edit.1.start ∧ edit.1.stop ≤ offset + raw.length := by
  induction h generalizing offset with
  | last plain here =>
    rw [partsAt_last plain]
    exact here.edits_within offset
  | @marker part part' marker rest rest' plain here is _ ih =>
    rw [partsAt_marker plain is, ← List.singleton_append, partEdits_append]
    intro edit member
    simp only [List.length_append]
    rcases List.mem_append.mp member with first | later
    · have := here.edits_within offset edit first
      omega
    · have := ih _ edit later
      omega

theorem Covered.substitute {raw raw' : Text} (h : Covered mark all raw raw') (before after : Text) :
    Text.substitute (before ++ (raw ++ after)) before.length (before.length + raw.length)
        ((partEdits all (partsAt before.length raw)).map (marked mark)) = raw' := by
  induction h generalizing before with
  | last plain here =>
    rw [partsAt_last plain]
    exact here.substitute before after
  | @marker part part' marker rest rest' plain here is later ih =>
    have whole : before ++ (part ++ (marker ++ rest) ++ after) =
        before ++ part ++ marker ++ (rest ++ after) := by simp
    have reached : (before ++ part ++ marker).length = before.length + (part.length + marker.length) := by
      simp only [List.length_append]
      omega
    have stop : before.length + (part ++ (marker ++ rest)).length =
        before.length + (part.length + marker.length) + rest.length := by
      simp only [List.length_append]
      omega
    have first := here.substitute before (marker ++ (rest ++ after))
    have middle : (before ++ part ++ marker ++ (rest ++ after) : Text).slice (before.length + part.length)
        (before.length + (part.length + marker.length)) = marker :=
      slice_append_of_length (by simp) (by simp [Nat.add_assoc])
    have last := ih (before ++ part ++ marker)
    rw [reached] at last
    have regroup : before ++ (part ++ (marker ++ (rest ++ after))) = before ++ part ++ marker ++ (rest ++ after) := by
      simp
    rw [regroup] at first
    rw [partsAt_marker plain is, ← List.singleton_append, partEdits_append, List.map_append, whole, stop,
      substitute_stretch _ (Nat.le_add_right _ part.length) (by omega) (Nat.le_add_right _ _) _ _, first, middle, last]
    · exact List.forall_mem_map.mpr fun edit member => (here.edits_within _ edit member).2
    · exact List.forall_mem_map.mpr fun edit member => (later.edits_within _ edit member).1

/-! ### What is left between markers -/

theorem isInert_of_mem {marker : Text} (is : IsMarker marker) {c : Char} (member : c ∈ marker) : isInert c = true := by
  rcases is.mem member with reserved | rfl
  · simp only [isReserved, Bool.or_eq_true, decide_eq_true_eq] at reserved
    rcases reserved with (rfl | rfl) | rfl <;> decide
  · decide

/-- The texts of some parts that stay are calm. -/
def StaysCalm (all : Bool) (parts : List (Nat × Text)) : Prop :=
  ∀ part ∈ parts, Stays all (strip part.2) → Calm (strip part.2)

theorem calm_between {lead text trail : Text} (front : ∀ c ∈ lead, isInert c = true)
    (back : ∀ c ∈ trail, isInert c = true) (h : Calm text) : Calm (lead ++ (text ++ trail)) := by
  refine Calm.behind front (h.append (calm_of_inert back) fun c member => ?_)
  exact isNeutral_of_isInert (back c (List.mem_of_head? member))

theorem calm_part {part : Text} (h : Calm (strip part)) : Calm part := by
  obtain ⟨lead, trail, whole, front, back, -⟩ := strip_parts part
  rw [whole, List.append_assoc]
  exact calm_between (fun c member => isInert_of_isBlank (front c member))
    (fun c member => isInert_of_isBlank (back c member)) h

theorem PartCovered.calm (isMarker : ∀ key, IsMarker (mark key)) {part part' : Text}
    (h : PartCovered mark all part part') (calm : Stays all (strip part) → Calm (strip part)) : Calm part' := by
  cases h with
  | blank none => exact calm_part (none ▸ calm_of_inert (by simp))
  | stays stays => exact calm_part (calm stays)
  | covered front back stripped edit =>
    exact calm_between (fun c member => isInert_of_isBlank (front c member))
      (fun c member => isInert_of_isBlank (back c member)) (calm_of_inert fun c => isInert_of_mem (isMarker _))

theorem Covered.calm (isMarker : ∀ key, IsMarker (mark key)) {raw raw' : Text} (h : Covered mark all raw raw')
    {offset : Nat} (calm : StaysCalm all (partsAt offset raw)) : Calm raw' := by
  induction h generalizing offset with
  | last plain here =>
    rw [partsAt_last plain] at calm
    exact here.calm isMarker (calm _ List.mem_cons_self)
  | @marker part part' marker rest rest' plain here is _ ih =>
    rw [partsAt_marker plain is] at calm
    obtain ⟨first, later⟩ := List.forall_mem_cons.mp calm
    refine (here.calm isMarker first).append ((ih later).behind fun c => isInert_of_mem is) fun c member => ?_
    obtain ⟨c', more, rfl⟩ := List.exists_cons_of_length_pos is.length_pos
    obtain rfl : c' = c := Option.some.inj member
    exact isNeutral_of_isInert (isInert_of_mem is List.mem_cons_self)

/-- What stands in a run between markers is blank or a text of the old run that stays. -/
def Remains (all : Bool) (parts : List (Nat × Text)) (text : Text) : Prop :=
  text = [] ∨ ∃ part ∈ parts, strip part.2 = text ∧ Stays all text

theorem Remains.mono {parts parts' : List (Nat × Text)} (subset : parts ⊆ parts') {text : Text}
    (h : Remains all parts text) : Remains all parts' text :=
  h.imp_right fun ⟨part, member, rest⟩ => ⟨part, subset member, rest⟩

theorem ordinary_of_blank {text : Text} (blank : ∀ c ∈ text, isBlank c = true) : ∀ c ∈ text, isReserved c = false :=
  fun c member => isReserved_of_isBlank (blank c member)

theorem PartCovered.remains (isMarker : ∀ key, IsMarker (mark key)) {part part' : Text}
    (plain : ∀ c ∈ part, isReserved c = false) (h : PartCovered mark all part part') {marker : Text}
    (is : IsMarker marker) (rest : Text) (offset offset' : Nat) :
    (∀ found ∈ partsAt offset part', Remains all [(offset', part)] (strip found.2)) ∧
      ∃ front, (∀ found ∈ front, Remains all [(offset', part)] (strip found.2)) ∧
        partsAt offset (part' ++ (marker ++ rest)) =
          front ++ partsAt (offset + (part'.length + marker.length)) rest := by
  have same (remains : Remains all [(offset', part)] (strip part)) :
      (∀ found ∈ partsAt offset part, Remains all [(offset', part)] (strip found.2)) ∧
      ∃ front, (∀ found ∈ front, Remains all [(offset', part)] (strip found.2)) ∧
        partsAt offset (part ++ (marker ++ rest)) =
          front ++ partsAt (offset + (part.length + marker.length)) rest := by
    rw [partsAt_last plain, partsAt_marker plain is]
    exact ⟨by simpa using remains, [(offset, part)], by simpa using remains, rfl⟩
  cases h with
  | blank none => exact same (.inl none)
  | stays stays => exact same (.inr ⟨_, List.mem_cons_self, rfl, stays⟩)
  | @covered lead text trail key front back stripped edit =>
    have blank {text : Text} (isBlank : ∀ c ∈ text, Text.isBlank c = true) (parts : List (Nat × Text)) :
        Remains all parts (strip text) := .inl (strip_blanks isBlank)
    have trailed : lead ++ (mark key ++ trail) ++ (marker ++ rest) =
        lead ++ (mark key ++ (trail ++ (marker ++ rest))) := by simp
    have long : offset + ((lead ++ (mark key ++ trail)).length + marker.length) =
        offset + (lead.length + (mark key).length) + (trail.length + marker.length) := by
      simp only [List.length_append]
      omega
    rw [trailed, long, partsAt_marker (ordinary_of_blank front) (isMarker key),
      partsAt_marker (ordinary_of_blank front) (isMarker key), partsAt_last (ordinary_of_blank back),
      partsAt_marker (ordinary_of_blank back) is]
    have both : ∀ found ∈ [(offset, lead), (offset + (lead.length + (mark key).length), trail)],
        Remains all [(offset', lead ++ (text ++ trail))] (strip found.2) := by
      simpa using ⟨blank front _, blank back _⟩
    exact ⟨both, _, both, rfl⟩

theorem Covered.remains (isMarker : ∀ key, IsMarker (mark key)) {raw raw' : Text} (h : Covered mark all raw raw')
    (offset offset' : Nat) : ∀ found ∈ partsAt offset raw', Remains all (partsAt offset' raw) (strip found.2) := by
  induction h generalizing offset offset' with
  | last plain here =>
    rw [partsAt_last plain]
    exact (here.remains isMarker plain (isMarker []) [] offset offset').1
  | @marker part part' marker rest rest' plain here is _ ih =>
    obtain ⟨-, front, first, split⟩ := here.remains isMarker plain is rest' offset offset'
    rw [split, partsAt_marker plain is]
    refine List.forall_mem_append.mpr ⟨fun found member => ?_, fun found member => ?_⟩
    · exact (first found member).mono (by simp)
    · exact (ih _ _ found member).mono (List.subset_cons_self _ _)

theorem PartCovered.filled (isMarker : ∀ key, IsMarker (mark key)) {part part' : Text}
    (h : PartCovered mark all part part') : part' = [] ↔ part = [] := by
  cases h with
  | blank none => rfl
  | stays stays => rfl
  | @covered lead text trail key front back stripped edit =>
    have filled : mark key ≠ [] := List.ne_nil_of_length_pos (isMarker key).length_pos
    have notEmpty : text ≠ [] := by
      rintro rfl
      have noExtent : trimmed? (0, lead ++ ([] ++ trail)) = none := by simp only [trimmed?, stripped]; rfl
      have found := edit 0
      rw [partEdit?, noExtent] at found
      cases found
    simp [filled, notEmpty]

theorem Covered.filled (isMarker : ∀ key, IsMarker (mark key)) {raw raw' : Text} (h : Covered mark all raw raw') :
    raw' = [] ↔ raw = [] := by
  cases h with
  | last plain here => exact here.filled isMarker
  | marker plain here is later =>
    have filled := List.ne_nil_of_length_pos is.length_pos
    simp [filled]

/-- Nothing new comes into a run but characters of markers. -/
theorem PartCovered.mem (isMarker : ∀ key, IsMarker (mark key)) {part part' : Text}
    (h : PartCovered mark all part part') {c : Char} (member : c ∈ part') : c ∈ part ∨ isReserved c = true ∨ c = '\n' := by
  cases h with
  | blank none => exact .inl member
  | stays stays => exact .inl member
  | covered front back stripped edit =>
    simp only [List.mem_append] at member ⊢
    rcases member with inLead | inMark | inTrail
    · exact .inl (.inl inLead)
    · exact .inr ((isMarker _).mem inMark)
    · exact .inl (.inr (.inr inTrail))

theorem Covered.mem (isMarker : ∀ key, IsMarker (mark key)) {raw raw' : Text} (h : Covered mark all raw raw')
    {c : Char} (member : c ∈ raw') : c ∈ raw ∨ isReserved c = true ∨ c = '\n' := by
  induction h with
  | last plain here => exact here.mem isMarker member
  | marker plain here is _ ih =>
    simp only [List.mem_append] at member ⊢
    rcases member with inPart | inMarker | inRest
    · exact (here.mem isMarker inPart).imp_left .inl
    · exact .inl (.inr (.inl inMarker))
    · exact (ih inRest).imp_left fun member => .inr (.inr member)

theorem Covered.recast (isMarker : ∀ key, IsMarker (mark key)) {block other : Block}
    (markup : other.markup = block.markup) (h : Covered mark all block.run other.run) {offset : Nat}
    (calm : StaysCalm all (partsAt offset block.run)) : Recast block other where
  markup := markup
  filled := h.filled isMarker
  calm := h.calm isMarker calm
  quotes := fun quote isQuote member => by
    refine (h.mem isMarker member).resolve_right fun other => ?_
    rcases isQuote with rfl | rfl <;> exact absurd other (by decide)

/-! ### Whole texts -/

/-- A block whose run is covered. -/
def BlockCovered (mark : Text → Text) (all : Bool) (block other : Block) : Prop :=
  Covered mark all block.run other.run ∧ other.markup = block.markup

/-- Elements that all have a counterpart have a list of counterparts. -/
theorem exists_forall₂ {α β : Type} {fits : α → β → Prop} {items : List α}
    (each : ∀ item ∈ items, ∃ value, fits item value) : ∃ values, List.Forall₂ fits items values := by
  induction items with
  | nil => exact ⟨[], .nil⟩
  | cons item rest ih =>
    obtain ⟨⟨value, here⟩, later⟩ := List.forall_mem_cons.mp each
    obtain ⟨values, tail⟩ := ih later
    exact ⟨value :: values, .cons here tail⟩

theorem exists_blocksCovered {blocks : List Block} (wellMarked : ∀ block ∈ blocks, WellMarked block.run) :
    ∃ others, List.Forall₂ (BlockCovered mark all) blocks others := by
  refine exists_forall₂ fun block isBlock => ?_
  obtain ⟨run, covered⟩ := @exists_covered mark all _ (wellMarked block isBlock)
  exact ⟨⟨run, block.markup⟩, covered, rfl⟩

theorem partEdits_runsAt_cons (block : Block) (rest : List Block) (offset : Nat) (wellMarked : WellMarked block.run) :
    partEdits all (partsOf (runsAt offset (block :: rest))) =
      partEdits all (partsAt offset block.run) ++
        partEdits all (partsOf (runsAt (offset + block.text.length) rest)) := by
  rw [runsAt]
  split
  · next empty =>
    rw [List.isEmpty_iff.mp empty, partsAt_last (by simp), List.nil_append]
    rfl
  · rw [List.singleton_append, partsOf_cons _ _ wellMarked, partEdits_append]

theorem partEdits_runsAt_from {blocks others : List Block} (h : List.Forall₂ (BlockCovered mark all) blocks others)
    (wellMarked : ∀ block ∈ blocks, WellMarked block.run) (offset : Nat) :
    ∀ edit ∈ partEdits all (partsOf (runsAt offset blocks)), offset ≤ edit.1.start := by
  induction h generalizing offset with
  | nil => simp [runsAt, partsOf, partEdits]
  | @cons block other blocks others covered _ ih =>
    obtain ⟨here, later⟩ := List.forall_mem_cons.mp wellMarked
    rw [partEdits_runsAt_cons _ _ _ here]
    intro edit member
    rcases List.mem_append.mp member with inBlock | behind
    · exact (covered.1.edits_within offset edit inBlock).1
    · have := ih later _ edit behind
      omega

theorem substitute_blocks {blocks others : List Block} (h : List.Forall₂ (BlockCovered mark all) blocks others)
    (wellMarked : ∀ block ∈ blocks, WellMarked block.run) (before : Text) :
    Text.substitute (before ++ textOfBlocks blocks) before.length (before.length + (textOfBlocks blocks).length)
        ((partEdits all (partsOf (runsAt before.length blocks))).map (marked mark)) = textOfBlocks others := by
  induction h generalizing before with
  | nil => simp [runsAt, partsOf, partEdits, Text.substitute, textOfBlocks, slice_self]
  | @cons block other blocks others covered rest ih =>
    obtain ⟨here, later⟩ := List.forall_mem_cons.mp wellMarked
    obtain ⟨covered, markup⟩ := covered
    have parts : textOfBlocks (block :: blocks) = block.run ++ (block.markup ++ textOfBlocks blocks) := by
      rw [← List.append_assoc]
      rfl
    have parts' : textOfBlocks (other :: others) = other.run ++ (block.markup ++ textOfBlocks others) := by
      rw [← markup, ← List.append_assoc]
      rfl
    have reached : before.length + block.text.length = (before ++ block.run ++ block.markup).length := by
      simp only [Block.text, List.length_append]
      omega
    have stop : before.length + (textOfBlocks (block :: blocks)).length =
        (before ++ block.run ++ block.markup).length + (textOfBlocks blocks).length := by
      simp only [parts, List.length_append]
      omega
    have first := covered.substitute before (block.markup ++ textOfBlocks blocks)
    have middle : (before ++ block.run ++ block.markup ++ textOfBlocks blocks : Text).slice
        (before.length + block.run.length) (before ++ block.run ++ block.markup).length = block.markup :=
      slice_append_of_length (by simp) (by simp only [List.length_append])
    have last := ih later (before ++ block.run ++ block.markup)
    have whole : before ++ (block.run ++ (block.markup ++ textOfBlocks blocks)) =
        before ++ block.run ++ block.markup ++ textOfBlocks blocks := by simp
    rw [whole] at first
    rw [partEdits_runsAt_cons _ _ _ here, List.map_append, parts', stop, reached, parts, whole,
      substitute_stretch _ (Nat.le_add_right _ block.run.length) (by simp only [List.length_append]; omega)
        (Nat.le_add_right _ _) _ _, first, middle, last]
    · exact List.forall_mem_map.mpr fun edit member => (covered.edits_within _ edit member).2
    · exact List.forall_mem_map.mpr fun edit member => partEdits_runsAt_from rest later _ edit member

theorem wellMarked_marker {marker : Text} (is : IsMarker marker) : WellMarked marker := by
  rw [← List.append_nil marker]
  exact .marker is .nil

theorem PartCovered.wellMarked (isMarker : ∀ key, IsMarker (mark key)) {part part' : Text}
    (plain : ∀ c ∈ part, isReserved c = false) (h : PartCovered mark all part part') : WellMarked part' := by
  cases h with
  | blank none => exact wellMarked_of_plain plain
  | stays stays => exact wellMarked_of_plain plain
  | covered front back stripped edit =>
    exact (wellMarked_of_plain (ordinary_of_blank front)).append
      ((wellMarked_marker (isMarker _)).append (wellMarked_of_plain (ordinary_of_blank back)))

theorem Covered.wellMarked (isMarker : ∀ key, IsMarker (mark key)) {raw raw' : Text} (h : Covered mark all raw raw') :
    WellMarked raw' := by
  induction h with
  | last plain here => exact here.wellMarked isMarker plain
  | marker plain here is _ ih => exact (here.wellMarked isMarker plain).append ((wellMarked_marker is).append ih)

theorem remains_runsAt (isMarker : ∀ key, IsMarker (mark key)) {blocks others : List Block}
    (h : List.Forall₂ (BlockCovered mark all) blocks others) (wellMarked : ∀ block ∈ blocks, WellMarked block.run)
    (offset offset' : Nat) : ∀ part ∈ partsOf (runsAt offset' others),
      Remains all (partsOf (runsAt offset blocks)) (strip part.2) := by
  induction h generalizing offset offset' with
  | nil => simp [runsAt, partsOf]
  | @cons block other blocks others covered _ ih =>
    obtain ⟨here, later⟩ := List.forall_mem_cons.mp wellMarked
    have behind := ih later (offset + block.text.length) (offset' + other.text.length)
    have filled := covered.1.filled isMarker
    rw [runsAt, runsAt]
    by_cases empty : block.run = []
    · simpa [empty, filled.mpr empty] using behind
    · have occupied : other.run ≠ [] := fun vacant => empty (filled.mp vacant)
      rw [if_neg (by simpa using occupied), if_neg (by simpa using empty), List.singleton_append, List.singleton_append,
        partsOf_cons _ _ (covered.1.wellMarked isMarker), partsOf_cons _ _ here]
      refine List.forall_mem_append.mpr ⟨fun part member => ?_, fun part member => ?_⟩
      · exact (covered.1.remains isMarker offset' offset part member).mono (List.subset_append_left _ _)
      · exact (behind part member).mono (List.subset_append_right _ _)

/-- A text that ends open behind a marker ends open by itself. -/
theorem endsOpen_behind {before marker text : Text} (is : IsMarker marker) (h : EndsOpen (before ++ marker ++ text)) :
    EndsOpen text := by
  obtain ⟨middle, -, rfl⟩ := is
  obtain ⟨front, c, parts, letter⟩ := h
  have last {first second : Text} {c d : Char} (same : first ++ [c] = second ++ [d]) : first = second ∧ c = d :=
    (List.append_inj' same rfl).imp_right fun same => (List.cons.inj same).1
  have regroup : front ++ ['&', c] = front ++ ['&'] ++ [c] := by simp
  rw [regroup, ← List.cons_append, ← List.append_assoc] at parts
  rcases List.eq_nil_or_concat text with rfl | ⟨shorter, _, rfl⟩
  · rw [List.append_nil] at parts
    obtain ⟨-, rfl⟩ := last parts
    exact absurd letter (by decide)
  · rw [List.concat_eq_append, ← List.append_assoc] at parts
    obtain ⟨inFront, rfl⟩ := last parts
    rcases List.eq_nil_or_concat shorter with rfl | ⟨shortest, _, rfl⟩
    · rw [List.append_nil] at inFront
      exact absurd (last inFront).2 (by decide)
    · rw [List.concat_eq_append, ← List.append_assoc] at inFront
      obtain ⟨-, rfl⟩ := last inFront
      exact ⟨shortest, _, by simp, letter⟩

/-- The end of a text stays closed when ranges of it go under markers. -/
theorem endsOpen_substitute (isMarker : ∀ key, IsMarker (mark key)) {text : Text} {edits : List (Extent × Text)}
    (h : EndsOpen (Text.substitute text 0 text.length (edits.map (marked mark)))) : EndsOpen text := by
  rcases List.eq_nil_or_concat edits with rfl | ⟨front, ⟨extent, key⟩, rfl⟩
  · rwa [List.map_nil, Text.substitute, slice_zero_length] at h
  · rw [List.concat_eq_append, List.map_append, List.map_singleton, marked, substitute_concat] at h
    have behind := (endsOpen_behind (isMarker key) h).append (text.take extent.stop)
    have rest : text.slice extent.stop text.length = text.drop extent.stop := by
      rw [slice, ← List.length_drop, List.take_length]
    rwa [rest, List.take_append_drop] at behind

theorem recast_of_covered (isMarker : ∀ key, IsMarker (mark key)) {blocks others : List Block}
    (h : List.Forall₂ (BlockCovered mark all) blocks others) (wellMarked : ∀ block ∈ blocks, WellMarked block.run)
    {offset : Nat} (calm : StaysCalm all (partsOf (runsAt offset blocks))) : List.Forall₂ Recast blocks others := by
  induction h generalizing offset with
  | nil => exact .nil
  | @cons block other blocks others covered _ ih =>
    obtain ⟨here, later⟩ := List.forall_mem_cons.mp wellMarked
    rw [runsAt] at calm
    by_cases empty : block.run = []
    · rw [if_pos (by simpa using empty), List.nil_append] at calm
      have blockCalm : StaysCalm all (partsAt 0 block.run) := by
        rw [empty, partsAt_last (by simp)]
        intro part member stays
        obtain rfl := List.mem_singleton.mp member
        exact absurd rfl stays.1
      exact .cons (covered.1.recast isMarker covered.2 blockCalm) (ih later calm)
    · rw [if_neg (by simpa using empty), List.singleton_append, partsOf_cons _ _ here] at calm
      obtain ⟨first, behind⟩ := List.forall_mem_append.mp calm
      exact .cons (covered.1.recast isMarker covered.2 first) (ih later behind)

theorem mem_runsAt {blocks : List Block} {block : Block} (member : block ∈ blocks) (filled : block.run ≠ []) (offset : Nat) :
    ∃ place, ⟨block.run, place⟩ ∈ runsAt offset blocks := by
  induction blocks generalizing offset with
  | nil => cases member
  | cons first rest ih =>
    rw [runsAt]
    rcases List.mem_cons.mp member with rfl | later
    · exact ⟨offset, by simp [filled]⟩
    · obtain ⟨place, here⟩ := ih later (offset + first.text.length)
      exact ⟨place, List.mem_append_right _ here⟩

/-- Texts that are chosen go under markers, the others stay. If those are calm, the new text is read in runs in
which nothing else is left. -/
theorem textRuns_covered (isMarker : ∀ key, IsMarker (mark key)) {masked : Text} {runs : List TextRun}
    (wellMarked : WellMarked masked) (read : textRuns masked = .ok runs) (closed : ¬EndsOpen masked)
    (calm : StaysCalm all (partsOf runs)) :
    ∃ runs', textRuns (Text.substitute masked 0 masked.length ((partEdits all (partsOf runs)).map (marked mark))) =
        .ok runs' ∧
      ∀ part ∈ partsOf runs', Remains all (partsOf runs) (strip part.2) := by
  obtain ⟨blocks, joined, sound, isRuns⟩ := textRuns_blocks read closed
  have runsFrom := textRuns_from read
  have each : ∀ block ∈ blocks, WellMarked block.run := by
    intro block member
    by_cases empty : block.run = []
    · rw [empty]
      exact .nil
    · obtain ⟨place, isRun⟩ := mem_runsAt member empty 0
      rw [isRuns] at isRun
      obtain ⟨reached, rest, here⟩ := runsFrom.of_mem isRun
      obtain ⟨before, after, rfl, -, -, settled, ends, -⟩ := here.block
      exact wellMarked_run wellMarked settled ends
  obtain ⟨others, covered⟩ := @exists_blocksCovered mark all _ each
  have replaced := substitute_blocks covered each []
  simp only [List.nil_append, List.length_nil, Nat.zero_add, joined, isRuns] at replaced
  rw [← isRuns] at calm
  refine ⟨_, ?_, isRuns ▸ remains_runsAt isMarker covered each 0 0⟩
  rw [replaced]
  refine textRuns_recast sound (recast_of_covered isMarker covered each calm) fun open_ => closed ?_
  rw [← replaced] at open_
  exact endsOpen_substitute isMarker open_

end Covered

end Phrasebook.Extract
