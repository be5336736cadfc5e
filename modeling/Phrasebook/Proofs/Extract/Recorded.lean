import Phrasebook.Proofs.Extract.Texts
import Phrasebook.Proofs.Extract.Walk
import Phrasebook.Proofs.Json.Members
import Mathlib.Data.List.Pairwise

/-!
The texts that an analysis records. Every key has the places of the ranges whose text it is, in the
order of the template; the places of all keys together are the ranges of texts, each recorded once.
-/

namespace Phrasebook.Extract

open Template Mask Markup Text

/-! ### Recording in turn -/

/-- The ranges among some whose text is the given key. -/
def rangesOf (text : Text) (extents : List Extent) (key : Text) : List Extent :=
  extents.filter fun extent => (unescape (text.slice extent.start extent.stop)).toOption = some key

/-- The texts of ranges of a template, each at the places of its ranges. -/
structure Recorded (source : String) (text : Text) (extents : List Extent) (texts : Texts) : Prop where
  distinct : (Members.names texts).Nodup
  places (key : Text) : (Members.get? texts key).getD [] =
    (rangesOf text extents key).map fun extent => ⟨source, text.span extent⟩
  keyed : ∀ extent ∈ extents, ∃ key, unescape (text.slice extent.start extent.stop) = .ok key

theorem Recorded.nil (source : String) (text : Text) : Recorded source text [] [] where
  distinct := List.nodup_nil
  places _ := rfl
  keyed := by simp

theorem Recorded.step {source : String} {text : Text} {extents : List Extent} {texts texts' : Texts}
    {extent : Extent} (h : Recorded source text extents texts)
    (recorded : recordAt source text texts extent = .ok texts') :
    Recorded source text (extents ++ [extent]) texts' := by
  unfold recordAt at recorded
  split at recorded
  · simp at recorded
  · next key isKey =>
    obtain rfl := Except.ok.inj recorded
    refine ⟨Members.nodup_names_alter h.distinct _ _, fun other => ?_, ?_⟩
    · have before := h.places other
      rw [rangesOf, List.filter_append, List.map_append, ← rangesOf, ← before, Texts.add]
      by_cases same : key = other
      · subst same
        rw [Members.get?_alter_self]
        simp [isKey, Except.toOption]
      · rw [Members.get?_alter_of_ne _ same]
        simp [isKey, Except.toOption, same]
    · intro other member
      rcases List.mem_append.mp member with earlier | here
      · exact h.keyed other earlier
      · obtain rfl := List.mem_singleton.mp here
        exact ⟨key, isKey⟩

theorem Recorded.run {source : String} {text : Text} {seen extents : List Extent}
    {texts texts' : Texts} (h : Recorded source text seen texts)
    (recorded : extents.foldlM (recordAt source text) texts = .ok texts') :
    Recorded source text (seen ++ extents) texts' := by
  induction extents generalizing seen texts with
  | nil =>
    obtain rfl := Except.ok.inj recorded
    rwa [List.append_nil]
  | cons extent rest ih =>
    obtain ⟨next, first, later⟩ := bind_ok recorded
    have := ih (h.step first) later
    rwa [List.append_assoc, List.singleton_append] at this

theorem Recorded.entry {source : String} {text : Text} {extents : List Extent} {texts : Texts}
    (h : Recorded source text extents texts) {key : Text} {places : List Location}
    (member : (key, places) ∈ texts) :
    places = (rangesOf text extents key).map fun extent => ⟨source, text.span extent⟩ := by
  have found := h.places key
  rwa [Members.get?_of_mem h.distinct member, Option.getD_some] at found

theorem mem_rangesOf {text : Text} {extents : List Extent} {key : Text} {extent : Extent} :
    extent ∈ rangesOf text extents key ↔
      extent ∈ extents ∧ unescape (text.slice extent.start extent.stop) = .ok key := by
  rw [rangesOf, List.mem_filter, decide_eq_true_eq]
  refine and_congr_right fun _ => ?_
  cases unescape (text.slice extent.start extent.stop) <;> simp [Except.toOption]

theorem Recorded.covers {source : String} {text : Text} {extents : List Extent} {texts : Texts}
    (h : Recorded source text extents texts) {extent : Extent} (member : extent ∈ extents) :
    ∃ key places, (key, places) ∈ texts ∧ ⟨source, text.span extent⟩ ∈ places := by
  obtain ⟨key, isKey⟩ := h.keyed extent member
  have found := h.places key
  have here : (⟨source, text.span extent⟩ : Location) ∈ (Members.get? texts key).getD [] := by
    rw [found]
    exact List.mem_map.mpr ⟨extent, mem_rangesOf.mpr ⟨member, isKey⟩, rfl⟩
  cases known : Members.get? texts key with
  | none => simp [known] at here
  | some places =>
    rw [known] at here
    exact ⟨key, places, Members.mem_of_get? known, here⟩

theorem Recorded.inOrder {source : String} {text : Text} {extents : List Extent} {texts : Texts}
    (h : Recorded source text extents texts)
    (ordered : extents.Pairwise fun first second => first.stop ≤ second.start) {key : Text}
    {places : List Location} (member : (key, places) ∈ texts) :
    places.Pairwise fun first second => first.span.stop ≤ second.span.start := by
  rw [h.entry member, List.pairwise_map]
  refine (List.Pairwise.filter _ ordered).imp fun {first second} behind => ?_
  exact position_le_iff.mpr behind

/-- Two places stand one behind the other, whatever the keys they belong to. -/
theorem Recorded.apart {source : String} {text : Text} {extents : List Extent} {texts : Texts}
    (h : Recorded source text extents texts)
    (ordered : extents.Pairwise fun first second => first.stop ≤ second.start) :
    (texts.flatMap Prod.snd).Pairwise fun first second =>
      first.span.stop ≤ second.span.start ∨ second.span.stop ≤ first.span.start := by
  have symm : Std.Symm fun first second : Extent =>
      first.stop ≤ second.start ∨ second.stop ≤ first.start := ⟨fun _ _ => Or.symm⟩
  have either : extents.Pairwise fun first second =>
      first.stop ≤ second.start ∨ second.stop ≤ first.start := ordered.imp .inl
  rw [List.pairwise_flatMap]
  refine ⟨fun entry member => (h.inOrder ordered member).imp .inl, ?_⟩
  have distinct := h.distinct
  rw [Members.names, List.nodup_iff_pairwise_ne, List.pairwise_map] at distinct
  refine distinct.imp_of_mem fun {one other} isEntry isOther different place here place' there => ?_
  rw [h.entry isEntry] at here
  rw [h.entry isOther] at there
  obtain ⟨extent, inRanges, rfl⟩ := List.mem_map.mp here
  obtain ⟨extent', inRanges', rfl⟩ := List.mem_map.mp there
  obtain ⟨isExtent, isKey⟩ := mem_rangesOf.mp inRanges
  obtain ⟨isExtent', isKey'⟩ := mem_rangesOf.mp inRanges'
  -- A range has one text, so ranges under different keys differ.
  have apart : extent ≠ extent' := by
    rintro rfl
    exact different (Except.ok.inj (isKey.symm.trans isKey'))
  exact (either.forall isExtent isExtent' apart).imp position_le_iff.mpr position_le_iff.mpr

/-! ### Analyses -/

theorem exists_texts {visitors : List Visitor} (h : .texts ∈ visitors.map Visitor.aim) :
    ∃ masking, .texts masking ∈ visitors := by
  obtain ⟨visitor, member, isTexts⟩ := List.mem_map.mp h
  cases visitor with
  | texts masking => exact ⟨masking, member⟩
  | keys => simp [Visitor.aim] at isTexts

/-- An analysis that ends with one visitor for texts hands out the masked text and records the ranges
of its runs. -/
theorem analyse_recorded {source : String} {text helper : Text} {aims : List Aim}
    {tree : Program Extent} {findings : Findings} {visits : Visits} (parsed : parse text = .ok tree)
    (once : aims.count .texts = 1)
    (done : (analyseTemplate ⟨source, text, tree.mapRange text.span⟩ helper aims).result =
      .ok (findings, visits)) :
    (analyseTemplate ⟨source, text, tree.mapRange text.span⟩ helper aims).masked =
        [(maskedTiles text tree.tiles).lines] ∧
      (∀ c ∈ text, isReserved c = false) ∧
      ∃ runs, textRuns (maskedTiles text tree.tiles) = .ok runs ∧
        Recorded source text (textExtents runs) findings.texts := by
  obtain ⟨tiled, range, -⟩ := parse_tiled parsed
  rw [analyseTemplate, analyse] at done ⊢
  cases walked : Walk.over ⟨source, text, helper⟩ aims (tree.mapRange text.span) with
  | error fault => simp [walked] at done
  | ok walk =>
    simp only [walked] at done ⊢
    obtain ⟨sameAims, noTexts, texts⟩ := over_masked tiled range walked
    rw [← sameAims] at once
    obtain ⟨masking, member⟩ := exists_texts (List.count_pos_iff.mp (once ▸ Nat.one_pos))
    have ordinary := (texts masking member).2
    have ended := finish_once ⟨source, text, helper⟩ walk.visits walk.findings once
      fun masking member => (texts masking member).1
    simp only [noTexts] at ended
    rw [readTexts_eq source [] ordinary (parse_tilesFrom parsed)] at ended
    rw [ended] at done ⊢
    refine ⟨rfl, ordinary, ?_⟩
    obtain ⟨found, read, done⟩ := bind_ok done
    obtain ⟨rfl, -⟩ := Prod.mk.inj (Except.ok.inj done)
    cases split : textRuns (maskedTiles text tree.tiles) with
    | error refusal => simp [split] at read
    | ok runs =>
      simp only [split] at read
      exact ⟨runs, rfl, (Recorded.nil source text).run read⟩

/-- A span covers the character at an index of a text. -/
def Covers (text : Text) (span : Span) (index : Nat) : Prop :=
  span.start ≤ text.position index ∧ text.position index < span.stop

/-- Every place that an analysis records for a text is a range inside of one content, without blanks
at its ends, that reads as the text once its references are replaced. The places of a text stand in
the order of the template, no two places overlap, and the characters outside of markers that are no
blanks are recorded exactly if they lie in runs of the masked text. -/
theorem analyse_texts_exactly {source : String} {text helper : Text} {aims : List Aim}
    {tree : Program Extent} {findings : Findings} {visits : Visits} (parsed : parse text = .ok tree)
    (once : aims.count .texts = 1)
    (done : (analyseTemplate ⟨source, text, tree.mapRange text.span⟩ helper aims).result =
      .ok (findings, visits)) :
    ∃ buffer runs,
      (analyseTemplate ⟨source, text, tree.mapRange text.span⟩ helper aims).masked = [buffer] ∧
      textRuns (Text.ofLines buffer) = .ok runs ∧
      (Members.names findings.texts).Nodup ∧
      (∀ key places, (key, places) ∈ findings.texts →
        (∀ place ∈ places, ∃ extent content, place = ⟨source, text.span extent⟩ ∧
          extent.start < extent.stop ∧ .content content ∈ tree.tiles ∧
          content.start ≤ extent.start ∧ extent.stop ≤ content.stop ∧
          strip (text.slice extent.start extent.stop) = text.slice extent.start extent.stop ∧
          unescape (text.slice extent.start extent.stop) = .ok key) ∧
        places.Pairwise fun first second => first.span.stop ≤ second.span.start) ∧
      (findings.texts.flatMap Prod.snd).Pairwise (fun first second =>
        first.span.stop ≤ second.span.start ∨ second.span.stop ≤ first.span.start) ∧
      ∀ index c, (Text.ofLines buffer)[index]? = some c → isBlank c = false → isReserved c = false →
        ((∃ place ∈ findings.texts.flatMap Prod.snd, Covers text place.span index) ↔
          ∃ run ∈ runs, run.offset ≤ index ∧ index < run.offset + run.raw.length) := by
  obtain ⟨handedOut, ordinary, runs, read, recorded⟩ := analyse_recorded parsed once done
  have tiles := parse_tilesFrom parsed
  have ordered := textExtents_inOrder ordinary tiles read
  refine ⟨_, runs, handedOut, by rwa [ofLines_lines], recorded.distinct, fun key places member =>
    ⟨fun place here => ?_, recorded.inOrder ordered member⟩, recorded.apart ordered, ?_⟩
  · rw [recorded.entry member] at here
    obtain ⟨extent, inRanges, rfl⟩ := List.mem_map.mp here
    obtain ⟨isExtent, isKey⟩ := mem_rangesOf.mp inRanges
    obtain ⟨filled, ⟨content, isTile, lower, upper⟩, stripped⟩ :=
      textExtents_content ordinary tiles read isExtent
    exact ⟨extent, content, rfl, filled, isTile, lower, upper, stripped, isKey⟩
  · intro index c here notBlank plain
    rw [ofLines_lines] at here
    rw [← textExtents_complete ordinary tiles read here notBlank plain]
    constructor
    · rintro ⟨place, member, covers⟩
      obtain ⟨⟨key, places⟩, isEntry, isPlace⟩ := List.mem_flatMap.mp member
      simp only [recorded.entry isEntry] at isPlace
      obtain ⟨extent, inRanges, rfl⟩ := List.mem_map.mp isPlace
      exact ⟨extent, (mem_rangesOf.mp inRanges).1, position_le_iff.mp covers.1,
        (position_lt_iff text).mp covers.2⟩
    · rintro ⟨extent, member, lower, upper⟩
      obtain ⟨key, places, isEntry, isPlace⟩ := recorded.covers member
      exact ⟨_, List.mem_flatMap.mpr ⟨_, isEntry, isPlace⟩, position_le_iff.mpr lower,
        (position_lt_iff text).mpr upper⟩

/-- A text that occurs twice, once inside of a block, and a reference in front of a line break. -/
theorem analyse_texts_exactly_page :
    ∃ (text : Text) (tree : Program Extent) (findings : Findings) (visits : Visits),
      text = "<p>Hi ".toList ++ tagged "n" ++ " &#38;\n".toList ++
        tagged "#a" ++ "Hi".toList ++ tagged "/a" ++ "</p>".toList ∧
      parse text = .ok tree ∧ [Aim.texts, .keys].count .texts = 1 ∧
      (analyseTemplate ⟨"page", text, tree.mapRange text.span⟩ ['t'] [.texts, .keys]).result =
        .ok (findings, visits) ∧
      Members.names findings.texts = [['H', 'i'], ['&']] ∧
      (∀ key places, (key, places) ∈ findings.texts → ∀ place ∈ places,
        ∃ extent, place = ⟨"page", text.span extent⟩ ∧ extent.start < extent.stop ∧
          unescape (text.slice extent.start extent.stop) = .ok key) ∧
      (findings.texts.flatMap Prod.snd).Pairwise fun first second =>
        first.span.stop ≤ second.span.start ∨ second.span.stop ≤ first.span.start := by
  obtain ⟨text, same⟩ : ∃ text : Text, "<p>Hi ".toList ++ tagged "n" ++ " &#38;\n".toList ++
      tagged "#a" ++ "Hi".toList ++ tagged "/a" ++ "</p>".toList = text := ⟨_, rfl⟩
  have runs : (((parse text).toOption.bind fun tree =>
      (analyseTemplate ⟨"page", text, tree.mapRange text.span⟩ ['t'] [.texts, .keys]).result.toOption).map
        fun found => Members.names found.1.texts) = some [['H', 'i'], ['&']] := by
    rw [← same]
    decide +kernel
  obtain ⟨⟨findings, visits⟩, found, names⟩ := Option.map_eq_some_iff.mp runs
  obtain ⟨tree, read, ended⟩ := Option.bind_eq_some_iff.mp found
  have parsed := ok_of_toOption read
  have done := ok_of_toOption ended
  have once : [Aim.texts, .keys].count .texts = 1 := by decide
  obtain ⟨_, _, -, -, -, places, apart, -⟩ := analyse_texts_exactly parsed once done
  refine ⟨text, tree, findings, visits, same.symm, parsed, once, done, names,
    fun key others member place here => ?_, apart⟩
  obtain ⟨extent, _, isPlace, filled, -, -, -, -, isKey⟩ := (places key others member).1 place here
  exact ⟨extent, isPlace, filled, isKey⟩

end Phrasebook.Extract
