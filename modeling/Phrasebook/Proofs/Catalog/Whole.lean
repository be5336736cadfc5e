import Phrasebook.Proofs.Catalog.Updates
import Phrasebook.Proofs.Files.Encoding

/-!
# Catalogs that have bytes

The halves of pairs in the text of a catalog are those in its keys and its values: a layout that was read
has none. So a `Whole` catalog can be written, also after an update with whole keys.
-/

namespace Phrasebook

open CodePoints (whole_points)

namespace Json

/-- The strings of a value itself are whole. -/
def IsWhole : Json → Prop
  | .string text => text.Whole
  | .object members => ∀ name ∈ Members.names members, name.Whole
  | _ => True

/-- All strings in a value are whole. -/
def Whole (value : Json) : Prop := Throughout IsWhole value

theorem whole_cons {c : CodePoint} (isChar : c.isChar = true) {rest : CodePoints} (whole : rest.Whole) :
    CodePoints.Whole (c :: rest) := List.forall_mem_cons.mpr ⟨isChar, whole⟩

theorem whole_escapeUnit (n : Nat) : (escapeUnit n).Whole := by
  simp [CodePoints.Whole, escapeUnit, hex4, CodePoint.isChar]

theorem whole_escapePoint (ascii : Bool) {c : CodePoint} (isChar : c.isChar = true) :
    (escapePoint ascii c).Whole := by
  unfold escapePoint
  split
  case h_8 =>
    dsimp only
    split
    · exact whole_escapeUnit _
    · split
      · split
        · exact whole_escapeUnit _
        · exact (whole_escapeUnit _).append (whole_escapeUnit _)
      · exact whole_cons isChar (List.forall_mem_nil _)
  all_goals exact whole_cons rfl (whole_cons rfl (List.forall_mem_nil _))

theorem whole_quote (ascii : Bool) {text : CodePoints} (whole : text.Whole) : (quote ascii text).Whole :=
  whole_cons rfl (.append (.flatMap fun c member => whole_escapePoint ascii (whole c member))
    (whole_cons rfl (List.forall_mem_nil _)))

theorem whole_withBreaks {newline text : CodePoints} (whole : newline.Whole) (whole' : text.Whole) :
    (withBreaks newline text).Whole := by
  refine .flatMap fun c member => ?_
  split
  · exact whole
  · exact whole_cons (whole' c member) (List.forall_mem_nil _)

section

variable {style : Style} (isWhole : ∀ step ∈ style.indentation, CodePoints.Whole step)
include isWhole

theorem whole_break (depth : Nat) : (style.break depth).Whole := by
  unfold Style.break
  split
  · exact List.forall_mem_nil _
  · next step same =>
    refine whole_cons rfl fun c member => ?_
    obtain ⟨copy, isCopy, inside⟩ := List.mem_flatten.mp member
    rw [(List.mem_replicate.mp isCopy).2] at inside
    exact isWhole step same c inside

theorem whole_separator (depth : Nat) : (style.separator depth).Whole := by
  unfold Style.separator
  split
  · exact whole_cons rfl (whole_cons rfl (List.forall_mem_nil _))
  · exact whole_cons rfl (whole_break isWhole depth)

mutual

/-- A value with whole strings has a whole text. -/
theorem whole_writeAt : ∀ {value : Json}, value.Whole → ∀ depth, (writeAt style depth value).Whole
  | .null, _, _ | .bool _, _, _ | .int _, _, _ | .float _, _, _ => whole_points _
  | .string _, whole, _ => whole_quote _ whole
  | .array [], _, _ => whole_cons rfl (whole_cons rfl (List.forall_mem_nil _))
  | .array (item :: _), ⟨_, whole, wholes⟩, depth =>
    have first : (style.break (depth + 1) ++ writeAt style (depth + 1) item).Whole :=
      (whole_break isWhole _).append (whole_writeAt whole _)
    whole_cons rfl (((first.append (whole_writeItems wholes _)).append (whole_break isWhole depth)).append
      (whole_cons rfl (List.forall_mem_nil _)))
  | .object [], _, _ => whole_cons rfl (whole_cons rfl (List.forall_mem_nil _))
  | .object ((name, _) :: _), ⟨names, whole, wholes⟩, depth =>
    have key : CodePoints.Whole (style.break (depth + 1) ++ quote style.ascii name ++ [.char ':', .char ' ']) :=
      ((whole_break isWhole _).append (whole_quote _ (names name List.mem_cons_self))).append (whole_points [':', ' '])
    have first := key.append (whole_writeAt whole (depth + 1))
    have rest := whole_writeMembers (fun name member => names name (List.mem_cons_of_mem _ member)) wholes (depth + 1)
    whole_cons rfl (((first.append rest).append (whole_break isWhole depth)).append
      (whole_cons rfl (List.forall_mem_nil _)))

theorem whole_writeItems : ∀ {items : List Json}, ThroughoutItems IsWhole items →
    ∀ depth, (writeItems style depth items).Whole
  | [], _, _ => List.forall_mem_nil _
  | _ :: _, ⟨whole, wholes⟩, depth =>
    ((whole_separator isWhole depth).append (whole_writeAt whole depth)).append (whole_writeItems wholes depth)

theorem whole_writeMembers : ∀ {members : List (CodePoints × Json)},
    (∀ name ∈ Members.names members, name.Whole) → ThroughoutMembers IsWhole members →
    ∀ depth, (writeMembers style depth members).Whole
  | [], _, _, _ => List.forall_mem_nil _
  | (name, _) :: _, names, ⟨whole, wholes⟩, depth =>
    have key : CodePoints.Whole (style.separator depth ++ quote style.ascii name ++ [.char ':', .char ' ']) :=
      ((whole_separator isWhole _).append (whole_quote _ (names name List.mem_cons_self))).append
        (whole_points [':', ' '])
    (key.append (whole_writeAt whole depth)).append
      (whole_writeMembers (fun name member => names name (List.mem_cons_of_mem _ member)) wholes depth)

end

end

theorem whole_object_iff {members : List (CodePoints × Json)} :
    Whole (.object members) ↔ ∀ member ∈ members, member.1.Whole ∧ Whole member.2 := by
  have names : (∀ name ∈ Members.names members, name.Whole) ↔ ∀ member ∈ members, member.1.Whole :=
    List.forall_mem_map
  rw [Whole, Throughout, throughoutMembers_iff]
  exact (and_congr_left' names).trans forall₂_and.symm

end Json

/-! ### Layouts -/

/-- A layout without halves. -/
structure CatalogFormat.Whole (format : CatalogFormat) : Prop where
  newline : format.newline.Whole
  indentation : format.indentation.Whole

theorem CatalogFormat.whole_breaks (text : CodePoints) : (breaks text).Whole := by
  obtain ⟨-, -, isBreaks, -⟩ := breaks_split text
  intro c member
  rcases isBreaks.mem c member with rfl | rfl <;> rfl

/-- A layout that a text shows is whole, whatever else the text holds. -/
theorem CatalogFormat.whole_detect (contents : CodePoints) : (detect contents).Whole := by
  have blank {c : CodePoint} (isBlank : c.isBlank = true) : c.isChar = true := by
    cases c with
    | char c => rfl
    | half unit => cases isBlank
  have shown : ∀ layout ∈ layout? contents, layout.1.Whole ∧ layout.2.Whole := by
    intro layout found
    unfold layout? at found
    split at found
    · dsimp only at found
      split at found
      · obtain rfl := Option.some.inj found
        exact ⟨whole_breaks _, fun c member => blank (List.mem_takeWhile_imp member)⟩
      · cases found
    · cases found
  cases found : layout? contents with
  | none =>
    simp only [detect, found, Option.getD_none]
    exact ⟨whole_points ['\n'], whole_points ['\t']⟩
  | some layout =>
    simp only [detect, found, Option.getD_some]
    exact ⟨(shown layout found).1, (shown layout found).2⟩

/-! ### Catalogs -/

namespace Catalog

/-- No key and no value of a catalog has a half in it. -/
def Whole (catalog : Catalog) : Prop := Json.Whole (.object catalog.entries)

variable {catalog : Catalog}

theorem whole_serialize {format : CatalogFormat} {written : CodePoints} (whole : catalog.Whole)
    (known : catalog.format = some format) (wholeFormat : format.Whole) (serialized : catalog.serialize = .ok written) :
    written.Whole := by
  unfold serialize at serialized
  rw [known] at serialized
  obtain rfl := Except.ok.inj serialized
  have inside : ∀ step ∈ (Json.indentedStyle format.indentation).indentation, CodePoints.Whole step := by
    rintro _ ⟨⟩
    exact wholeFormat.indentation
  have broken := Json.whole_withBreaks wholeFormat.newline (Json.whole_writeAt inside whole 0)
  split
  · exact broken.append wholeFormat.newline
  · exact broken

theorem whole_update (whole : catalog.Whole) {diff : KeyDiff} (keys : ∀ key ∈ diff.missing, key.Whole) :
    (catalog.update diff).catalog.Whole := by
  rw [Whole, update_eq]
  refine Json.whole_object_iff.mpr fun member isIn => ?_
  rcases List.mem_append.mp isIn with old | new
  · exact Json.whole_object_iff.mp whole member (List.mem_filter.mp old).1
  · obtain ⟨key, isKey, rfl⟩ := List.mem_map.mp new
    exact ⟨keys key (List.mem_eraseDups.mp (List.mem_filter.mp isKey).1), List.forall_mem_nil _⟩

/-- An updated catalog that has no bytes had none before, or the keys that it was to get have none. -/
theorem exists_half_of_update {contents written : CodePoints} {diff : KeyDiff} {fault : Encoding.Unencodable}
    (known : catalog.format = some (.detect contents)) (serialized : (catalog.update diff).catalog.serialize = .ok written)
    (failed : Encoding.encodePoints written = .error fault) :
    ¬catalog.Whole ∨ ∃ key ∈ diff.missing, ¬key.Whole := by
  by_contra neither
  obtain ⟨whole, keys⟩ := not_or.mp neither
  have keys : ∀ key ∈ diff.missing, key.Whole := fun key isKey => by_contra fun half => keys ⟨key, isKey, half⟩
  have known' : (catalog.update diff).catalog.format = some (.detect contents) := by rw [update_eq]; exact known
  have writtenWhole := whole_serialize (whole_update (not_not.mp whole) keys) known' (CatalogFormat.whole_detect contents)
    serialized
  cases failed.symm.trans (Encoding.encodePoints_whole writtenWhole)

theorem whole_keys (whole : catalog.Whole) : ∀ key ∈ catalog.keys, key.Whole := whole.1

end Catalog

end Phrasebook
