import Mathlib.Data.List.TakeWhile
import Phrasebook.Files.Encoding

/-!
# Strings that have bytes

A string has bytes exactly if it is `Whole`: it has no half of a pair in it, so it is a text. A text is
read back from its bytes.
-/

namespace Phrasebook

namespace CodePoints

/-- All code points of a string are characters. -/
def Whole (points : CodePoints) : Prop := ∀ c ∈ points, c.isChar = true

theorem Whole.append {first second : CodePoints} (whole : first.Whole) (whole' : second.Whole) :
    Whole (first ++ second) := List.forall_mem_append.mpr ⟨whole, whole'⟩

theorem Whole.flatMap {points : CodePoints} {f : CodePoint → CodePoints} (whole : ∀ c ∈ points, Whole (f c)) :
    Whole (points.flatMap f) := by
  intro c member
  obtain ⟨d, isIn, inside⟩ := List.mem_flatMap.mp member
  exact whole d isIn c inside

theorem whole_points (text : Text) : Whole text.points := by
  intro c member
  obtain ⟨d, -, rfl⟩ := List.mem_map.mp member
  rfl

theorem Whole.eq_points {points : CodePoints} (whole : points.Whole) :
    points = Text.points (points.filterMap CodePoint.char?) := by
  induction points with
  | nil => rfl
  | cons c rest ih =>
    obtain ⟨isChar, later⟩ := List.forall_mem_cons.mp whole
    cases c with
    | half unit => cases isChar
    | char c => exact congrArg (CodePoint.char c :: ·) (ih later)

end CodePoints

namespace Encoding

theorem decode?_encode (text : Text) : decode? (encode text) = some text := by
  have same : String.fromUTF8? (String.ofList text).toUTF8 = some (String.ofList text) :=
    dif_pos (String.ofList text).isValidUTF8
  rw [encode, decode?, same, Option.map_some, String.toList_ofList]

theorem encode_append (front back : Text) : encode (front ++ back) = encode front ++ encode back := by
  simp [encode]

variable {points : CodePoints}

theorem encodePoints_whole (whole : points.Whole) :
    encodePoints points = .ok (encode (points.filterMap CodePoint.char?)) := by
  have ended : points.dropWhile CodePoint.isChar = [] := List.dropWhile_eq_nil_iff.mpr whole
  rw [encodePoints, ended]

theorem whole_of_encodePoints {bytes : ByteArray} (encoded : encodePoints points = .ok bytes) : points.Whole := by
  unfold encodePoints at encoded
  split at encoded
  · next ended => exact List.dropWhile_eq_nil_iff.mp ended
  · cases encoded

/-- What has bytes is a text. -/
theorem exists_text {bytes : ByteArray} (encoded : encodePoints points = .ok bytes) :
    ∃ text, points = Text.points text ∧ bytes = encode text := by
  have whole := whole_of_encodePoints encoded
  exact ⟨_, whole.eq_points, Except.ok.inj (encoded.symm.trans (encodePoints_whole whole))⟩

theorem encodePoints_points (text : Text) : encodePoints text.points = .ok (encode text) := by
  rw [encodePoints_whole (CodePoints.whole_points text)]
  simp [Text.points, CodePoint.char?, List.filterMap_map, Function.comp_def]

end Encoding

end Phrasebook
