import Phrasebook.Json.Reader
import Phrasebook.Json.Writer
import Phrasebook.Text.Position
import Phrasebook.Violation

/-!
Catalogs: the keys of one locale with their texts, kept in a JSON object. A catalog remembers how
its file was laid out, and `Catalog.serialize` lays it out the same way again.
-/

namespace Phrasebook

/-- How the file of a catalog is laid out: what separates lines, one step of indentation, and
whether the file ends with a separator. -/
structure CatalogFormat where
  newline : CodePoints
  indentation : CodePoints
  trailingNewline : Bool
deriving DecidableEq, Repr

structure Catalog where
  locale : String
  entries : List (CodePoints × Json)
  format : Option CatalogFormat

inductive CatalogFault where
  /-- The text is malformed, or it is not an object. -/
  | unreadable (path reason : String)
  | longInteger (digits : Nat)
deriving DecidableEq, Repr

namespace CatalogFormat

def breaks : CodePoints → CodePoints
  | .char '\n' :: rest => '\n' :: breaks rest
  | .char '\r' :: .char '\n' :: rest => '\r' :: '\n' :: breaks rest
  | _ => []

/-- The breaks and blanks behind the bracket that opens a text, if at least one break stands there.
-/
def layout? (contents : CodePoints) : Option (CodePoints × CodePoints) :=
  match contents.dropWhile CodePoint.isBlank with
  | c :: rest =>
    let newline := breaks rest
    if (c = '{' ∨ c = '[') ∧ newline ≠ [] then
      some (newline, (rest.drop newline.length).takeWhile CodePoint.isBlank)
    else none
  | [] => none

/-- The layout of a text. Texts that do not show one are laid out by lines and tabs. -/
def detect (contents : CodePoints) : CatalogFormat :=
  let (newline, indentation) := (layout? contents).getD (['\n'], ['\t'])
  ⟨newline, indentation, newline.isSuffixOf contents⟩

end CatalogFormat

namespace Catalog

def keys (catalog : Catalog) : List CodePoints := Members.names catalog.entries

/-- The catalog that a text holds; `path` names it in complaints. -/
def parse (locale : String) (contents : CodePoints) (path : String) : Except CatalogFault Catalog :=
  match Json.read contents with
  | .ok (.object entries) => .ok ⟨locale, entries, some (.detect contents)⟩
  | .ok _ => .error (.unreadable path "top-level value must be an object.")
  | .error (.longInteger digits) => .error (.longInteger digits)
  | .error (.malformed complaint left) =>
    .error (.unreadable path
      s!"invalid JSON ({complaint.message} at line {Json.lineOf contents left}).")

def fileName (locale : String) : String := s!"{locale}.json"

def serialize (catalog : Catalog) : Except Violation CodePoints :=
  match catalog.format with
  | none => .error ⟨.missingFormat catalog.locale, ⟨some (fileName catalog.locale), none, none⟩⟩
  | some format =>
    let written := Json.write (Json.indentedStyle format.indentation) (.object catalog.entries)
    let broken := Json.withBreaks format.newline written
    .ok (if format.trailingNewline then broken ++ format.newline else broken)

end Catalog

namespace CatalogFault

def message : CatalogFault → String
  | .unreadable path reason => s!"{path}: {reason}"
  | .longInteger digits => Text.longIntegerMessage digits

end CatalogFault

end Phrasebook
