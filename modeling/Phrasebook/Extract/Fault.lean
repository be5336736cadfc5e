import Phrasebook.Mask
import Phrasebook.Markup.Event
import Phrasebook.Text.Entity
import Phrasebook.Text.Resolver

/-!
Why the analysis of a template stops.
-/

namespace Phrasebook.Extract

inductive Fault where
  /-- The template holds a character that is reserved for markers. -/
  | reserved (reserved : Mask.Reserved)
  | violation (violation : Violation)
  /-- A range lies outside of the lines of the template. -/
  | noSuchLine
  | misuse (misuse : Misuse)
  /-- A numeric reference has too many digits. -/
  | longReference (digits : Nat)
  /-- The markup holds a declaration that is refused. -/
  | refused
deriving DecidableEq, Repr

def Fault.ofMask : Mask.Fault → Fault
  | .violation v => .violation v
  | .noSuchLine => .noSuchLine

def Fault.ofRefusal : Markup.Refusal → Fault
  | .badDeclaration => .refused
  | .longReference digits => .longReference digits

def Fault.message : Fault → String
  | .reserved found => found.describe
  | .violation v => v.describe
  | .noSuchLine => "list index out of range"
  | .misuse m => m.message
  | .longReference digits => Text.longIntegerMessage digits
  | .refused => "the markup holds a declaration of an unknown kind"

end Phrasebook.Extract
