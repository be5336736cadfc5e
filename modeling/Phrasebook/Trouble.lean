import Phrasebook.Catalog.Basic
import Phrasebook.Edit
import Phrasebook.Extract.Fault
import Phrasebook.Files.Encoding
import Phrasebook.Files.Path

/-!
What can stop a run. Some of it is reported to the user with an exit code; the rest has no report
and ends the run on the spot.
-/

namespace Phrasebook

inductive Trouble where
  | files (fault : Files.Fault)
  | catalog (fault : CatalogFault)
  /-- A template holds a whole number with too many digits. -/
  | longInteger (digits : Nat)
  | analysis (fault : Extract.Fault)
  | edit (fault : EditFault)
  /-- A catalog cannot be written. -/
  | catalogFormat (violation : Violation)
  /-- A catalog holds halves of surrogate pairs, which no file can hold. -/
  | unencodable (fault : Encoding.Unencodable)
  /-- The output cannot show a line, for the given reason. -/
  | unprintable (objection : String)
deriving DecidableEq, Repr

namespace Trouble

def inputCode : Nat := 1

def contractCode : Nat := 2

def report? : Trouble → Option (String × Nat)
  | .files (.blocked why) => some (s!"{why.reason} {why.hint}", contractCode)
  | .catalog (.unreadable path reason) =>
    some ((CatalogFault.unreadable path reason).message, inputCode)
  | .analysis (.violation violation) => some (violation.describe, contractCode)
  | .analysis (.misuse misuse) => some (misuse.message, contractCode)
  | .edit (.violation violation) => some (violation.describe, contractCode)
  | .catalogFormat violation => some (violation.describe, contractCode)
  | _ => none

def message : Trouble → String
  | .files fault => fault.message
  | .catalog fault => fault.message
  | .longInteger digits => Text.longIntegerMessage digits
  | .analysis fault => fault.message
  | .edit .noSuchLine => Extract.Fault.noSuchLine.message
  | .edit (.violation violation) => violation.describe
  | .catalogFormat violation => violation.describe
  | .unencodable fault => fault.message
  | .unprintable objection => objection

end Trouble

end Phrasebook
