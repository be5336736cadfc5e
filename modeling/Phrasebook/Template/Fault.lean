import Phrasebook.Text.Position

/-!
Why a template cannot be read. A fault is a cause and the offset at which it shows; `Fault.message`
holds the wording of all causes.
-/

namespace Phrasebook.Template

inductive Stop where
  | elseTag
  | inverse
  | close
deriving DecidableEq, Repr

def Stop.describe : Stop → String
  | .elseTag => "\x7b\x7belse\x7d\x7d"
  | .inverse => "\x7b\x7b^\x7d\x7d"
  | .close => "close tag"

inductive Cause where
  | rawBlock
  | unterminatedComment
  | unterminatedMustache
  | unterminatedBlock
  | unexpectedStop (stop : Stop)
  | elseInSimpleBlock
  | mismatchedClose (opened closed : Text)
  | missingExpression
  | unexpectedCharacter (c : Char)
  | unexpectedToken (text : Text)
  | misplacedBlockParams
  | malformedBlockParams
  | missingValue (name : Text)
  | missingCallee
  | unterminatedSub
  | missingDataName
  | missingSegment
deriving DecidableEq, Repr

def Cause.message : Cause → String
  | .rawBlock => "Raw blocks are not supported."
  | .unterminatedComment => "Unterminated comment."
  | .unterminatedMustache => "Unterminated mustache."
  | .unterminatedBlock => "Unterminated block."
  | .unexpectedStop stop => s!"Unexpected {stop.describe}."
  | .elseInSimpleBlock => "Partial and decorator blocks cannot have an else branch."
  | .mismatchedClose opened closed =>
    s!"'{String.ofList opened}' doesn't match '{String.ofList closed}'."
  | .missingExpression => "Expected an expression."
  | .unexpectedCharacter c => s!"Unexpected character '{c}'."
  | .unexpectedToken text => s!"Unexpected '{String.ofList text}'."
  | .misplacedBlockParams => "Block params are only allowed on blocks."
  | .malformedBlockParams => "Malformed block params."
  | .missingValue name => s!"Expected a value for '{String.ofList name}'."
  | .missingCallee => "Expected an expression after '('."
  | .unterminatedSub => "Unterminated sub-expression."
  | .missingDataName => "Expected a name after '@'."
  | .missingSegment => "Expected a path segment."

/-- Why reading a template fails: it is malformed at some offset, or it holds a whole number with
too many digits. -/
inductive Fault where
  | malformed (cause : Cause) (offset : Nat)
  | longInteger (digits : Nat)
deriving DecidableEq, Repr

structure SyntaxFault where
  source : String
  cause : Cause
  position : Position
deriving DecidableEq, Repr

def SyntaxFault.describe (fault : SyntaxFault) : String :=
  s!"{fault.source}:{fault.position.shown}: {fault.cause.message}"

end Phrasebook.Template
