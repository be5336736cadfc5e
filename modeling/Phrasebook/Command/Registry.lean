import Phrasebook.Json.Value

/-!
Commands by name. A command that is registered again keeps its place.
-/

namespace Phrasebook.Command

/-- Handlers of commands by name, in the order of registration. -/
structure Registry (Handler : Type) where
  handlers : List (String × Handler)

structure UnknownCommand where
  name : String
deriving DecidableEq, Repr

def UnknownCommand.message (unknown : UnknownCommand) : String :=
  s!"Unknown command: {unknown.name}"

namespace Registry

variable {Handler : Type}

def empty : Registry Handler := ⟨[]⟩

/-- Registers a command, in the place of one with the same name. -/
def register (registry : Registry Handler) (name : String) (handler : Handler) : Registry Handler :=
  ⟨Members.put registry.handlers name handler⟩

def get? (registry : Registry Handler) (name : String) : Option Handler :=
  Members.get? registry.handlers name

def names (registry : Registry Handler) : List String := Members.names registry.handlers

def dispatch (registry : Registry Handler) (name : String) : Except UnknownCommand Handler :=
  match registry.get? name with
  | some handler => .ok handler
  | none => .error ⟨name⟩

end Registry

end Phrasebook.Command
