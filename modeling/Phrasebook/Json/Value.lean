import Phrasebook.Text.CodePoint
import Phrasebook.Decimal.Binary64

/-!
JSON values. Objects keep their members in order; `Members.put` replaces the value of a name that is
present in its place and appends a new name at the end.
-/

namespace Phrasebook

/-- A JSON value. Whole numbers are exact, all others have double precision. -/
inductive Json where
  | null
  | bool (value : Bool)
  | int (value : Int)
  | float (value : Binary64)
  | string (value : CodePoints)
  | array (items : List Json)
  | object (members : List (CodePoints × Json))
deriving Inhabited

def Json.text (value : String) : Json := .string (CodePoints.ofString value)

namespace Members

variable {κ β : Type} [BEq κ]

def get? (members : List (κ × β)) (name : κ) : Option β :=
  (members.find? fun member => member.1 == name).map Prod.snd

def contains (members : List (κ × β)) (name : κ) : Bool :=
  members.any fun member => member.1 == name

/-- Changes the value of a name, or appends the name with the value made from nothing. -/
def alter (members : List (κ × β)) (name : κ) (change : Option β → β) : List (κ × β) :=
  match members with
  | [] => [(name, change none)]
  | (key, value) :: rest =>
    if key == name then (key, change (some value)) :: rest
    else (key, value) :: alter rest name change

/-- Sets the value of a name, in its place if it is present and at the end otherwise. -/
def put (members : List (κ × β)) (name : κ) (value : β) : List (κ × β) :=
  alter members name fun _ => value

def erase (members : List (κ × β)) (name : κ) : List (κ × β) :=
  members.filter fun member => !(member.1 == name)

def names (members : List (κ × β)) : List κ := members.map Prod.fst

end Members

end Phrasebook
