import Phrasebook.Json.Value
import Phrasebook.Text.Position

/-!
What the analysis of templates finds: texts that no key stands for yet, with the places where they
occur, and keys in use, with their call sites. Findings of several templates are merged in order.
-/

namespace Phrasebook.Extract

/-- Texts in the order of their first occurrence, each with all its places. -/
abbrev Texts := List (Text × List Location)

/-- A call of the helper: its place and the names of its named arguments, in source order. -/
structure CallSite where
  location : Location
  parameters : List Text
deriving DecidableEq, Repr

/-- All calls with one key, and the names of named arguments that occur in any of them. -/
structure KeyUse where
  parameters : List Text
  sites : List CallSite
deriving DecidableEq, Repr

abbrev Keys := List (Text × KeyUse)

/-- The elements of a list that a set, kept as a list, lacks are put at its end. -/
def union (set more : List Text) : List Text :=
  more.foldl (fun set name => if set.contains name then set else set ++ [name]) set

namespace Texts

def add (texts : Texts) (text : Text) (places : List Location) : Texts :=
  Members.alter texts text fun known => known.getD [] ++ places

def merge (texts more : Texts) : Texts :=
  more.foldl (fun texts (text, places) => texts.add text places) texts

end Texts

namespace Keys

def add (keys : Keys) (key : Text) (parameters : List Text) (sites : List CallSite) : Keys :=
  Members.alter keys key fun known =>
    let use := known.getD ⟨[], []⟩
    ⟨union use.parameters parameters, use.sites ++ sites⟩

def merge (keys more : Keys) : Keys :=
  more.foldl (fun keys (key, use) => keys.add key use.parameters use.sites) keys

end Keys

structure Findings where
  texts : Texts
  keys : Keys

namespace Findings

def empty : Findings := ⟨[], []⟩

def merge (findings more : Findings) : Findings :=
  ⟨findings.texts.merge more.texts, findings.keys.merge more.keys⟩

end Findings

end Phrasebook.Extract
