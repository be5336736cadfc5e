import Phrasebook.Catalog.Basic

/-!
Comparing catalogs with the keys that are expected of them, and bringing them up to date.
-/

namespace Phrasebook

/-- The keys that a locale lacks, and those it has although nothing expects them. -/
structure KeyDiff where
  missing : List CodePoints
  extra : List CodePoints
deriving DecidableEq, Repr

structure LocaleStatus where
  locale : String
  diff : KeyDiff
deriving DecidableEq, Repr

abbrev StatusReport := List LocaleStatus

abbrev Catalogs := List (String × Catalog)

def firsts (keys : List CodePoints) : List CodePoints :=
  keys.foldl (fun kept key => if kept.contains key then kept else kept ++ [key]) []

namespace KeyDiff

def score (diff : KeyDiff) : Nat := diff.missing.length + diff.extra.length

def between (expected keys : List CodePoints) : KeyDiff :=
  ⟨(firsts expected).filter fun key => !keys.contains key,
    keys.filter fun key => !expected.contains key⟩

end KeyDiff

structure MissingBase where
  locale : String
deriving DecidableEq, Repr

def MissingBase.message (missing : MissingBase) : String :=
  s!"Missing base locale '{missing.locale}'."

/-- The keys that every locale should have: those of the base locale, or those collected. -/
def expectedKeys (collected : List CodePoints) (catalogs : Catalogs) (base : Option String) :
    Except MissingBase (List CodePoints) :=
  match base with
  | none => .ok collected
  | some locale =>
    match Members.get? catalogs locale with
    | none => .error ⟨locale⟩
    | some catalog => .ok catalog.keys

namespace StatusReport

/-- The differences of every locale but the base. Locales without differences appear only if all are
wanted. -/
def build (expected : List CodePoints) (catalogs : Catalogs) (base : Option String) (all : Bool) :
    StatusReport :=
  catalogs.filterMap fun (locale, catalog) =>
    let diff := KeyDiff.between expected catalog.keys
    if some locale = base ∨ (diff.score = 0 ∧ !all) then none else some ⟨locale, diff⟩

/-- The locales with the most differences first; locales with equally many keep their order. -/
def ranked (report : StatusReport) : List LocaleStatus :=
  report.mergeSort fun a b => decide (b.diff.score ≤ a.diff.score)

def hasMissing (report : StatusReport) : Bool :=
  report.any fun status => !status.diff.missing.isEmpty

def hasExtra (report : StatusReport) : Bool :=
  report.any fun status => !status.diff.extra.isEmpty

def toJson (report : StatusReport) : Json :=
  .object (report.map fun status => (CodePoints.ofString status.locale,
    .object [(CodePoints.ofString "missing", .array (status.diff.missing.map .string)),
      (CodePoints.ofString "extra", .array (status.diff.extra.map .string))]))

end StatusReport

namespace Catalog

structure Update where
  catalog : Catalog
  added : List CodePoints
  removed : List CodePoints

/-- Adds missing keys with empty texts and removes extra ones. Texts that are present are kept. -/
def update (catalog : Catalog) (diff : KeyDiff) : Update :=
  let (entries, added) := diff.missing.foldl (fun (entries, added) key =>
    if Members.contains entries key then (entries, added)
    else (entries ++ [(key, Json.string [])], added ++ [key])) (catalog.entries, [])
  let (entries, removed) := diff.extra.foldl (fun (entries, removed) key =>
    if Members.contains entries key then (Members.erase entries key, removed ++ [key])
    else (entries, removed)) (entries, [])
  ⟨{ catalog with entries }, added, removed⟩

end Catalog

end Phrasebook
