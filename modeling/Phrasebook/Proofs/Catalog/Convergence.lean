import Phrasebook.Proofs.Catalog.Updates
import Phrasebook.Proofs.Json.Members

/-!
# Bringing the catalogs of a theme up to date

One update is enough. `applyTo_build` says what the catalogs are after everything in a report has been
applied, by one step for each locale; `update_converges` reads off that every catalog has the expected keys,
and that a second report has nothing to say.
-/

namespace Phrasebook

/-! ### One catalog -/

namespace KeyDiff

theorem between_eq (expected keys : List CodePoints) :
    between expected keys =
      ⟨expected.eraseDups.filter fun key => key ∉ keys, keys.filter fun key => key ∉ expected⟩ := by
  rw [between, firsts_eq]
  simp only [List.contains_eq_mem, decide_not]

theorem score_between {expected keys : List CodePoints} :
    (between expected keys).score = 0 ↔ ∀ key, key ∈ keys ↔ key ∈ expected := by
  rw [between_eq, score, Nat.add_eq_zero_iff, List.length_eq_zero_iff, List.length_eq_zero_iff,
    List.filter_eq_nil_iff, List.filter_eq_nil_iff]
  simp only [List.mem_eraseDups, decide_eq_true_eq, Decidable.not_not]
  constructor
  · rintro ⟨present, wanted⟩ key
    exact ⟨wanted key, present key⟩
  · intro same
    exact ⟨fun key => (same key).mpr, fun key => (same key).mp⟩

end KeyDiff

namespace Catalog

/-- The catalog brought up to date with the expected keys. -/
def reconcile (expected : List CodePoints) (catalog : Catalog) : Catalog :=
  (catalog.update (.between expected catalog.keys)).catalog

variable (expected : List CodePoints) (catalog : Catalog)

/-- What is expected stays as it is, and what is missing comes behind it. -/
theorem reconcile_eq :
    catalog.reconcile expected =
      { catalog with entries := (catalog.entries.filter fun member => member.1 ∈ expected) ++
          (expected.eraseDups.filter fun key => key ∉ catalog.keys).map blankEntry } := by
  have kept : (catalog.entries.filter fun member => member.1 ∉ catalog.keys.filter fun key => key ∉ expected) =
      catalog.entries.filter fun member => member.1 ∈ expected := by
    refine List.filter_congr fun member isIn => decide_eq_decide.mpr ?_
    have present : member.1 ∈ catalog.keys := List.mem_map_of_mem isIn
    simp [present]
  -- The missing keys are no extra ones, and there are no repetitions among them.
  have added : ((expected.eraseDups.filter fun key => key ∉ catalog.keys).eraseDups.filter fun key =>
        key ∉ catalog.keys ∧ key ∉ catalog.keys.filter fun key => key ∉ expected) =
      expected.eraseDups.filter fun key => key ∉ catalog.keys := by
    rw [eraseDups_filter, eraseDups_of_nodup (nodup_eraseDups expected), List.filter_filter]
    refine List.filter_congr fun key _ => ?_
    by_cases present : key ∈ catalog.keys <;> simp [present]
  rw [reconcile, update_eq, KeyDiff.between_eq]
  dsimp only
  rw [kept, added]

theorem mem_keys_reconcile (key : CodePoints) : key ∈ (catalog.reconcile expected).keys ↔ key ∈ expected := by
  rw [reconcile_eq, keys, names_append, names_blanks, List.mem_append, List.mem_filter, List.mem_eraseDups,
    decide_eq_true_eq]
  constructor
  · rintro (old | ⟨wanted, -⟩)
    · obtain ⟨member, isIn, rfl⟩ := List.mem_map.mp old
      exact of_decide_eq_true (List.mem_filter.mp isIn).2
    · exact wanted
  · intro wanted
    by_cases present : key ∈ catalog.keys
    · obtain ⟨member, isIn, rfl⟩ := List.mem_map.mp present
      exact .inl (List.mem_map_of_mem (List.mem_filter.mpr ⟨isIn, decide_eq_true wanted⟩))
    · exact .inr ⟨wanted, present⟩

variable {expected catalog}

theorem reconcile_of_score (settled : (KeyDiff.between expected catalog.keys).score = 0) :
    catalog.reconcile expected = catalog := by
  have same := KeyDiff.score_between.mp settled
  have kept : (catalog.entries.filter fun member => member.1 ∈ expected) = catalog.entries :=
    List.filter_eq_self.mpr fun member isIn =>
      decide_eq_true ((same member.1).mp (List.mem_map_of_mem isIn))
  have nothing : (expected.eraseDups.filter fun key => key ∉ catalog.keys) = [] :=
    List.filter_eq_nil_iff.mpr fun key isIn => by
      simpa using (same key).mpr (List.mem_eraseDups.mp isIn)
  rw [reconcile_eq, kept, nothing, List.map_nil, List.append_nil]

end Catalog

/-! ### All catalogs -/

/-- The catalogs, that of a locale updated. -/
def LocaleStatus.applyTo (status : LocaleStatus) (catalogs : Catalogs) : Catalogs :=
  match Members.get? catalogs status.locale with
  | none => catalogs
  | some catalog => Members.put catalogs status.locale (catalog.update status.diff).catalog

theorem LocaleStatus.applyTo_known {front : Catalogs} {status : LocaleStatus}
    (fresh : status.locale ∉ Members.names front) (catalog : Catalog) (rest : Catalogs) :
    status.applyTo (front ++ (status.locale, catalog) :: rest) =
      front ++ (status.locale, (catalog.update status.diff).catalog) :: rest := by
  have known : Members.get? (front ++ (status.locale, catalog) :: rest) status.locale = some catalog := by
    rw [Members.get?_append_of_not_mem fresh, Members.get?_cons_self]
  rw [LocaleStatus.applyTo, known]
  exact Members.put_append_of_not_mem fresh catalog _ rest

namespace StatusReport

/-- The catalogs, those of a report updated. -/
def applyTo (report : StatusReport) (catalogs : Catalogs) : Catalogs :=
  report.foldl (fun catalogs status => status.applyTo catalogs) catalogs

/-- What becomes of the catalog of a locale. -/
def settle (expected : List CodePoints) (base : Option String) (member : String × Catalog) : Catalog :=
  if some member.1 = base then member.2 else member.2.reconcile expected

variable {expected : List CodePoints} {base : Option String} {all : Bool}

theorem build_cons (locale : String) (catalog : Catalog) (rest : Catalogs) :
    build expected ((locale, catalog) :: rest) base all =
      if some locale = base ∨ ((KeyDiff.between expected catalog.keys).score = 0 ∧ !all) then
        build expected rest base all
      else ⟨locale, .between expected catalog.keys⟩ :: build expected rest base all := by
  unfold build
  rw [List.filterMap_cons]
  by_cases left : some locale = base ∨ ((KeyDiff.between expected catalog.keys).score = 0 ∧ !all)
  · rw [if_pos left]
    simp only [if_pos left]
  · rw [if_neg left]
    simp only [if_neg left]

theorem applyTo_cons (status : LocaleStatus) (report : StatusReport) (catalogs : Catalogs) :
    applyTo (status :: report) catalogs = report.applyTo (status.applyTo catalogs) := rfl

/-- What a locale adds to a report, applied to the catalogs that it stands among. -/
theorem applyTo_build_cons {front : Catalogs} {locale : String} (fresh : locale ∉ Members.names front)
    (catalog : Catalog) (rest : Catalogs) :
    (build expected ((locale, catalog) :: rest) base all).applyTo (front ++ (locale, catalog) :: rest) =
      (build expected rest base all).applyTo
        (front ++ (locale, settle expected base (locale, catalog)) :: rest) := by
  rw [build_cons, settle]
  by_cases isBase : some locale = base
  · rw [if_pos (.inl isBase), if_pos isBase]
  · rw [if_neg isBase]
    by_cases settled : (KeyDiff.between expected catalog.keys).score = 0 ∧ !all
    · rw [if_pos (.inr settled), Catalog.reconcile_of_score settled.1]
    · have listed := not_or.mpr ⟨isBase, settled⟩
      rw [if_neg listed, applyTo_cons, LocaleStatus.applyTo_known fresh, Catalog.reconcile]

theorem applyTo_build_append (front catalogs : Catalogs) (distinct : (Members.names (front ++ catalogs)).Nodup) :
    (build expected catalogs base all).applyTo (front ++ catalogs) =
      front ++ catalogs.map fun member => (member.1, settle expected base member) := by
  -- The locales in front have had their turn.
  induction catalogs generalizing front with
  | nil => rfl
  | cons member rest ih =>
    obtain ⟨locale, catalog⟩ := member
    have names (catalog : Catalog) : Members.names (front ++ (locale, catalog) :: rest) =
        Members.names front ++ locale :: Members.names rest := List.map_append
    rw [names] at distinct
    have fresh : locale ∉ Members.names front := fun isIn =>
      (List.nodup_append.mp distinct).2.2 _ isIn _ List.mem_cons_self rfl
    have later := ih (front ++ [(locale, settle expected base (locale, catalog))])
    rw [List.append_assoc, List.singleton_append, names, List.append_assoc] at later
    rw [applyTo_build_cons fresh, later distinct]
    rfl

theorem applyTo_build {catalogs : Catalogs} (distinct : (Members.names catalogs).Nodup) :
    (build expected catalogs base all).applyTo catalogs =
      catalogs.map fun member => (member.1, settle expected base member) :=
  applyTo_build_append [] catalogs distinct

theorem get?_settled (catalogs : Catalogs) (locale : String) :
    Members.get? (catalogs.map fun member => (member.1, settle expected base member)) locale =
      (Members.get? catalogs locale).map fun catalog => settle expected base (locale, catalog) :=
  Members.get?_map catalogs (fun locale catalog => settle expected base (locale, catalog)) locale

theorem build_settled (catalogs : Catalogs) :
    build expected (catalogs.map fun member => (member.1, settle expected base member)) base false = [] := by
  induction catalogs with
  | nil => rfl
  | cons member rest ih =>
    have rests : some member.1 = base ∨
        ((KeyDiff.between expected (settle expected base member).keys).score = 0 ∧ !false) := by
      by_cases isBase : some member.1 = base
      · exact .inl isBase
      · rw [settle, if_neg isBase]
        exact .inr ⟨KeyDiff.score_between.mpr (member.2.mem_keys_reconcile expected), rfl⟩
    rw [List.map_cons, build_cons, if_pos rests, ih]

/-- One update is enough. The base stays as it is. Every other catalog has the expected keys: those it had
stay as they are, in their order, and the others come behind them as they are expected, each once and without
a text. What is expected is the same as before, and a second report is empty. -/
theorem update_converges (all : Bool) {collected : List CodePoints} {catalogs : Catalogs}
    (distinct : (Members.names catalogs).Nodup) (expects : expectedKeys collected catalogs base = .ok expected) :
    let updated := (build expected catalogs base all).applyTo catalogs
    let second := build expected updated base false
    Members.names updated = Members.names catalogs ∧
    (∀ locale, base = some locale → Members.get? updated locale = Members.get? catalogs locale) ∧
    (∀ locale catalog, base ≠ some locale → Members.get? catalogs locale = some catalog →
      ∃ entries, Members.get? updated locale = some { catalog with entries } ∧
        (∀ key, key ∈ Members.names entries ↔ key ∈ expected) ∧
        entries = (catalog.entries.filter fun member => member.1 ∈ expected) ++
          (expected.eraseDups.filter fun key => key ∉ catalog.keys).map fun key => (key, .string [])) ∧
    expectedKeys collected updated base = .ok expected ∧
    second = [] ∧ second.hasMissing = false ∧ second.hasExtra = false := by
  intro updated second
  have settled : updated = catalogs.map fun member => (member.1, settle expected base member) :=
    applyTo_build distinct
  have untouched (locale : String) (isBase : base = some locale) :
      Members.get? updated locale = Members.get? catalogs locale := by
    have same (catalog : Catalog) : settle expected base (locale, catalog) = catalog := if_pos isBase.symm
    rw [settled, get?_settled]
    simp only [same, Option.map_id']
  have empty : second = [] := by
    change build expected updated base false = []
    rw [settled, build_settled]
  refine ⟨?_, untouched, ?_, ?_, empty, ?_, ?_⟩
  · rw [settled, Members.names, List.map_map]
    rfl
  · intro locale catalog apart found
    have sameKeys := catalog.mem_keys_reconcile expected
    rw [Catalog.reconcile_eq] at sameKeys
    refine ⟨_, ?_, sameKeys, rfl⟩
    rw [settled, get?_settled, found, Option.map_some, settle, if_neg (Ne.symm apart), Catalog.reconcile_eq]
  · cases base with
    | none => exact expects
    | some locale =>
      rw [expectedKeys, untouched locale rfl]
      exact expects
  · rw [empty]
    rfl
  · rw [empty]
    rfl

/-- A base with two keys, and a catalog with one of them and one of its own. -/
theorem update_converges_base :
    let english : Catalog := ⟨"en", [(['a'], .string ['A']), (['b'], .string ['B'])], none⟩
    let german : Catalog := ⟨"de", [(['x'], .string ['X']), (['b'], .string ['Z'])], none⟩
    let catalogs : Catalogs := [("en", english), ("de", german)]
    (Members.names catalogs).Nodup ∧ expectedKeys [] catalogs (some "en") = .ok [['a'], ['b']] ∧
      ∃ entries, Members.get? ((build [['a'], ['b']] catalogs (some "en") false).applyTo catalogs) "de" =
          some ⟨"de", entries, none⟩ ∧ entries = [([.char 'b'], .string ['Z']), ([.char 'a'], .string [])] := by
  intro english german catalogs
  have distinct : (Members.names catalogs).Nodup := by decide
  have expects : expectedKeys [] catalogs (some "en") = .ok [['a'], ['b']] := rfl
  obtain ⟨-, -, others, -⟩ := update_converges false distinct expects
  obtain ⟨entries, found, -, same⟩ := others "de" german (by decide) rfl
  exact ⟨distinct, expects, entries, found, same⟩

end StatusReport

end Phrasebook
