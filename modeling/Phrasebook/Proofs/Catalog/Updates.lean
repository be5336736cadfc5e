import Phrasebook.Catalog.Status
import Phrasebook.Proofs.Catalog.Rewriting

/-!
# Updates of catalogs

`Catalog.update_eq` says what an update does to the entries of a catalog: the keys that are missing come at
the end, each once, and the extra ones go. `update_reread` says that nothing else happens to the texts of a
file that is updated, whatever the file looks like.
-/

namespace Phrasebook

/-! ### First occurrences -/

section Firsts

variable {κ : Type} [BEq κ] [LawfulBEq κ]

theorem eraseDups_filter (p : κ → Bool) (keys : List κ) : (keys.filter p).eraseDups = keys.eraseDups.filter p := by
  induction size : keys.length using Nat.strongRecOn generalizing keys with
  | ind bound ih =>
    cases keys with
    | nil => rfl
    | cons key rest =>
      have shorter : (rest.filter fun other => !other == key).length < bound := by
        rw [← size, List.length_cons]
        exact Nat.lt_succ_of_le (List.length_filter_le _ _)
      have later := ih _ shorter _ rfl
      rw [List.eraseDups_cons]
      by_cases kept : p key = true
      · rw [List.filter_cons_of_pos kept, List.filter_cons_of_pos kept, List.eraseDups_cons, ← later,
          List.filter_filter, List.filter_filter]
        simp only [Bool.and_comm]
      · have absorbed (other : κ) : (p other && !other == key) = p other := by
          by_cases same : other = key
          · simp [same, kept]
          · simp [same]
        rw [List.filter_cons_of_neg kept, List.filter_cons_of_neg kept, ← later, List.filter_filter]
        simp only [absorbed]

theorem eraseDups_cons_filter (key : κ) (rest : List κ) :
    (key :: rest).eraseDups = key :: rest.eraseDups.filter fun other => !other == key := by
  rw [List.eraseDups_cons, eraseDups_filter]

theorem nodup_eraseDups (keys : List κ) : keys.eraseDups.Nodup := by
  induction keys with
  | nil => exact List.nodup_nil
  | cons key rest ih =>
    rw [eraseDups_cons_filter]
    exact List.nodup_cons.mpr ⟨fun member => by simpa using (List.mem_filter.mp member).2, ih.filter _⟩

theorem eraseDups_of_nodup {keys : List κ} (distinct : keys.Nodup) : keys.eraseDups = keys := by
  induction keys with
  | nil => rfl
  | cons key rest ih =>
    obtain ⟨fresh, later⟩ := List.nodup_cons.mp distinct
    rw [eraseDups_cons_filter, ih later, List.filter_eq_self.mpr]
    rintro other isIn
    have apart : other ≠ key := fun same => fresh (same ▸ isIn)
    simpa using apart

end Firsts

/-- The first occurrences that are not among some keys, one key further. -/
theorem lacking_cons_known {known : List CodePoints} {key : CodePoints} (member : key ∈ known) (rest : List CodePoints) :
    ((key :: rest).eraseDups.filter fun other => other ∉ known) = rest.eraseDups.filter fun other => other ∉ known := by
  rw [eraseDups_cons_filter, List.filter_cons_of_neg (by simpa using member), List.filter_filter]
  refine List.filter_congr fun other _ => ?_
  by_cases same : other = key
  · simp [same, member]
  · simp [same]

theorem lacking_cons_new {known : List CodePoints} {key : CodePoints} (absent : key ∉ known) (rest : List CodePoints) :
    ((key :: rest).eraseDups.filter fun other => other ∉ known) =
      key :: rest.eraseDups.filter fun other => other ∉ known ++ [key] := by
  rw [eraseDups_cons_filter, List.filter_cons_of_pos (by simpa using absent), List.filter_filter]
  refine congrArg (key :: ·) (List.filter_congr fun other _ => ?_)
  by_cases same : other = key <;> simp [same]

theorem firsts_eq (keys : List CodePoints) : firsts keys = keys.eraseDups := by
  have run (kept : List CodePoints) :
      keys.foldl (fun kept key => if kept.contains key then kept else kept ++ [key]) kept =
        kept ++ keys.eraseDups.filter fun key => key ∉ kept := by
    induction keys generalizing kept with
    | nil => simp
    | cons key rest ih =>
      rw [List.foldl_cons, ih]
      by_cases known : key ∈ kept
      · rw [if_pos (by simpa using known), lacking_cons_known known]
      · rw [if_neg (by simpa using known), lacking_cons_new known, List.append_assoc, List.singleton_append]
  rw [firsts, run]
  simp

/-! ### What an update does -/

namespace Catalog

theorem contains_iff {entries : List (CodePoints × Json)} {key : CodePoints} :
    Members.contains entries key = true ↔ key ∈ Members.names entries := by
  simp only [Members.contains, Members.names, List.any_eq_true, List.mem_map, beq_iff_eq]

/-- A key that is missing, put behind the entries. -/
def blankEntry (key : CodePoints) : CodePoints × Json := (key, .string [])

/-- The entries with a key, and the keys added so far. -/
def insertKey (state : List (CodePoints × Json) × List CodePoints) (key : CodePoints) : List (CodePoints × Json) × List CodePoints :=
  if Members.contains state.1 key then state else (state.1 ++ [blankEntry key], state.2 ++ [key])

/-- The entries without a key, and the keys removed so far. -/
def deleteKey (state : List (CodePoints × Json) × List CodePoints) (key : CodePoints) : List (CodePoints × Json) × List CodePoints :=
  if Members.contains state.1 key then (Members.erase state.1 key, state.2 ++ [key]) else state

theorem update_runs (catalog : Catalog) (diff : KeyDiff) :
    catalog.update diff =
      let inserted := diff.missing.foldl insertKey (catalog.entries, [])
      let deleted := diff.extra.foldl deleteKey (inserted.1, [])
      ⟨{ catalog with entries := deleted.1 }, inserted.2, deleted.2⟩ := rfl

theorem names_blanks (keys : List CodePoints) : Members.names (keys.map blankEntry) = keys := by
  rw [Members.names, List.map_map]
  exact List.map_id keys

theorem names_append (first second : List (CodePoints × Json)) :
    Members.names (first ++ second) = Members.names first ++ Members.names second := List.map_append

theorem insertKeys (missing : List CodePoints) (entries : List (CodePoints × Json)) (added : List CodePoints) :
    missing.foldl insertKey (entries, added) =
      (entries ++ (missing.eraseDups.filter fun key => key ∉ Members.names entries).map blankEntry,
        added ++ missing.eraseDups.filter fun key => key ∉ Members.names entries) := by
  induction missing generalizing entries added with
  | nil => simp
  | cons key rest ih =>
    rw [List.foldl_cons]
    by_cases known : key ∈ Members.names entries
    · have step : insertKey (entries, added) key = (entries, added) := if_pos (contains_iff.mpr known)
      rw [step, ih, lacking_cons_known known]
    · have step : insertKey (entries, added) key = (entries ++ [blankEntry key], added ++ [key]) :=
        if_neg fun member => known (contains_iff.mp member)
      have names : Members.names (entries ++ [blankEntry key]) = Members.names entries ++ [key] :=
        names_append entries [blankEntry key]
      rw [step, ih, names, lacking_cons_new known, List.map_cons, List.append_assoc, List.append_assoc,
        List.singleton_append, List.singleton_append]

theorem mem_names_erase {entries : List (CodePoints × Json)} {key other : CodePoints} :
    other ∈ Members.names (Members.erase entries key) ↔ other ∈ Members.names entries ∧ other ≠ key := by
  simp only [Members.names, Members.erase, List.mem_map, List.mem_filter, Bool.not_eq_true', beq_eq_false_iff_ne]
  constructor
  · rintro ⟨member, ⟨isIn, apart⟩, rfl⟩
    exact ⟨⟨member, isIn, rfl⟩, apart⟩
  · rintro ⟨⟨member, isIn, rfl⟩, apart⟩
    exact ⟨member, ⟨isIn, apart⟩, rfl⟩

theorem erase_filter (entries : List (CodePoints × Json)) (key : CodePoints) (rest : List CodePoints) :
    ((Members.erase entries key).filter fun member => member.1 ∉ rest) =
      entries.filter fun member => member.1 ∉ key :: rest := by
  rw [Members.erase, List.filter_filter]
  refine List.filter_congr fun member _ => ?_
  by_cases same : member.1 = key <;> simp [same]

theorem deleteKeys (extra : List CodePoints) (entries : List (CodePoints × Json)) (removed : List CodePoints) :
    extra.foldl deleteKey (entries, removed) =
      (entries.filter fun member => member.1 ∉ extra,
        removed ++ extra.eraseDups.filter fun key => key ∈ Members.names entries) := by
  induction extra generalizing entries removed with
  | nil => simp
  | cons key rest ih =>
    rw [List.foldl_cons, eraseDups_cons_filter, ← erase_filter]
    by_cases known : key ∈ Members.names entries
    · have step : deleteKey (entries, removed) key = (Members.erase entries key, removed ++ [key]) :=
        if_pos (contains_iff.mpr known)
      rw [step, ih, List.filter_cons_of_pos (by simpa using known), List.append_assoc, List.singleton_append,
        List.filter_filter]
      simp only [mem_names_erase, Bool.decide_and, decide_not, ne_eq, ← Bool.beq_eq_decide_eq]
    · have step : deleteKey (entries, removed) key = (entries, removed) :=
        if_neg fun member => known (contains_iff.mp member)
      have kept : Members.erase entries key = entries := by
        refine List.filter_eq_self.mpr fun member isIn => ?_
        have apart : member.1 ≠ key := fun same => known (same ▸ List.mem_map_of_mem isIn)
        simpa using apart
      rw [step, ih, kept, List.filter_cons_of_neg (by simpa using known), List.filter_filter]
      refine congrArg (fun keys => (_, removed ++ keys)) (List.filter_congr fun other _ => ?_)
      by_cases same : other = key <;> simp [same, known]

/-- What an update leaves: the entries whose keys are not extra, and behind them the keys that were
missing and are not extra. -/
theorem update_eq (catalog : Catalog) (diff : KeyDiff) :
    catalog.update diff =
      ⟨{ catalog with entries := (catalog.entries.filter fun member => member.1 ∉ diff.extra) ++
          (diff.missing.eraseDups.filter fun key => key ∉ catalog.keys ∧ key ∉ diff.extra).map blankEntry },
        diff.missing.eraseDups.filter fun key => key ∉ catalog.keys,
        diff.extra.eraseDups.filter fun key => key ∈ catalog.keys ∨ key ∈ diff.missing⟩ := by
  have kept : ((catalog.entries ++ (diff.missing.eraseDups.filter fun key => key ∉ catalog.keys).map blankEntry).filter
      fun member => member.1 ∉ diff.extra) =
      (catalog.entries.filter fun member => member.1 ∉ diff.extra) ++
        (diff.missing.eraseDups.filter fun key => key ∉ catalog.keys ∧ key ∉ diff.extra).map blankEntry := by
    rw [List.filter_append, List.filter_map, List.filter_filter]
    refine congrArg (_ ++ List.map blankEntry ·) (List.filter_congr fun key _ => ?_)
    rw [Bool.decide_and, Bool.and_comm]
    rfl
  have gone : (diff.extra.eraseDups.filter fun key => key ∈ Members.names (catalog.entries ++
      (diff.missing.eraseDups.filter fun key => key ∉ catalog.keys).map blankEntry)) =
      diff.extra.eraseDups.filter fun key => key ∈ catalog.keys ∨ key ∈ diff.missing := by
    refine List.filter_congr fun key _ => decide_eq_decide.mpr ?_
    rw [names_append, names_blanks, List.mem_append, List.mem_filter, List.mem_eraseDups, decide_eq_true_iff]
    change key ∈ catalog.keys ∨ _ ↔ _
    tauto
  rw [update_runs, insertKeys]
  simp only [deleteKeys, List.nil_append]
  rw [← kept, ← gone]
  rfl

/-! ### Files that are updated -/

theorem plain_update {catalog : Catalog} (plain : Json.Plain (.object catalog.entries)) (diff : KeyDiff) :
    Json.Plain (.object (catalog.update diff).catalog.entries) := by
  obtain ⟨distinct, plains⟩ := plain
  rw [update_eq]
  constructor
  · rw [names_append, names_blanks]
    refine List.nodup_append.mpr ⟨?_, (nodup_eraseDups _).filter _, ?_⟩
    · exact distinct.sublist (List.filter_sublist.map _)
    · rintro key old other new rfl
      obtain ⟨member, isIn, rfl⟩ := List.mem_map.mp old
      have absent := (of_decide_eq_true (List.mem_filter.mp new).2).1
      exact absent (List.mem_map_of_mem (List.mem_filter.mp isIn).1)
  · refine Json.plainMembers_iff.mpr fun member isIn => ?_
    rcases List.mem_append.mp isIn with old | new
    · exact Json.plainMembers_iff.mp plains member (List.mem_filter.mp old).1
    · obtain ⟨key, -, rfl⟩ := List.mem_map.mp new
      trivial

/-- The file of an updated catalog is read back with the entries of the update. -/
theorem exists_written {locale path : String} {contents : CodePoints} {catalog : Catalog}
    (parsed : parse locale contents path = .ok catalog) (free : Json.FloatFree (.object catalog.entries))
    (diff : KeyDiff) :
    ∃ written, (catalog.update diff).catalog.serialize = .ok written ∧
      parse locale written path = .ok ⟨locale, (catalog.update diff).catalog.entries, some (.detect written)⟩ := by
  obtain ⟨read, same⟩ := parse_ok parsed
  have plain := plain_update (Json.read_plain read free) diff
  have known : (catalog.update diff).catalog.format = some (.detect contents) := by
    rw [update_eq, same]
  exact ⟨_, serialize_laidOut known, (parse_legible parsed).parse_text plain locale path⟩

/-- An update loses no text of a file, whatever the file looks like: read again, the updated file has the
entries of the old one without the extra keys, as they were, and behind them the missing keys that are new,
each once and without a text. The update names the keys that it adds and removes. -/
theorem update_reread {locale path : String} {contents : CodePoints} {catalog : Catalog}
    (parsed : parse locale contents path = .ok catalog) (free : Json.FloatFree (.object catalog.entries))
    (diff : KeyDiff) :
    ∃ written reread, (catalog.update diff).catalog.serialize = .ok written ∧
      parse locale written path = .ok reread ∧
      reread.entries = (catalog.entries.filter fun member => member.1 ∉ diff.extra) ++
        (diff.missing.eraseDups.filter fun key => key ∉ catalog.keys ∧ key ∉ diff.extra).map
          (fun key => (key, .string [])) ∧
      (catalog.update diff).added = (diff.missing.eraseDups.filter fun key => key ∉ catalog.keys) ∧
      (catalog.update diff).removed =
        diff.extra.eraseDups.filter fun key => key ∈ catalog.keys ∨ key ∈ diff.missing := by
  obtain ⟨written, serialized, again⟩ := exists_written parsed free diff
  refine ⟨written, _, serialized, again, ?_, ?_, ?_⟩
  · rw [update_eq]
    rfl
  · rw [update_eq]
  · rw [update_eq]

/-- A file with a blank line and everything else on one line, with the names of two halves that stand
alone, one of them twice. -/
theorem update_reread_mixed :
    let name : Text := ['"', '\\', 'u', 'd', '8', '0']
    let contents := Text.points (['{', '\n', '\r', '\n', '\t'] ++ name ++ ['0', '"', ':', '1', ','] ++
      name ++ ['1', '"', ':', '[', ']', ','] ++ name ++ ['0', '"', ' ', ':', 'n', 'u', 'l', 'l', '}', '\r'])
    let catalog : Catalog :=
      ⟨"en", [([.half 0], .null), ([.half 1], .array [])], some ⟨['\n', '\r', '\n'], ['\t'], false⟩⟩
    let diff : KeyDiff := ⟨[['c'], [.half 0], ['c'], ['d']], [[.half 1], ['d'], [.half 1]]⟩
    parse "en" contents "en.json" = .ok catalog ∧ Json.FloatFree (.object catalog.entries) ∧
      ∃ written reread, (catalog.update diff).catalog.serialize = .ok written ∧
        parse "en" written "en.json" = .ok reread ∧
        reread.entries = [([.half 0], .null), ([.char 'c'], .string [])] := by
  intro name contents catalog diff
  have parsed : parse "en" contents "en.json" = .ok catalog := by cbv
  have free : Json.FloatFree (.object catalog.entries) := ⟨trivial, trivial, ⟨trivial, trivial⟩, trivial⟩
  obtain ⟨written, reread, serialized, again, entries, -⟩ := update_reread parsed free diff
  exact ⟨parsed, free, written, reread, serialized, again, entries⟩

end Catalog

end Phrasebook
