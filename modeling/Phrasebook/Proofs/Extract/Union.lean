import Phrasebook.Proofs.Extract.Keys

/-!
# The parts of merged findings

The texts and keys of merged findings stand in the order in which they first occur in the findings that were
merged. Every text has the places it has in each of them, and every key the calls and the parameters, in
order.
-/

namespace Phrasebook

namespace Members

variable {κ α β : Type} [BEq κ] [LawfulBEq κ]

theorem names_alter {members : List (κ × β)} {seen : List κ} (known : names members = seen.eraseDups) (name : κ)
    (change : Option β → β) : names (alter members name change) = (seen ++ [name]).eraseDups := by
  have cut : (seen ++ [name]).eraseDups = if name ∈ seen then seen.eraseDups else seen.eraseDups ++ [name] := by
    rw [List.eraseDups_append]
    by_cases isSeen : name ∈ seen <;> simp [List.removeAll, isSeen, List.eraseDups_cons]
  have added (members : List (κ × β)) : names (alter members name change) =
      if name ∈ names members then names members else names members ++ [name] := by
    induction members with
    | nil => rfl
    | cons member rest ih =>
      obtain ⟨first, value⟩ := member
      by_cases same : first = name
      · subst same
        rw [alter_cons_self]
        simp [names]
      · rw [alter_cons_of_ne rest same]
        show first :: names (alter rest name change) = _
        rw [ih]
        by_cases isLater : name ∈ names rest
        · have isIn : name ∈ names ((first, value) :: rest) := List.mem_cons_of_mem _ isLater
          rw [if_pos isLater, if_pos isIn]
          rfl
        · have notIn : name ∉ names ((first, value) :: rest) := by
            rintro (_ | isLater')
            · exact same rfl
            · exact isLater ‹_›
          rw [if_neg isLater, if_neg notIn]
          rfl
  rw [added, cut, known]
  simp only [List.mem_eraseDups]

/-- Names that are altered one after the other stand in the order of their first occurrence. -/
theorem names_foldl {entries : List α} {members : List (κ × β)} {seen : List κ}
    (known : names members = seen.eraseDups) (nameOf : α → κ) (change : α → Option β → β) :
    names (entries.foldl (fun members entry => alter members (nameOf entry) (change entry)) members) =
      (seen ++ entries.map nameOf).eraseDups := by
  induction entries generalizing members seen with
  | nil => rw [List.map_nil, List.append_nil]; exact known
  | cons entry rest ih =>
    rw [List.foldl_cons, ih (names_alter known (nameOf entry) (change entry)), List.map_cons, List.append_assoc]
    rfl

end Members

namespace Extract

open Template

/-! ### Sets of names -/

theorem mem_union {set more : List Text} {name : Text} : name ∈ union set more ↔ name ∈ set ∨ name ∈ more := by
  unfold union
  induction more generalizing set with
  | nil => simp
  | cons first rest ih =>
    rw [List.foldl_cons, ih]
    by_cases isKnown : first ∈ set
    · simp only [List.contains_eq_mem, isKnown, decide_true, if_true, List.mem_cons]
      refine ⟨fun either => either.imp_right .inr, ?_⟩
      rintro (isIn | rfl | isLater)
      · exact .inl isIn
      · exact .inl isKnown
      · exact .inr isLater
    · simp [List.contains_eq_mem, isKnown, or_assoc]

theorem nodup_union {set : List Text} (distinct : set.Nodup) (more : List Text) : (union set more).Nodup := by
  unfold union
  induction more generalizing set with
  | nil => exact distinct
  | cons first rest ih =>
    rw [List.foldl_cons]
    apply ih
    by_cases isKnown : first ∈ set
    · simpa [isKnown] using distinct
    · simp only [List.contains_eq_mem, isKnown, decide_false, Bool.false_eq_true, if_false]
      exact List.nodup_append.mpr ⟨distinct, List.nodup_singleton first, by
        rintro name isIn other isFirst rfl
        exact isKnown (List.mem_singleton.mp isFirst ▸ isIn)⟩

/-! ### Texts and keys -/

/-- The places of a text. -/
def Texts.placesOf (texts : Texts) (text : Text) : List Location := (Members.get? texts text).getD []

/-- The calls with a key. -/
def Keys.useOf (keys : Keys) (key : Text) : KeyUse := (Members.get? keys key).getD ⟨[], []⟩

theorem Keys.useOf_merge (keys : Keys) {more : Keys} (distinct : (Members.names more).Nodup) (key : Text) :
    (keys.merge more).useOf key = ⟨union (keys.useOf key).parameters (more.useOf key).parameters,
      (keys.useOf key).sites ++ (more.useOf key).sites⟩ := by
  unfold Keys.merge
  induction more generalizing keys with
  | nil => simp [Keys.useOf, Members.get?, union]
  | cons entry rest ih =>
    obtain ⟨first, use⟩ := entry
    obtain ⟨fresh, tail⟩ := List.nodup_cons.mp distinct
    rw [List.foldl_cons, ih (keys.add first use.parameters use.sites) tail]
    by_cases same : first = key
    · subst same
      have unused : Keys.useOf rest first = ⟨[], []⟩ := by rw [Keys.useOf, Members.get?_eq_none fresh]; rfl
      rw [unused]
      simp [Keys.useOf, Keys.add, Members.get?_alter_self, Members.get?_cons_self, union]
    · simp only [Keys.useOf, Keys.add, Members.get?_alter_of_ne _ same, Members.get?_cons_of_ne _ same]

theorem mergeAll_keys (found : List Findings) :
    (mergeAll found).keys = (found.map Findings.keys).foldl Keys.merge [] := by
  have general (start : Findings) : (found.foldl Findings.merge start).keys =
      (found.map Findings.keys).foldl Keys.merge start.keys := by
    induction found generalizing start with
    | nil => rfl
    | cons findings rest ih =>
      rw [List.foldl_cons, ih]
      rfl
  exact general .empty

/-! ### Merged findings -/

/-- Findings that are others merged in order. -/
structure MergedFrom (found : List Findings) (merged : Findings) : Prop where
  texts : Members.names merged.texts = (found.flatMap fun findings => Members.names findings.texts).eraseDups
  places (text : Text) : merged.texts.placesOf text = found.flatMap fun findings => findings.texts.placesOf text
  keys : Members.names merged.keys = (found.flatMap fun findings => Members.names findings.keys).eraseDups
  sites (key : Text) :
    (merged.keys.useOf key).sites = found.flatMap fun findings => (findings.keys.useOf key).sites
  parameters (key name : Text) : name ∈ (merged.keys.useOf key).parameters ↔
    ∃ findings ∈ found, name ∈ (findings.keys.useOf key).parameters
  distinct (key : Text) : (merged.keys.useOf key).parameters.Nodup

theorem names_merges {β : Type} {merge : List (Text × β) → List (Text × β) → List (Text × β)}
    (step : ∀ members more seen, Members.names members = seen.eraseDups →
      Members.names (merge members more) = (seen ++ Members.names more).eraseDups) (lists : List (List (Text × β))) :
    Members.names (lists.foldl merge []) = (lists.flatMap Members.names).eraseDups := by
  have general (start : List (Text × β)) (seen : List Text) (known : Members.names start = seen.eraseDups) :
      Members.names (lists.foldl merge start) = (seen ++ lists.flatMap Members.names).eraseDups := by
    induction lists generalizing start seen with
    | nil => rw [List.flatMap_nil, List.append_nil]; exact known
    | cons more rest ih =>
      rw [List.foldl_cons, ih _ _ (step start more seen known), List.flatMap_cons, List.append_assoc]
  exact general [] [] rfl

theorem mergeAll_useOf {found : List Findings} (distinct : ∀ findings ∈ found, (Members.names findings.keys).Nodup)
    (key : Text) :
    ((mergeAll found).keys.useOf key).sites = (found.flatMap fun findings => (findings.keys.useOf key).sites) ∧
    (∀ name, name ∈ ((mergeAll found).keys.useOf key).parameters ↔
      ∃ findings ∈ found, name ∈ (findings.keys.useOf key).parameters) ∧
    ((mergeAll found).keys.useOf key).parameters.Nodup := by
  rw [mergeAll_keys]
  have general (start : Keys) (nodup : (start.useOf key).parameters.Nodup) :
      let keys := (found.map Findings.keys).foldl Keys.merge start
      (keys.useOf key).sites = (start.useOf key).sites ++
        (found.flatMap fun findings => (findings.keys.useOf key).sites) ∧
      (∀ name, name ∈ (keys.useOf key).parameters ↔ name ∈ (start.useOf key).parameters ∨
        ∃ findings ∈ found, name ∈ (findings.keys.useOf key).parameters) ∧ (keys.useOf key).parameters.Nodup := by
    induction found generalizing start with
    | nil => simpa using nodup
    | cons findings rest ih =>
      obtain ⟨here, later⟩ := List.forall_mem_cons.mp distinct
      have merged := Keys.useOf_merge start here key
      obtain ⟨sites, parameters, nodup'⟩ := ih later (start.merge findings.keys)
        (by rw [merged]; exact nodup_union nodup _)
      rw [merged] at sites parameters
      refine ⟨?_, fun name => ?_, nodup'⟩
      · rw [List.map_cons, List.foldl_cons, sites, List.flatMap_cons, List.append_assoc]
      · rw [List.map_cons, List.foldl_cons, parameters, mem_union]
        simp only [List.exists_mem_cons_iff, or_assoc]
  simpa [Keys.useOf, Members.get?] using general [] List.nodup_nil

/-- What merging comes to, text by text and key by key. -/
theorem mergedFrom {found : List Findings} (texts : ∀ findings ∈ found, (Members.names findings.texts).Nodup)
    (keys : ∀ findings ∈ found, (Members.names findings.keys).Nodup) : MergedFrom found (mergeAll found) where
  texts := by
    rw [mergeAll_texts, names_merges, List.flatMap_map]
    exact fun members more seen known => Members.names_foldl known Prod.fst fun entry known => known.getD [] ++ entry.2
  places := mergeAll_places texts
  keys := by
    rw [mergeAll_keys, names_merges, List.flatMap_map]
    exact fun members more seen known => Members.names_foldl known Prod.fst fun (entry : Text × KeyUse) known =>
      ⟨union (known.getD ⟨[], []⟩).parameters entry.2.parameters, (known.getD ⟨[], []⟩).sites ++ entry.2.sites⟩
  sites key := (mergeAll_useOf keys key).1
  parameters key := (mergeAll_useOf keys key).2.1
  distinct key := (mergeAll_useOf keys key).2.2

/-! ### Findings of one template -/

theorem collectAll_distinct {source : String} {helper : Text} {keys keys' : Keys} {nodes : List (Node Span)}
    (distinct : (Members.names keys).Nodup) (h : nodes.foldlM (collectAt source helper) keys = .ok keys') :
    (Members.names keys').Nodup := by
  induction nodes generalizing keys with
  | nil => exact Except.ok.inj h ▸ distinct
  | cons node rest ih =>
    obtain ⟨next, here, later⟩ := bind_ok h
    refine ih ?_ later
    unfold collectAt collectKey at here
    split at here
    · exact Except.ok.inj here ▸ distinct
    · split at here
      · split at here
        · exact Except.ok.inj here ▸ Members.nodup_names_alter distinct _ _
        · cases here
      · exact Except.ok.inj here ▸ distinct

theorem Analysed.nodup_texts {helper : Text} {template : Template} {findings : Findings}
    (h : Analysed helper template findings) : (Members.names findings.texts).Nodup := by
  obtain ⟨extents, ranges⟩ := h.ranges
  exact ranges.recorded.distinct

theorem Analysed.nodup_keys {helper : Text} {template : Template} {findings : Findings}
    (h : Analysed helper template findings) : (Members.names findings.keys).Nodup := by
  obtain ⟨loaded, visits, done⟩ := h
  obtain ⟨tree, parsed, eq⟩ := load_parsed loaded
  rw [eq] at done
  obtain ⟨-, -, collected⟩ := (analyse_apart (by decide)).mp (Outcome.eq_of_result done)
  have empty : (Members.names ([] : Keys)).Nodup := List.nodup_nil
  exact collectAll_distinct empty (collectAll_fresh (fresh_nodes parsed) collected)

theorem mergedFrom_analysed {helper : Text} {analysed : List (Template × Findings)}
    (each : ∀ pair ∈ analysed, Analysed helper pair.1 pair.2) :
    MergedFrom (analysed.map Prod.snd) (mergeAll (analysed.map Prod.snd)) :=
  mergedFrom (List.forall_mem_map.mpr fun pair isIn => (each pair isIn).nodup_texts)
    (List.forall_mem_map.mpr fun pair isIn => (each pair isIn).nodup_keys)

/-- Findings of one template alone keep their texts. -/
theorem mergeAll_single {findings : Findings} (distinct : (Members.names findings.texts).Nodup) :
    (mergeAll [findings]).texts = findings.texts := by
  have general (more texts : Texts) (distinct : (Members.names (texts ++ more)).Nodup) :
      texts.merge more = texts ++ more := by
    unfold Texts.merge
    induction more generalizing texts with
    | nil => exact (List.append_nil texts).symm
    | cons entry rest ih =>
      obtain ⟨text, places⟩ := entry
      have fresh : text ∉ Members.names texts := by
        rw [Members.names, List.map_append, List.map_cons] at distinct
        exact fun isIn => List.disjoint_of_nodup_append distinct isIn List.mem_cons_self
      have step : texts.add text places = texts ++ [(text, places)] := Members.alter_of_not_mem fresh _
      have split : texts ++ (text, places) :: rest = texts ++ [(text, places)] ++ rest := by simp
      have later := ih (texts ++ [(text, places)]) (split ▸ distinct)
      rw [← step] at later
      rw [List.foldl_cons, split, ← step]
      exact later
  exact general findings.texts [] distinct

end Extract

end Phrasebook
