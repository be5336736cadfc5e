import Phrasebook.Json.Value
import Mathlib.Data.List.Nodup

/-!
Members of objects. Changing the value of a name leaves all other names with their values, in their
places; where names are distinct, a member is what its name is looked up to be.
-/

namespace Phrasebook.Members

variable {κ β γ : Type} [BEq κ] [LawfulBEq κ]

theorem get?_cons_self (members : List (κ × β)) (name : κ) (value : β) :
    get? ((name, value) :: members) name = some value := by
  simp [get?]

theorem get?_cons_of_ne (members : List (κ × β)) {first name : κ} (apart : first ≠ name) (value : β) :
    get? ((first, value) :: members) name = get? members name := by
  simp [get?, apart]

theorem alter_cons_self (members : List (κ × β)) (name : κ) (value : β) (change : Option β → β) :
    alter ((name, value) :: members) name change = (name, change (some value)) :: members := by
  simp [alter]

theorem alter_cons_of_ne (members : List (κ × β)) {first name : κ} (apart : first ≠ name) (value : β)
    (change : Option β → β) :
    alter ((first, value) :: members) name change =
      (first, value) :: alter members name change := by
  simp [alter, apart]

theorem get?_alter_self (members : List (κ × β)) (name : κ) (change : Option β → β) :
    get? (alter members name change) name = some (change (get? members name)) := by
  induction members with
  | nil => simp [alter, get?]
  | cons member rest ih =>
    obtain ⟨first, value⟩ := member
    by_cases here : first = name
    · subst here
      rw [alter_cons_self, get?_cons_self, get?_cons_self]
    · rw [alter_cons_of_ne rest here, get?_cons_of_ne _ here, get?_cons_of_ne _ here, ih]

theorem get?_alter_of_ne (members : List (κ × β)) {name key : κ} (apart : name ≠ key)
    (change : Option β → β) : get? (alter members name change) key = get? members key := by
  induction members with
  | nil => simp [alter, get?, apart]
  | cons member rest ih =>
    obtain ⟨first, value⟩ := member
    by_cases here : first = name
    · subst here
      rw [alter_cons_self, get?_cons_of_ne _ apart, get?_cons_of_ne _ apart]
    · rw [alter_cons_of_ne rest here]
      by_cases same : first = key
      · subst same
        rw [get?_cons_self, get?_cons_self]
      · rw [get?_cons_of_ne _ same, get?_cons_of_ne _ same, ih]

theorem mem_names_alter {members : List (κ × β)} {name key : κ} {change : Option β → β}
    (member : key ∈ names (alter members name change)) : key ∈ names members ∨ key = name := by
  induction members with
  | nil => exact .inr (by simpa [alter, names] using member)
  | cons first rest ih =>
    obtain ⟨first, value⟩ := first
    by_cases here : first = name
    · subst here
      rw [alter_cons_self] at member
      exact .inl member
    · rw [alter_cons_of_ne rest here] at member
      rcases List.mem_cons.mp member with same | later
      · exact .inl (List.mem_cons.mpr (.inl same))
      · exact (ih later).imp_left fun found => List.mem_cons_of_mem _ found

theorem nodup_names_alter {members : List (κ × β)} (distinct : (names members).Nodup) (name : κ)
    (change : Option β → β) : (names (alter members name change)).Nodup := by
  induction members with
  | nil => exact List.nodup_singleton name
  | cons member rest ih =>
    obtain ⟨first, value⟩ := member
    obtain ⟨fresh, tail⟩ := List.nodup_cons.mp distinct
    by_cases here : first = name
    · subst here
      rw [alter_cons_self]
      exact distinct
    · rw [alter_cons_of_ne rest here]
      exact List.nodup_cons.mpr
        ⟨fun member => (mem_names_alter member).elim fresh here, ih tail⟩

theorem get?_of_mem {members : List (κ × β)} (distinct : (names members).Nodup) {name : κ} {value : β}
    (member : (name, value) ∈ members) : get? members name = some value := by
  induction members with
  | nil => simp at member
  | cons first rest ih =>
    obtain ⟨fresh, tail⟩ := List.nodup_cons.mp distinct
    rcases List.mem_cons.mp member with rfl | later
    · exact get?_cons_self rest name value
    · have apart : first.1 ≠ name := by
        rintro rfl
        exact fresh (List.mem_map.mpr ⟨_, later, rfl⟩)
      rw [get?_cons_of_ne rest apart, ih tail later]

theorem mem_of_get? {members : List (κ × β)} {name : κ} {value : β}
    (found : get? members name = some value) : (name, value) ∈ members := by
  obtain ⟨member, isFound, rfl⟩ := Option.map_eq_some_iff.mp found
  have same : member.1 = name := by simpa using List.find?_some isFound
  subst same
  exact List.mem_of_find?_eq_some isFound

theorem get?_eq_none {members : List (κ × β)} {name : κ} (absent : name ∉ names members) :
    get? members name = none := by
  cases found : get? members name with
  | none => rfl
  | some value => exact (absent (List.mem_map.mpr ⟨_, mem_of_get? found, rfl⟩)).elim

theorem alter_of_not_mem {members : List (κ × β)} {name : κ} (fresh : name ∉ names members)
    (change : Option β → β) : alter members name change = members ++ [(name, change none)] := by
  induction members with
  | nil => rfl
  | cons member rest ih =>
    obtain ⟨apart, later⟩ := not_or.mp (fun h => fresh (List.mem_cons.mpr h))
    rw [alter_cons_of_ne rest (Ne.symm apart), ih later, List.cons_append]

theorem put_of_not_mem {members : List (κ × β)} {name : κ} (fresh : name ∉ names members) (value : β) :
    put members name value = members ++ [(name, value)] := alter_of_not_mem fresh _

theorem get?_map (members : List (κ × β)) (change : κ → β → γ) (name : κ) :
    get? (members.map fun member => (member.1, change member.1 member.2)) name =
      (get? members name).map (change name) := by
  induction members with
  | nil => rfl
  | cons member rest ih =>
    obtain ⟨first, value⟩ := member
    by_cases same : first = name
    · subst same
      rw [List.map_cons, get?_cons_self, get?_cons_self]
      rfl
    · rw [List.map_cons, get?_cons_of_ne _ same, get?_cons_of_ne _ same, ih]

theorem get?_append_of_not_mem {front : List (κ × β)} {name : κ} (absent : name ∉ names front)
    (back : List (κ × β)) : get? (front ++ back) name = get? back name := by
  induction front with
  | nil => rfl
  | cons member rest ih =>
    obtain ⟨apart, later⟩ := not_or.mp (fun h => absent (List.mem_cons.mpr h))
    rw [List.cons_append, get?_cons_of_ne _ (Ne.symm apart), ih later]

theorem put_append_of_not_mem {front : List (κ × β)} {name : κ} (absent : name ∉ names front) (old new : β)
    (back : List (κ × β)) :
    put (front ++ (name, old) :: back) name new = front ++ (name, new) :: back := by
  unfold put
  induction front with
  | nil => exact alter_cons_self back name old _
  | cons member rest ih =>
    obtain ⟨apart, later⟩ := not_or.mp (fun h => absent (List.mem_cons.mpr h))
    rw [List.cons_append, alter_cons_of_ne _ (Ne.symm apart), ih later, List.cons_append]

theorem mem_put {members : List (κ × β)} {name : κ} {value : β} {member : κ × β}
    (isIn : member ∈ put members name value) : member ∈ members ∨ member = (name, value) := by
  unfold put at isIn
  induction members with
  | nil => exact .inr (by simpa [alter] using isIn)
  | cons first rest ih =>
    obtain ⟨first, known⟩ := first
    by_cases here : first = name
    · subst here
      rw [alter_cons_self] at isIn
      exact (List.mem_cons.mp isIn).elim .inr fun later => .inl (List.mem_cons_of_mem _ later)
    · rw [alter_cons_of_ne rest here] at isIn
      rcases List.mem_cons.mp isIn with rfl | later
      · exact .inl List.mem_cons_self
      · exact (ih later).imp_left (List.mem_cons_of_mem _)

end Phrasebook.Members
