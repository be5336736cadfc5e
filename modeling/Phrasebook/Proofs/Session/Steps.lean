import Mathlib.Data.List.Forall2
import Phrasebook.Session

/-!
# Steps of a run

`Ends step state ok stop` says how a step that is taken in a state ends: with a value and in a state for
which `ok` holds, or with an error and in a state for which `stop` holds. There is a rule for each way of
building steps.
-/

namespace Phrasebook

variable {ε σ α β : Type}

/-- The second of two steps runs where the first has ended. -/
theorem run_bind_ok {first : ExceptT ε (StateM σ) α} {value : α} {state between : σ}
    (ran : first.run.run state = (.ok value, between)) (next : α → ExceptT ε (StateM σ) β) :
    (first >>= next).run.run state = (next value).run.run between := by
  simp only [ExceptT.run_bind, StateT.run_bind, ran]
  rfl

/-- The second of two steps does not run where the first has failed. -/
theorem run_bind_error {first : ExceptT ε (StateM σ) α} {trouble : ε} {state between : σ}
    (ran : first.run.run state = (.error trouble, between)) (next : α → ExceptT ε (StateM σ) β) :
    (first >>= next).run.run state = (.error trouble, between) := by
  simp only [ExceptT.run_bind, StateT.run_bind, ran]
  rfl

theorem run_get_bind (next : σ → ExceptT ε (StateM σ) β) (state : σ) :
    (get >>= next).run.run state = (next state).run.run state := rfl

/-- How a step ends that is taken in the given state. -/
structure Ends (step : ExceptT ε (StateM σ) β) (state : σ) (ok : β → σ → Prop) (stop : ε → σ → Prop) : Prop where
  onOk (value : β) (after : σ) : step.run.run state = (.ok value, after) → ok value after
  onError (trouble : ε) (after : σ) : step.run.run state = (.error trouble, after) → stop trouble after

namespace Ends

variable {state : σ} {step : ExceptT ε (StateM σ) β} {ok weaker : β → σ → Prop} {stop looser : ε → σ → Prop}

theorem of_ok {value : β} {after : σ} (ran : step.run.run state = (.ok value, after)) (holds : ok value after) :
    Ends step state ok stop where
  onOk value' after' ran' := by
    obtain ⟨same, rfl⟩ := Prod.mk.inj (ran.symm.trans ran')
    exact Except.ok.inj same ▸ holds
  onError trouble after' ran' := by cases ran.symm.trans ran'

theorem of_error {trouble : ε} {after : σ} (ran : step.run.run state = (.error trouble, after))
    (holds : stop trouble after) : Ends step state ok stop where
  onOk value after' ran' := by cases ran.symm.trans ran'
  onError trouble' after' ran' := by
    obtain ⟨same, rfl⟩ := Prod.mk.inj (ran.symm.trans ran')
    exact Except.error.inj same ▸ holds

/-- Every step ends in some way. -/
theorem any (step : ExceptT ε (StateM σ) β) (state : σ) : Ends step state (fun _ _ => True) fun _ _ => True :=
  ⟨fun _ _ _ => trivial, fun _ _ _ => trivial⟩

theorem mono (ends : Ends step state ok stop) (onOk : ∀ value after, ok value after → weaker value after)
    (onStop : ∀ trouble after, stop trouble after → looser trouble after) : Ends step state weaker looser :=
  ⟨fun value after ran => onOk value after (ends.onOk value after ran),
    fun trouble after ran => onStop trouble after (ends.onError trouble after ran)⟩

theorem and (first : Ends step state ok stop) (second : Ends step state weaker looser) :
    Ends step state (fun value after => ok value after ∧ weaker value after)
      (fun trouble after => stop trouble after ∧ looser trouble after) :=
  ⟨fun value after ran => ⟨first.onOk value after ran, second.onOk value after ran⟩,
    fun trouble after ran => ⟨first.onError trouble after ran, second.onError trouble after ran⟩⟩

/-- What is known of how a step ends can be told along with the end itself. -/
theorem ran (ends : Ends step state ok stop) :
    Ends step state (fun value after => step.run.run state = (.ok value, after) ∧ ok value after) stop :=
  ⟨fun value after ran => ⟨ran, ends.onOk value after ran⟩, ends.onError⟩

/-- A step that cannot end with an error ends with a value. -/
theorem exists_run (ends : Ends step state ok fun _ _ => False) :
    ∃ value after, step.run.run state = (.ok value, after) ∧ ok value after := by
  rcases ran : step.run.run state with ⟨result, after⟩
  cases result with
  | ok value => exact ⟨value, after, rfl, ends.onOk value after ran⟩
  | error trouble => exact (ends.onError trouble after ran).elim

theorem pure {value : β} (holds : ok value state) : Ends (Pure.pure value) state ok stop := .of_ok rfl holds

theorem throw {trouble : ε} (holds : stop trouble state) :
    Ends (throw trouble : ExceptT ε (StateM σ) β) state ok stop := .of_error rfl holds

theorem after_run {first : ExceptT ε (StateM σ) α} {next : α → ExceptT ε (StateM σ) β} {value : α} {between : σ}
    (ran : first.run.run state = (.ok value, between)) (ends : Ends (next value) between ok stop) :
    Ends (first >>= next) state ok stop :=
  have same := run_bind_ok ran next
  ⟨fun _ _ run => ends.onOk _ _ (same.symm.trans run), fun _ _ run => ends.onError _ _ (same.symm.trans run)⟩

theorem bind {first : ExceptT ε (StateM σ) α} {next : α → ExceptT ε (StateM σ) β} {mid : α → σ → Prop}
    (ends : Ends first state mid stop)
    (on : ∀ value between, mid value between → Ends (next value) between ok stop) :
    Ends (first >>= next) state ok stop := by
  rcases ran : first.run.run state with ⟨result, between⟩
  cases result with
  | ok value => exact .after_run ran (on value between (ends.onOk value between ran))
  | error trouble => exact .of_error (run_bind_error ran next) (ends.onError trouble between ran)

theorem map {first : ExceptT ε (StateM σ) α} {f : α → β}
    (ends : Ends first state (fun value after => ok (f value) after) stop) :
    Ends (f <$> first) state ok stop := by
  rw [map_eq_pure_bind]
  exact ends.bind fun _ _ holds => .pure holds

theorem get_bind {next : σ → ExceptT ε (StateM σ) β} (ends : Ends (next state) state ok stop) :
    Ends (get >>= next) state ok stop := ⟨ends.onOk, ends.onError⟩

theorem modify_bind {change : σ → σ} {next : PUnit → ExceptT ε (StateM σ) β}
    (ends : Ends (next ⟨⟩) (change state) ok stop) : Ends (modify change >>= next) state ok stop :=
  ⟨ends.onOk, ends.onError⟩

theorem set {ok : PUnit → σ → Prop} {stop : ε → σ → Prop} {new : σ} (holds : ok ⟨⟩ new) :
    Ends (set new : ExceptT ε (StateM σ) PUnit) state ok stop := .of_ok rfl holds

theorem modify {ok : PUnit → σ → Prop} {stop : ε → σ → Prop} {change : σ → σ} (holds : ok ⟨⟩ (change state)) :
    Ends (modify change : ExceptT ε (StateM σ) PUnit) state ok stop := .of_ok rfl holds

/-! ### One step for every item of a list -/

/-- What holds at the start and is kept by every step holds at the end. -/
theorem forM {items : List α} {each : α → ExceptT ε (StateM σ) PUnit} (inv : σ → Prop) (start : inv state)
    (keeps : ∀ item ∈ items, ∀ before, inv before → Ends (each item) before (fun _ => inv) stop) :
    Ends (items.forM each) state (fun _ => inv) stop := by
  induction items generalizing state with
  | nil => exact .pure start
  | cons item rest ih =>
    exact (keeps item List.mem_cons_self state start).bind fun _ between holds =>
      ih holds fun other isIn => keeps other (List.mem_cons_of_mem item isIn)

/-- Every step brings something about for its item, which goes on being so in later states. -/
theorem forM_fits {items : List α} {each : α → ExceptT ε (StateM σ) PUnit} (inv : σ → Prop) (fits : σ → α → Prop)
    (start : inv state)
    (keeps : ∀ item ∈ items, ∀ before, inv before → Ends (each item) before
      (fun _ after => inv after ∧ fits after item ∧ ∀ other, fits before other → fits after other) stop) :
    Ends (items.forM each) state (fun _ after => inv after ∧ (∀ item ∈ items, fits after item) ∧
      ∀ other, fits state other → fits after other) stop := by
  induction items generalizing state with
  | nil => exact .pure ⟨start, List.forall_mem_nil _, fun _ holds => holds⟩
  | cons item rest ih =>
    refine (keeps item List.mem_cons_self state start).bind ?_
    rintro value between ⟨holds, fit, stays⟩
    refine (ih holds fun other isIn => keeps other (List.mem_cons_of_mem item isIn)).mono ?_ fun _ _ stopped => stopped
    rintro values after ⟨holds', fit', stays'⟩
    exact ⟨holds', List.forall_mem_cons.mpr ⟨stays' _ fit, fit'⟩, fun other before => stays' _ (stays _ before)⟩

/-- Every step gives a value that fits its item, and goes on fitting it in later states. -/
theorem mapM {items : List α} {each : α → ExceptT ε (StateM σ) β} (inv : σ → Prop) (fits : σ → α → β → Prop)
    (start : inv state)
    (keeps : ∀ item ∈ items, ∀ before, inv before → Ends (each item) before
      (fun value after => inv after ∧ fits after item value ∧
        ∀ other known, fits before other known → fits after other known) stop) :
    Ends (items.mapM each) state (fun values after => inv after ∧ List.Forall₂ (fits after) items values ∧
      ∀ other known, fits state other known → fits after other known) stop := by
  induction items generalizing state with
  | nil => exact .pure ⟨start, .nil, fun _ _ holds => holds⟩
  | cons item rest ih =>
    rw [List.mapM_cons]
    refine (keeps item List.mem_cons_self state start).bind ?_
    rintro value between ⟨holds, fit, stays⟩
    refine (ih holds fun other isIn => keeps other (List.mem_cons_of_mem item isIn)).bind ?_
    rintro values after ⟨holds', fit', stays'⟩
    exact .pure ⟨holds', .cons (stays' _ _ fit) fit', fun other known before => stays' _ _ (stays _ _ before)⟩

/-- The values that are kept are those that the items determine. -/
theorem filterMapM {items : List α} {each : α → ExceptT ε (StateM σ) (Option β)} (inv : σ → Prop)
    (determined : α → Option β) (start : inv state)
    (keeps : ∀ item ∈ items, ∀ before, inv before → Ends (each item) before
      (fun value after => inv after ∧ value = determined item) stop) :
    Ends (items.filterMapM each) state (fun values after => inv after ∧ values = items.filterMap determined) stop := by
  induction items generalizing state with
  | nil => exact .pure ⟨start, rfl⟩
  | cons item rest ih =>
    rw [List.filterMapM_cons]
    refine (keeps item List.mem_cons_self state start).bind ?_
    rintro value between ⟨holds, rfl⟩
    have later := ih holds fun other isIn => keeps other (List.mem_cons_of_mem item isIn)
    cases known : determined item with
    | none =>
      rw [List.filterMap_cons_none known]
      exact later
    | some found =>
      rw [List.filterMap_cons_some known]
      refine later.bind ?_
      rintro values after ⟨holds', rfl⟩
      exact .pure ⟨holds', rfl⟩

end Ends

/-! ### Values -/

/-- A step gives values of one kind only. -/
def Gives (good : β → Prop) (step : ExceptT ε (StateM σ) β) : Prop :=
  ∀ state, Ends step state (fun value _ => good value) fun _ _ => True

namespace Gives

variable {good : β → Prop}

theorem pure {value : β} (isGood : good value) : Gives good (Pure.pure value : ExceptT ε (StateM σ) β) :=
  fun _ => .pure isGood

theorem throw (trouble : ε) : Gives good (throw trouble : ExceptT ε (StateM σ) β) := fun _ => .throw trivial

/-- Only the last step counts. -/
theorem bind {first : ExceptT ε (StateM σ) α} {next : α → ExceptT ε (StateM σ) β}
    (on : ∀ value, Gives good (next value)) : Gives good (first >>= next) :=
  fun state => (Ends.any first state).bind fun value between _ => on value between

end Gives

/-! ### Steps that keep to a way of moving -/

/-- A way in which states may move, and the reasons for which steps may stop that begin in a state. A
reason in a later state is one in the states before it. -/
structure Regime (ε σ : Type) where
  moves : σ → σ → Prop
  stops : σ → ε → Prop
  refl (state : σ) : moves state state
  trans {before middle after : σ} : moves before middle → moves middle after → moves before after
  back {before middle : σ} {error : ε} : moves before middle → stops middle error → stops before error

namespace Regime

/-- A step moves every state in this way, and stops for these reasons only. -/
def Keeps (regime : Regime ε σ) (step : ExceptT ε (StateM σ) β) : Prop :=
  ∀ state, Ends step state (fun _ after => regime.moves state after)
    fun trouble after => regime.moves state after ∧ regime.stops state trouble

variable {regime : Regime ε σ}

theorem Keeps.pure (value : β) : regime.Keeps (Pure.pure value) := fun state => .pure (regime.refl state)

theorem Keeps.throw {trouble : ε} (stops : ∀ state, regime.stops state trouble) :
    regime.Keeps (throw trouble : ExceptT ε (StateM σ) β) := fun state => .throw ⟨regime.refl state, stops state⟩

theorem Keeps.modify {change : σ → σ} (moves : ∀ state, regime.moves state (change state)) :
    regime.Keeps (modify change) := fun state => .modify (moves state)

theorem Keeps.after {step : ExceptT ε (StateM σ) β} {before state : σ} (keeps : regime.Keeps step)
    (moved : regime.moves before state) : Ends step state (fun _ after => regime.moves before after)
      fun trouble after => regime.moves before after ∧ regime.stops before trouble :=
  (keeps state).mono (fun _ _ => regime.trans moved) fun _ _ stopped =>
    ⟨regime.trans moved stopped.1, regime.back moved stopped.2⟩

theorem Keeps.bind {first : ExceptT ε (StateM σ) α} {next : α → ExceptT ε (StateM σ) β}
    (keeps : regime.Keeps first) (on : ∀ value, regime.Keeps (next value)) : regime.Keeps (first >>= next) :=
  fun state => (keeps state).bind fun value _ moved => (on value).after moved

theorem Keeps.getBind {next : σ → ExceptT ε (StateM σ) β} (on : ∀ state, regime.Keeps (next state)) :
    regime.Keeps (get >>= next) := fun state => .get_bind (on state state)

theorem Keeps.forM {items : List α} {each : α → ExceptT ε (StateM σ) PUnit}
    (keeps : ∀ item ∈ items, regime.Keeps (each item)) : regime.Keeps (items.forM each) :=
  fun state => .forM (regime.moves state) (regime.refl state) fun item isIn _ moved => (keeps item isIn).after moved

end Regime

end Phrasebook
