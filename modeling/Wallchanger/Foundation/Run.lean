import Mathlib.Data.List.Basic

/-! Runs of a partial step function. A step without a defined outcome ends the
run without a state; what every taken step preserves, the whole run preserves. -/

namespace Wallchanger.Foundation

universe u v
variable {State : Type u} {Action : Type v} (step : State → Action → Option State)

/-- The state after a list of actions, `none` once a step has no defined outcome. -/
def run : State → List Action → Option State
  | state, [] => some state
  | state, action :: rest => (step state action).bind (fun next => run next rest)

/-- Every step the run takes meets a condition on the state before it. -/
def Meets (condition : State → Action → Prop) : State → List Action → Prop
  | _, [] => True
  | state, action :: rest => ∀ next, step state action = some next →
      condition state action ∧ Meets condition next rest

/-- Every action the run gets to meets a condition on the state before it, also the one
the run stops at. -/
def Along (condition : State → Action → Prop) : State → List Action → Prop
  | _, [] => True
  | state, action :: rest => condition state action ∧ ∀ next, step state action = some next →
      Along condition next rest

/-- A property of every state the run passes through, its first and last included. -/
def Throughout (holds : State → Prop) : State → List Action → Prop
  | state, [] => holds state
  | state, action :: rest => holds state ∧ ∀ next, step state action = some next →
      Throughout holds next rest

variable {step}

theorem run_cons : run step state (action :: rest) = some final ↔
    ∃ next, step state action = some next ∧ run step next rest = some final := by
  simp [run, Option.bind_eq_some_iff]

theorem run_append (state : State) (before after : List Action) :
    run step state (before ++ after) =
      (run step state before).bind (fun middle => run step middle after) := by
  induction before generalizing state with
  | nil => rfl
  | cons action rest ih =>
    cases taken : step state action with
    | none => simp [run, taken]
    | some next => simp [run, taken, ih next]

/-- Whether a given run meets a decidable condition can be computed. -/
instance decidableMeets {condition : State → Action → Prop}
    [∀ state action, Decidable (condition state action)] :
    (state : State) → (actions : List Action) → Decidable (Meets step condition state actions)
  | _, [] => isTrue trivial
  | state, action :: rest =>
    match taken : step state action with
    | none => isTrue (fun _ reached => nomatch taken.symm.trans reached)
    | some next =>
      have _ : Decidable (Meets step condition next rest) := decidableMeets next rest
      decidable_of_iff (condition state action ∧ Meets step condition next rest)
        ⟨fun both _ reached => (Option.some.inj (taken.symm.trans reached)) ▸ both,
          fun all => all next taken⟩

/-- A condition on the actions alone is met by every run over such actions. -/
instance decidableAlong {condition : State → Action → Prop}
    [∀ state action, Decidable (condition state action)] :
    (state : State) → (actions : List Action) → Decidable (Along step condition state actions)
  | _, [] => isTrue trivial
  | state, action :: rest =>
    match taken : step state action with
    | none => decidable_of_iff (condition state action)
        ⟨fun here => ⟨here, fun _ reached => nomatch taken.symm.trans reached⟩, And.left⟩
    | some next =>
      have _ : Decidable (Along step condition next rest) := decidableAlong next rest
      decidable_of_iff (condition state action ∧ Along step condition next rest)
        ⟨fun ⟨here, later⟩ => ⟨here, fun _ reached => Option.some.inj (taken.symm.trans reached) ▸ later⟩,
          fun ⟨here, later⟩ => ⟨here, later next taken⟩⟩

theorem meets_of_forall {condition : State → Action → Prop}
    (all : ∀ action ∈ actions, ∀ state, condition state action) (state : State) :
    Meets step condition state actions := by
  induction actions generalizing state with
  | nil => trivial
  | cons action rest ih =>
    intro next _
    exact ⟨all action (by simp) state, ih (fun other member => all other (by simp [member])) next⟩

/-- A condition on the actions alone. -/
theorem along_of_mem {condition : Action → Prop} (all : ∀ action ∈ actions, condition action) (state : State) :
    Along step (fun _ action => condition action) state actions := by
  induction actions generalizing state with
  | nil => trivial
  | cons action rest ih =>
    exact ⟨all action (by simp), fun next _ => ih (fun other member => all other (by simp [member])) next⟩

theorem along_of_forall {condition : State → Action → Prop} (all : ∀ state action, condition state action)
    (state : State) (actions : List Action) : Along step condition state actions := by
  induction actions generalizing state with
  | nil => trivial
  | cons action rest ih => exact ⟨all state action, fun next _ => ih next⟩

theorem Meets.imp {weak strong : State → Action → Prop}
    (implied : ∀ state action, strong state action → weak state action)
    (meets : Meets step strong state actions) : Meets step weak state actions := by
  induction actions generalizing state with
  | nil => trivial
  | cons action rest ih =>
    intro next taken
    have ⟨here, later⟩ := meets next taken
    exact ⟨implied _ _ here, ih later⟩

theorem Meets.and {first second : State → Action → Prop}
    (left : Meets step first state actions) (right : Meets step second state actions) :
    Meets step (fun state action => first state action ∧ second state action) state actions := by
  induction actions generalizing state with
  | nil => trivial
  | cons action rest ih =>
    intro next taken
    have ⟨here, later⟩ := left next taken
    have ⟨here', later'⟩ := right next taken
    exact ⟨⟨here, here'⟩, ih later later'⟩

/-- A condition on every step of a run in two parts. -/
theorem meets_append {condition : State → Action → Prop} {before after : List Action} :
    Meets step condition state (before ++ after) ↔ Meets step condition state before ∧
      ∀ middle, run step state before = some middle → Meets step condition middle after := by
  induction before generalizing state with
  | nil =>
    constructor
    · intro meets
      refine ⟨trivial, fun middle reached => ?_⟩
      cases reached
      exact meets
    · intro ⟨_, later⟩
      exact later state rfl
  | cons action rest ih =>
    constructor
    · intro meets
      refine ⟨fun next taken => ?_, fun middle reached => ?_⟩
      · have ⟨here, later⟩ := meets next taken
        exact ⟨here, (ih.mp later).1⟩
      · obtain ⟨next, taken, reached⟩ := run_cons.mp reached
        exact (ih.mp (meets next taken).2).2 middle reached
    · intro ⟨front, back⟩ next taken
      have ⟨here, later⟩ := front next taken
      refine ⟨here, ih.mpr ⟨later, fun middle reached => ?_⟩⟩
      exact back middle (run_cons.mpr ⟨next, taken, reached⟩)

/-- The run rule: an invariant kept by every step that meets the condition
holds in every state a run of such steps passes through. -/
theorem throughout_of_meets {holds : State → Prop} {condition : State → Action → Prop}
    (keeps : ∀ state action next, holds state → condition state action →
      step state action = some next → holds next)
    (start : holds state) (meets : Meets step condition state actions) :
    Throughout step holds state actions := by
  induction actions generalizing state with
  | nil => exact start
  | cons action rest ih =>
    refine ⟨start, fun next taken => ?_⟩
    have ⟨here, later⟩ := meets next taken
    exact ih (keeps state action next start here taken) later

theorem Throughout.first {holds : State → Prop} (all : Throughout step holds state actions) :
    holds state := by
  cases actions with
  | nil => exact all
  | cons action rest => exact all.1

theorem Throughout.last {holds : State → Prop} (all : Throughout step holds state actions)
    (reached : run step state actions = some final) : holds final := by
  induction actions generalizing state with
  | nil =>
    have same : state = final := Option.some.inj reached
    exact same ▸ all
  | cons action rest ih =>
    obtain ⟨next, taken, later⟩ := run_cons.mp reached
    exact ih (all.2 next taken) later

theorem Throughout.imp {weak strong : State → Prop} (implied : ∀ state, strong state → weak state)
    (all : Throughout step strong state actions) : Throughout step weak state actions := by
  induction actions generalizing state with
  | nil => exact implied _ all
  | cons action rest ih => exact ⟨implied _ all.1, fun next taken => ih (all.2 next taken)⟩

/-- An invariant of every step taken from a state that satisfies it. -/
theorem run_preserves {holds : State → Prop} {condition : State → Action → Prop}
    (keeps : ∀ state action next, holds state → condition state action →
      step state action = some next → holds next)
    (start : holds state) (meets : Meets step condition state actions)
    (reached : run step state actions = some final) : holds final :=
  (throughout_of_meets keeps start meets).last reached

/-- When a step keeps the property exactly under the condition, a run keeps it
throughout exactly if every step meets the condition. `frame` is an invariant
the exactness may use, kept by the steps that meet `allowed`. -/
theorem throughout_iff_meets {holds frame : State → Prop} {allowed condition : State → Action → Prop}
    (exact : ∀ state action next, frame state → allowed state action → holds state →
      step state action = some next → (holds next ↔ condition state action))
    (keeps : ∀ state action next, frame state → allowed state action →
      step state action = some next → frame next)
    (framed : frame state) (start : holds state) (permitted : Meets step allowed state actions) :
    Throughout step holds state actions ↔ Meets step condition state actions := by
  induction actions generalizing state with
  | nil => exact ⟨fun _ => trivial, fun _ => start⟩
  | cons action rest ih =>
    constructor
    · intro all next taken
      have ⟨here, later⟩ := permitted next taken
      have good : holds next := (all.2 next taken).first
      exact ⟨(exact state action next framed here start taken).mp good,
        (ih (keeps state action next framed here taken) good later).mp (all.2 next taken)⟩
    · intro meets
      refine ⟨start, fun next taken => ?_⟩
      have ⟨here, later⟩ := permitted next taken
      have ⟨cond, rest⟩ := meets next taken
      have good := (exact state action next framed here start taken).mpr cond
      exact (ih (keeps state action next framed here taken) good later).mpr rest

/-- When a step has an outcome exactly under the condition, a run goes through exactly if
every action it gets to meets the condition. -/
theorem run_defined_iff {condition : State → Action → Prop}
    (exact : ∀ state action, (∃ next, step state action = some next) ↔ condition state action) :
    (∃ final, run step state actions = some final) ↔ Along step condition state actions := by
  induction actions generalizing state with
  | nil => exact ⟨fun _ => trivial, fun _ => ⟨state, rfl⟩⟩
  | cons action rest ih =>
    constructor
    · intro ⟨final, reached⟩
      obtain ⟨next, taken, later⟩ := run_cons.mp reached
      refine ⟨(exact state action).mp ⟨next, taken⟩, fun next' taken' => ?_⟩
      cases taken.symm.trans taken'
      exact ih.mp ⟨final, later⟩
    · intro ⟨here, later⟩
      obtain ⟨next, taken⟩ := (exact state action).mpr here
      obtain ⟨final, reached⟩ := ih.mpr (later next taken)
      exact ⟨final, run_cons.mpr ⟨next, taken, reached⟩⟩

/-- The run rule for a property of the state together with the actions that led to it. -/
theorem run_history (holds : List Action → State → Prop) {condition : State → Action → Prop}
    (keeps : ∀ taken state action next, holds taken state → condition state action →
      step state action = some next → holds (taken ++ [action]) next)
    (start : holds before state) (meets : Meets step condition state actions)
    (reached : run step state actions = some final) : holds (before ++ actions) final := by
  induction actions generalizing before state with
  | nil =>
    cases reached
    rwa [List.append_nil]
  | cons action rest ih =>
    obtain ⟨next, taken, later⟩ := run_cons.mp reached
    obtain ⟨here, meets⟩ := meets next taken
    have kept := keeps before state action next start here taken
    have whole : before ++ action :: rest = (before ++ [action]) ++ rest := by simp
    rw [whole]
    exact ih kept meets later

/-- The run rule for an invariant that every step keeps. -/
theorem throughout_of_kept {holds : State → Prop}
    (keeps : ∀ state action next, holds state → step state action = some next → holds next)
    (start : holds state) : Throughout step holds state actions := by
  have permitted : Meets step (fun _ _ => True) state actions := meets_of_forall (fun _ _ _ => trivial) state
  exact throughout_of_meets (fun state action next here _ taken => keeps state action next here taken)
    start permitted

/-- The exact rule where no other invariant is needed. -/
theorem throughout_iff_of_exact {holds : State → Prop} {condition : State → Action → Prop}
    (exact : ∀ state action next, holds state → step state action = some next →
      (holds next ↔ condition state action))
    (start : holds state) : Throughout step holds state actions ↔ Meets step condition state actions := by
  have permitted : Meets step (fun _ _ => True) state actions := meets_of_forall (fun _ _ _ => trivial) state
  have framed : (fun _ : State => True) state := trivial
  exact throughout_iff_meets (fun state action next _ _ here taken => exact state action next here taken)
    (fun _ _ _ _ _ _ => trivial) framed start permitted

/-- Running is defined on every list of actions that keep the invariant and
have an outcome from each state that satisfies it. -/
theorem run_defined {holds : State → Prop} {allowed : Action → Prop}
    (progress : ∀ state action, holds state → allowed action →
      ∃ next, step state action = some next ∧ holds next)
    (start : holds state) (all : ∀ action ∈ actions, allowed action) :
    ∃ final, run step state actions = some final ∧ holds final := by
  induction actions generalizing state with
  | nil => exact ⟨state, rfl, start⟩
  | cons action rest ih =>
    obtain ⟨next, taken, good⟩ := progress state action start (all action (by simp))
    obtain ⟨final, reached, done⟩ := ih good (fun other member => all other (by simp [member]))
    exact ⟨final, run_cons.mpr ⟨next, taken, reached⟩, done⟩

end Wallchanger.Foundation
