import Mathlib.Data.Set.Function
import Wallchanger.Foundation.Run

/-! Machines that answer calls: one machine that behaves as another does, and callers that
keep to parts of the state that are theirs. -/

namespace Wallchanger.Foundation

universe u v w x
variable {State : Type u} {Call : Type v} {Answer : Type w}

/-- Every answer lets the calls go on. -/
def always : Answer → Bool := fun _ => true

section Machines
variable (goesOn : Answer → Bool) (perform : State → Call → Option (State × Answer))
  (specified : State → Call → State × Answer)

/-- Calls made one after another as long as the answers let them go on: the state they leave
and the answers, `none` once a call has no defined outcome. -/
def answered : State → List Call → Option (State × List Answer)
  | state, [] => some (state, [])
  | state, call :: rest => (perform state call).bind (fun outcome =>
      if goesOn outcome.2 then
        (answered outcome.1 rest).map (fun later => (later.1, outcome.2 :: later.2))
      else some (outcome.1, [outcome.2]))

/-- The same for calls that all have an outcome. -/
def carriedOut : State → List Call → State × List Answer
  | state, [] => (state, [])
  | state, call :: rest =>
    if goesOn (specified state call).2 then
      ((carriedOut (specified state call).1 rest).1,
        (specified state call).2 :: (carriedOut (specified state call).1 rest).2)
    else ((specified state call).1, [(specified state call).2])

/-- Every call that the answers let the sequence get to meets a condition on the state
before it. -/
def Reaches (condition : State → Call → Prop) : State → List Call → Prop
  | _, [] => True
  | state, call :: rest => condition state call ∧ ∀ next answer, perform state call = some (next, answer) →
      goesOn answer = true → Reaches condition next rest

theorem carriedOut_always_cons (state : State) (call : Call) (rest : List Call) :
    carriedOut always specified state (call :: rest) =
      ((carriedOut always specified (specified state call).1 rest).1,
        (specified state call).2 :: (carriedOut always specified (specified state call).1 rest).2) := rfl

end Machines

section Simulation
variable {Abstract : Type x} {goesOn : Answer → Bool} {perform : State → Call → Option (State × Answer)}
  {specified : Abstract → Call → Abstract × Answer}

/-- The simulation rule: where every allowed call has the outcome that is specified and
keeps the two states related, so has every sequence of such calls. -/
theorem answered_simulates {relates : State → Abstract → Prop} {allowed : Call → Prop}
    (simulates : ∀ state abstract call, relates state abstract → allowed call →
      ∃ next, perform state call = some (next, (specified abstract call).2) ∧
        relates next (specified abstract call).1)
    (related : relates state abstract) (all : ∀ call ∈ calls, allowed call) :
    ∃ final, answered goesOn perform state calls =
        some (final, (carriedOut goesOn specified abstract calls).2) ∧
      relates final (carriedOut goesOn specified abstract calls).1 := by
  induction calls generalizing state abstract with
  | nil => exact ⟨state, rfl, related⟩
  | cons call rest ih =>
    obtain ⟨next, performed, kept⟩ := simulates state abstract call related (all call (by simp))
    simp only [answered, carriedOut, performed, Option.bind_some]
    by_cases more : goesOn (specified abstract call).2 = true
    · obtain ⟨final, concrete, done⟩ := ih kept (fun other member => all other (by simp [member]))
      rw [if_pos more, if_pos more, concrete]
      exact ⟨final, rfl, done⟩
    · rw [if_neg more, if_neg more]
      exact ⟨next, rfl, kept⟩

/-- The rule for calls that need not have an outcome: those that have one are as specified. -/
theorem answered_follows {relates : State → Abstract → Prop} {allowed : State → Call → Prop}
    (follows : ∀ state abstract call next answer, relates state abstract → allowed state call →
      perform state call = some (next, answer) →
        answer = (specified abstract call).2 ∧ relates next (specified abstract call).1)
    (related : relates state abstract)
    (permitted : Along (fun state call => (perform state call).map Prod.fst) allowed state calls)
    (performed : answered goesOn perform state calls = some (final, answers)) :
    answers = (carriedOut goesOn specified abstract calls).2 ∧
      relates final (carriedOut goesOn specified abstract calls).1 := by
  induction calls generalizing state abstract final answers with
  | nil =>
    cases performed
    exact ⟨rfl, related⟩
  | cons call rest ih =>
    obtain ⟨⟨next, answer⟩, taken, performed⟩ := Option.bind_eq_some_iff.mp performed
    obtain ⟨here, permitted⟩ := permitted
    obtain ⟨same, kept⟩ := follows state abstract call next answer related here taken
    have onward := permitted next (congrArg (Option.map Prod.fst) taken)
    subst same
    simp only [carriedOut]
    by_cases more : goesOn (specified abstract call).2 = true
    · rw [if_pos more] at performed ⊢
      obtain ⟨⟨last, later⟩, reached, outcome⟩ := Option.map_eq_some_iff.mp performed
      obtain ⟨rfl, done⟩ := ih kept onward reached
      obtain ⟨rfl, rfl⟩ := Prod.mk.inj outcome
      exact ⟨rfl, done⟩
    · rw [if_neg more] at performed ⊢
      obtain ⟨rfl, rfl⟩ := Prod.mk.inj (Option.some.inj performed)
      exact ⟨rfl, kept⟩

end Simulation

section Progress
variable {goesOn : Answer → Bool} {perform : State → Call → Option (State × Answer)}

/-- What every call keeps, a sequence of calls keeps. -/
theorem answered_keeps {holds : State → Prop} {allowed : Call → Prop}
    (keeps : ∀ state call next answer, holds state → allowed call →
      perform state call = some (next, answer) → holds next)
    (start : holds state) (all : ∀ call ∈ calls, allowed call)
    (performed : answered goesOn perform state calls = some (final, answers)) : holds final := by
  induction calls generalizing state final answers with
  | nil =>
    cases performed
    exact start
  | cons call rest ih =>
    obtain ⟨⟨next, answer⟩, taken, performed⟩ := Option.bind_eq_some_iff.mp performed
    have kept := keeps state call next answer start (all call (by simp)) taken
    split at performed
    · obtain ⟨⟨last, later⟩, reached, outcome⟩ := Option.map_eq_some_iff.mp performed
      obtain ⟨rfl, rfl⟩ := Prod.mk.inj outcome
      exact ih kept (fun other member => all other (by simp [member])) reached
    · obtain ⟨rfl, rfl⟩ := Prod.mk.inj (Option.some.inj performed)
      exact kept

/-- When a call has an outcome exactly under the condition, a sequence of calls has one exactly
if every call that is got to meets the condition. -/
theorem answered_defined_iff {holds : State → Prop} {allowed : Call → Prop} {condition : State → Call → Prop}
    (exact : ∀ state call, holds state → allowed call →
      ((∃ outcome, perform state call = some outcome) ↔ condition state call))
    (keeps : ∀ state call next answer, holds state → allowed call →
      perform state call = some (next, answer) → holds next)
    (start : holds state) (all : ∀ call ∈ calls, allowed call) :
    (∃ outcome, answered goesOn perform state calls = some outcome) ↔
      Reaches goesOn perform condition state calls := by
  induction calls generalizing state with
  | nil => exact ⟨fun _ => trivial, fun _ => ⟨_, rfl⟩⟩
  | cons call rest ih =>
    have here := exact state call start (all call (by simp))
    have later : ∀ next answer, perform state call = some (next, answer) →
        ((∃ outcome, answered goesOn perform next rest = some outcome) ↔
          Reaches goesOn perform condition next rest) :=
      fun next answer taken => ih (keeps state call next answer start (all call (by simp)) taken)
        (fun other member => all other (by simp [member]))
    constructor
    · intro ⟨outcome, performed⟩
      obtain ⟨first, taken, performed⟩ := Option.bind_eq_some_iff.mp performed
      refine ⟨here.mp ⟨first, taken⟩, fun next answer taken' more => ?_⟩
      cases taken.symm.trans taken'
      rw [if_pos more] at performed
      obtain ⟨final, reached, _⟩ := Option.map_eq_some_iff.mp performed
      exact (later next answer taken).mp ⟨final, reached⟩
    · intro ⟨met, onward⟩
      obtain ⟨⟨next, answer⟩, taken⟩ := here.mpr met
      simp only [answered, taken, Option.bind_some]
      by_cases more : goesOn answer = true
      · obtain ⟨final, reached⟩ := (later next answer taken).mpr (onward next answer taken more)
        exact ⟨_, by rw [if_pos more, reached]; rfl⟩
      · exact ⟨_, if_neg more⟩

end Progress

section Isolation
variable {κ : Type x} {α : Type u} {Caller : Type w}

/-- An operation on a function that keeps to a set of arguments: it changes no value outside,
and what it answers and leaves inside depends on the values inside alone. -/
structure Within (territory : Set κ) (operation : (κ → α) → (κ → α) × Answer) : Prop where
  frame : ∀ map key, key ∉ territory → (operation map).1 key = map key
  answer : ∀ map other, Set.EqOn map other territory → (operation map).2 = (operation other).2
  effect : ∀ map other, Set.EqOn map other territory →
    Set.EqOn (operation map).1 (operation other).1 territory

/-- A call in the name of a caller, answered under that name. -/
def byCaller (specified : State → Call → State × Answer) (state : State) (entry : Caller × Call) :
    State × (Caller × Answer) :=
  ((specified state entry.2).1, (entry.1, (specified state entry.2).2))

variable [DecidableEq Caller]

/-- What concerns one caller of what is listed under the callers' names. -/
def ownPart {β : Type v} (caller : Caller) (entries : List (Caller × β)) : List β :=
  entries.filterMap (fun entry => if entry.1 = caller then some entry.2 else none)

theorem ownPart_cons_self {β : Type v} (caller : Caller) (item : β) (rest : List (Caller × β)) :
    ownPart caller ((caller, item) :: rest) = item :: ownPart caller rest := by
  simp [ownPart]

theorem ownPart_cons_ne {β : Type v} {caller other : Caller} (different : other ≠ caller) (item : β)
    (rest : List (Caller × β)) : ownPart caller ((other, item) :: rest) = ownPart caller rest := by
  simp [ownPart, different]

/-- The isolation rule: callers whose calls keep to disjoint territories get, in every common
sequence, the answers they get alone, and find their own territory as they leave it alone. -/
theorem carriedOut_alone {specified : (κ → α) → Call → (κ → α) × Answer} {territory : Caller → Set κ}
    (apart : ∀ caller other, caller ≠ other → ∀ key ∈ territory caller, key ∉ territory other)
    {map alone : κ → α} (caller : Caller) {entries : List (Caller × Call)}
    (within : ∀ entry ∈ entries, Within (territory entry.1) (fun map => specified map entry.2))
    (same : Set.EqOn map alone (territory caller)) :
    ownPart caller (carriedOut always (byCaller specified) map entries).2 =
        (carriedOut always specified alone (ownPart caller entries)).2 ∧
      Set.EqOn (carriedOut always (byCaller specified) map entries).1
        (carriedOut always specified alone (ownPart caller entries)).1 (territory caller) := by
  induction entries generalizing map alone with
  | nil => exact ⟨rfl, same⟩
  | cons entry rest ih =>
    obtain ⟨actor, call⟩ := entry
    have here := within (actor, call) (by simp)
    have others := fun other member => within other (List.mem_cons_of_mem (actor, call) member)
    by_cases acts : actor = caller
    · subst acts
      obtain ⟨answers, agree⟩ := ih others (here.effect map alone same)
      rw [ownPart_cons_self]
      refine ⟨?_, agree⟩
      rw [carriedOut_always_cons, carriedOut_always_cons]
      dsimp only [byCaller]
      rw [ownPart_cons_self, here.answer map alone same]
      exact congrArg (List.cons _) answers
    · have kept : Set.EqOn (specified map call).1 alone (territory caller) := by
        intro key member
        have outside : key ∉ territory actor := fun inside => apart actor caller acts key inside member
        exact (here.frame map key outside).trans (same member)
      obtain ⟨answers, agree⟩ := ih others kept
      rw [ownPart_cons_ne acts]
      refine ⟨?_, agree⟩
      rw [carriedOut_always_cons]
      dsimp only [byCaller]
      rw [ownPart_cons_ne acts]
      exact answers

end Isolation

end Wallchanger.Foundation
