import Wallchanger.Foundation.Run

/-! Two machines that give the same answers and fail alike, with states in relation. -/

namespace Wallchanger.Foundation

variable {σ τ σ' τ' ε α β γ : Type}

/-- The same fault; or the same answer, with states in relation. -/
def Follows (related : σ → τ → Prop) (outcome : Except ε (σ × β)) (specified : Except ε (τ × β)) : Prop :=
  match outcome, specified with
  | .ok (state, answer), .ok (shown, wanted) => related state shown ∧ answer = wanted
  | .error fault, .error wanted => fault = wanted
  | _, _ => False

theorem Follows.error {related : σ → τ → Prop} {fault : ε} :
    Follows related (.error fault : Except ε (σ × β)) (.error fault) := rfl

theorem Follows.bind {related : σ → τ → Prop} {related' : σ' → τ' → Prop} {outcome : Except ε (σ × β)}
    {specified : Except ε (τ × β)} {continuation : σ × β → Except ε (σ' × γ)}
    {continuation' : τ × β → Except ε (τ' × γ)} (follows : Follows related outcome specified)
    (later : ∀ state shown answer, related state shown →
      Follows related' (continuation (state, answer)) (continuation' (shown, answer))) :
    Follows related' (outcome >>= continuation) (specified >>= continuation') := by
  cases outcome with
  | error fault =>
    cases specified with
    | error wanted => exact follows
    | ok wanted => exact follows.elim
  | ok given =>
    cases specified with
    | error wanted => exact follows.elim
    | ok wanted =>
      obtain ⟨state, answer⟩ := given
      obtain ⟨shown, _⟩ := wanted
      obtain ⟨kept, rfl⟩ := follows
      exact later state shown answer kept

theorem Follows.eq_error {related : σ → τ → Prop} {outcome : Except ε (σ × β)} {fault : ε}
    (follows : Follows related outcome (.error fault)) : outcome = .error fault := by
  cases outcome with
  | error other => exact congrArg Except.error follows
  | ok given => exact follows.elim

theorem Follows.eq_ok {related : σ → τ → Prop} {outcome : Except ε (σ × β)} {shown : τ} {answer : β}
    (follows : Follows related outcome (.ok (shown, answer))) :
    ∃ state, outcome = .ok (state, answer) ∧ related state shown := by
  cases outcome with
  | error other => exact follows.elim
  | ok given =>
    obtain ⟨state, _⟩ := given
    obtain ⟨kept, rfl⟩ := follows
    exact ⟨state, rfl, kept⟩

/-- An outcome that is a state alone. -/
theorem Follows.bind_state {related : σ → τ → Prop} {related' : σ' → τ' → Prop} {outcome : Except ε σ}
    {specified : Except ε τ} {continuation : σ → Except ε (σ' × γ)} {continuation' : τ → Except ε (τ' × γ)}
    (follows : Follows related ((·, ()) <$> outcome) ((·, ()) <$> specified))
    (later : ∀ state shown, related state shown →
      Follows related' (continuation state) (continuation' shown)) :
    Follows related' (outcome >>= continuation) (specified >>= continuation') := by
  cases outcome with
  | error fault =>
    cases specified with
    | error wanted => exact follows
    | ok shown => exact follows.elim
  | ok state =>
    cases specified with
    | error wanted => exact follows.elim
    | ok shown => exact later state shown follows.1

/-- A computation in front that does not look at the states. -/
theorem follows_after {related : σ → τ → Prop} {computation : Except ε α} {continuation : α → Except ε (σ × β)}
    {continuation' : α → Except ε (τ × β)}
    (later : ∀ value, computation = .ok value → Follows related (continuation value) (continuation' value)) :
    Follows related (computation >>= continuation) (computation >>= continuation') := by
  cases computation with
  | error fault => exact rfl
  | ok value => exact later value rfl

/-- A branch on the same condition. -/
theorem Follows.ite {related : σ → τ → Prop} {outcome other : Except ε (σ × β)}
    {specified specified' : Except ε (τ × β)} (condition : Prop) [Decidable condition]
    (first : condition → Follows related outcome specified)
    (second : ¬ condition → Follows related other specified') :
    Follows related (if condition then outcome else other) (if condition then specified else specified') := by
  by_cases met : condition
  · rw [if_pos met, if_pos met]
    exact first met
  · rw [if_neg met, if_neg met]
    exact second met

theorem rel_some_left {related : σ → τ → Prop} {state : σ} {shown : Option τ}
    (both : Option.Rel related (some state) shown) : ∃ other, shown = some other ∧ related state other := by
  cases both with
  | some kept => exact ⟨_, rfl, kept⟩

section Runs

variable {step : σ → α → Option σ} {step' : τ → α → Option τ} {related : σ → τ → Prop}
  {allowed : σ → α → Prop}

/-- Machines whose steps keep states in relation, and are undefined together, run alike. -/
theorem run_related (each : ∀ state shown action, related state shown → allowed state action →
      Option.Rel related (step state action) (step' shown action))
    {state : σ} {shown : τ} {actions : List α} (start : related state shown)
    (along : Along step allowed state actions) :
    Option.Rel related (run step state actions) (run step' shown actions) := by
  induction actions generalizing state shown with
  | nil => exact .some start
  | cons action rest ih =>
    obtain ⟨here, later⟩ := along
    have both := each state shown action start here
    rw [run, run]
    cases taken : step state action with
    | none =>
      rw [taken] at both
      cases taken' : step' shown action with
      | none => exact .none
      | some next =>
        rw [taken'] at both
        cases both
    | some next =>
      rw [taken] at both
      cases taken' : step' shown action with
      | none =>
        rw [taken'] at both
        cases both
      | some next' =>
        rw [taken'] at both
        cases both with
        | some kept => exact ih kept (later next taken)

end Runs

end Wallchanger.Foundation
