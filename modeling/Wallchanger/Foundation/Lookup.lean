import Mathlib.Logic.Function.Basic
import Wallchanger.Foundation.Calls
import Wallchanger.Foundation.Keyed

/-! What a list of entries says to those who look things up in it: a partial function, and
what changes to the list make of it. Operations that change it at one key or at two. -/

namespace Wallchanger.Foundation

universe u v
variable {κ : Type u} {α : Type v} [DecidableEq κ]

/-- The value of the first entry with a key. -/
def lookup (entries : List (κ × α)) (key : κ) : Option α := entries[find entries key]?.map Prod.snd

theorem lookup_cons (head : κ × α) (rest : List (κ × α)) (key : κ) :
    lookup (head :: rest) key = if head.1 = key then some head.2 else lookup rest key := by
  by_cases named : head.1 = key
  · simp [lookup, find_cons, named]
  · simp [lookup, find_cons, named]

theorem lookup_eq_some_iff {entries : List (κ × α)} {key : κ} {value : α} :
    lookup entries key = some value ↔ entries[find entries key]? = some (key, value) := by
  constructor
  · intro found
    obtain ⟨entry, located, rfl⟩ := Option.map_eq_some_iff.mp found
    exact located.trans (congrArg some (Prod.ext (key_at_find located) rfl))
  · intro located
    rw [lookup, located]
    rfl

theorem lookup_isSome_iff (entries : List (κ × α)) (key : κ) :
    (lookup entries key).isSome = true ↔ key ∈ keys entries := by
  constructor
  · intro found
    obtain ⟨value, found⟩ := Option.isSome_iff_exists.mp found
    exact mem_keys_of_getElem? (lookup_eq_some_iff.mp found)
  · intro member
    obtain ⟨value, located⟩ := entry_at_find member
    rw [lookup_eq_some_iff.mpr located]
    rfl

theorem lookup_eq_none_iff (entries : List (κ × α)) (key : κ) :
    lookup entries key = none ↔ key ∉ keys entries := by
  rw [← lookup_isSome_iff, Option.not_isSome_iff_eq_none]

/-- A change of all values is one of all that is found. -/
theorem lookup_map {β : Type v} (entries : List (κ × α)) (change : α → β) (key : κ) :
    lookup (entries.map (fun entry => (entry.1, change entry.2))) key = (lookup entries key).map change := by
  induction entries with
  | nil => rfl
  | cons head rest ih =>
    rw [List.map_cons, lookup_cons, lookup_cons, ih]
    split
    · rfl
    · rfl

/-- An entry that is appended is found under its key if no other was. -/
theorem lookup_append {entries : List (κ × α)} {key : κ} (fresh : key ∉ keys entries) (value : α) :
    lookup (entries ++ [(key, value)]) = Function.update (lookup entries) key (some value) := by
  funext other
  induction entries with
  | nil =>
    by_cases same : other = key
    · subst same
      rw [List.nil_append, lookup_cons, if_pos rfl, Function.update_self]
    · rw [List.nil_append, lookup_cons, if_neg (Ne.symm same), Function.update_of_ne same]
  | cons head rest ih =>
    obtain ⟨notHead, notRest⟩ : key ≠ head.1 ∧ key ∉ keys rest := by simpa [keys] using fresh
    rw [List.cons_append, lookup_cons, ih notRest]
    by_cases same : other = key
    · subst same
      rw [if_neg (Ne.symm notHead), Function.update_self, Function.update_self]
    · rw [Function.update_of_ne same, Function.update_of_ne same, lookup_cons]

/-- A change of the first entry with a key changes what is found under the key. -/
theorem lookup_modify (entries : List (κ × α)) (key : κ) (change : α → α) :
    lookup (entries.modify (find entries key) (Prod.map id change)) =
      Function.update (lookup entries) key ((lookup entries key).map change) := by
  funext other
  induction entries with
  | nil =>
    by_cases same : other = key
    · subst same
      rw [Function.update_self]
      rfl
    · rw [Function.update_of_ne same]
      rfl
  | cons head rest ih =>
    by_cases named : head.1 = key
    · subst named
      rw [find_cons, if_pos rfl, List.modify_zero_cons, lookup_cons, lookup_cons, if_pos rfl]
      by_cases same : other = head.1
      · subst same
        rw [Function.update_self]
        exact if_pos rfl
      · rw [Function.update_of_ne same, lookup_cons, if_neg (Ne.symm same)]
        exact if_neg (Ne.symm same)
    · rw [find_cons, if_neg named, List.modify_succ_cons, lookup_cons, ih, lookup_cons, if_neg named]
      by_cases same : other = key
      · subst same
        rw [if_neg named, Function.update_self, Function.update_self]
      · rw [Function.update_of_ne same, Function.update_of_ne same, lookup_cons]

/-- Among distinct keys, nothing is found any more under the key of an entry that is erased. -/
theorem lookup_erase {entries : List (κ × α)} (distinct : (keys entries).Nodup) (key : κ) :
    lookup (entries.eraseIdx (find entries key)) = Function.update (lookup entries) key none := by
  funext other
  by_cases same : other = key
  · subst same
    rw [Function.update_self, lookup_eq_none_iff, keys_erase_find]
    exact distinct.not_mem_erase
  · rw [Function.update_of_ne same, lookup, lookup, entry_erase_find entries (Ne.symm same)]

/-- Among distinct keys, an entry with a new key is found under that key alone. -/
theorem lookup_rename {entries : List (κ × α)} {key new : κ} (distinct : (keys entries).Nodup)
    (member : key ∈ keys entries) (fresh : new ∉ keys entries) :
    lookup (entries.modify (find entries key) (fun entry => (new, entry.2))) =
      Function.update (Function.update (lookup entries) key none) new (lookup entries key) := by
  funext other
  induction entries with
  | nil => cases member
  | cons head rest ih =>
    obtain ⟨once, distinct⟩ := List.nodup_cons.mp distinct
    obtain ⟨notHead, notRest⟩ : new ≠ head.1 ∧ new ∉ keys rest := by simpa [keys] using fresh
    by_cases named : head.1 = key
    · subst named
      rw [find_cons, if_pos rfl, List.modify_zero_cons, lookup_cons, lookup_cons head rest head.1, if_pos rfl]
      by_cases isNew : other = new
      · subst isNew
        rw [Function.update_self]
        exact if_pos rfl
      · rw [Function.update_of_ne isNew, if_neg (Ne.symm isNew)]
        by_cases same : other = head.1
        · subst same
          rw [Function.update_self, lookup_eq_none_iff]
          exact once
        · rw [Function.update_of_ne same, lookup_cons, if_neg (Ne.symm same)]
    · have later : key ∈ keys rest := List.mem_of_ne_of_mem (Ne.symm named) member
      rw [find_cons, if_neg named, List.modify_succ_cons, lookup_cons, ih distinct later notRest,
        lookup_cons head rest key, if_neg named]
      by_cases isNew : other = new
      · subst isNew
        rw [if_neg (Ne.symm notHead), Function.update_self, Function.update_self]
      · rw [Function.update_of_ne isNew, Function.update_of_ne isNew]
        by_cases same : other = key
        · subst same
          rw [if_neg named, Function.update_self, Function.update_self]
        · rw [Function.update_of_ne same, Function.update_of_ne same, lookup_cons]

section Changes
variable {Answer : Type v}

/-- What is found at a key decides what is there afterwards, and the answer. -/
def changeAt (map : κ → α) (key : κ) (decide : α → α × Answer) : (κ → α) × Answer :=
  (Function.update map key (decide (map key)).1, (decide (map key)).2)

/-- What is found at two keys decides what is there afterwards, and the answer. -/
def changeBoth (map : κ → α) (first second : κ) (decide : α → α → (α × α) × Answer) : (κ → α) × Answer :=
  (Function.update (Function.update map first (decide (map first) (map second)).1.1) second
    (decide (map first) (map second)).1.2, (decide (map first) (map second)).2)

theorem changeAt_eq {map : κ → α} {key : κ} {decide : α → α × Answer} {new : α}
    (decided : decide (map key) = (new, answer)) :
    changeAt map key decide = (Function.update map key new, answer) := by
  rw [changeAt, decided]

theorem changeAt_keep {map : κ → α} {key : κ} {decide : α → α × Answer}
    (decided : decide (map key) = (map key, answer)) : changeAt map key decide = (map, answer) := by
  rw [changeAt_eq decided, Function.update_eq_self]

theorem changeBoth_eq {map : κ → α} {first second : κ} {decide : α → α → (α × α) × Answer} {new other : α}
    (decided : decide (map first) (map second) = ((new, other), answer)) :
    changeBoth map first second decide =
      (Function.update (Function.update map first new) second other, answer) := by
  rw [changeBoth, decided]

theorem changeBoth_keep {map : κ → α} {first second : κ} {decide : α → α → (α × α) × Answer}
    (decided : decide (map first) (map second) = ((map first, map second), answer)) :
    changeBoth map first second decide = (map, answer) := by
  rw [changeBoth_eq decided, Function.update_eq_self, Function.update_eq_self]

/-- What holds of all that is found, and of what is put in its place, holds after a change. -/
theorem forall_changeAt {holds : α → Prop} {map : κ → α} (all : ∀ place, holds (map place)) {key : κ}
    {decide : α → α × Answer} (kept : ∀ found, holds found → holds (decide found).1) :
    ∀ place, holds ((changeAt map key decide).1 place) := by
  intro place
  dsimp only [changeAt]
  by_cases here : place = key
  · rw [here, Function.update_self]
    exact kept (map key) (all key)
  · rw [Function.update_of_ne here]
    exact all place

theorem forall_changeBoth {holds : α → Prop} {map : κ → α} (all : ∀ place, holds (map place)) {first second : κ}
    {decide : α → α → (α × α) × Answer} (kept : ∀ found other, holds found → holds other →
      holds (decide found other).1.1 ∧ holds (decide found other).1.2) :
    ∀ place, holds ((changeBoth map first second decide).1 place) := by
  obtain ⟨left, right⟩ := kept _ _ (all first) (all second)
  intro place
  dsimp only [changeBoth]
  by_cases late : place = second
  · rw [late, Function.update_self]
    exact right
  · rw [Function.update_of_ne late]
    by_cases early : place = first
    · rw [early, Function.update_self]
      exact left
    · rw [Function.update_of_ne early]
      exact all place

theorem within_changeAt {territory : Set κ} {key : κ} (inside : key ∈ territory) (decide : α → α × Answer) :
    Within territory (fun map => changeAt map key decide) where
  frame map other outside := by
    have apart : other ≠ key := fun same => outside (same ▸ inside)
    exact Function.update_of_ne apart _ _
  answer map other same := by rw [changeAt, changeAt, same inside]
  effect map other same := by
    intro place member
    dsimp only [changeAt]
    rw [same inside]
    by_cases here : place = key
    · subst here
      rw [Function.update_self, Function.update_self]
    · rw [Function.update_of_ne here, Function.update_of_ne here, same member]

theorem within_changeBoth {territory : Set κ} {first second : κ} (left : first ∈ territory)
    (right : second ∈ territory) (decide : α → α → (α × α) × Answer) :
    Within territory (fun map => changeBoth map first second decide) where
  frame map other outside := by
    have apart : other ≠ first := fun same => outside (same ▸ left)
    have apart' : other ≠ second := fun same => outside (same ▸ right)
    dsimp only [changeBoth]
    rw [Function.update_of_ne apart', Function.update_of_ne apart]
  answer map other same := by rw [changeBoth, changeBoth, same left, same right]
  effect map other same := by
    intro place member
    dsimp only [changeBoth]
    rw [same left, same right]
    by_cases late : place = second
    · subst late
      rw [Function.update_self, Function.update_self]
    · rw [Function.update_of_ne late, Function.update_of_ne late]
      by_cases early : place = first
      · subst early
        rw [Function.update_self, Function.update_self]
      · rw [Function.update_of_ne early, Function.update_of_ne early, same member]

omit [DecidableEq κ] in
theorem within_const (territory : Set κ) (answer : Answer) :
    Within territory (fun map : κ → α => (map, answer)) where
  frame _ _ _ := rfl
  answer _ _ _ := rfl
  effect _ _ same := same

end Changes

end Wallchanger.Foundation
