import Wallchanger.Foundation.Keyed

/-! A directory keeps a list of names and remembers one of them twice: as a name
and as a position. Its changes append, rename, erase and merge entries; the
theorems say which changes leave the two copies in step. -/

namespace Wallchanger.Foundation

universe u

structure Directory (κ : Type u) where
  names : List κ
  active : κ
  current : Nat

/-- What can happen to a directory. A merge erases two names and appends a third;
the position stored by a selection is reduced modulo the width of its field. -/
inductive Change (κ : Type u) where
  | keep
  | append (name : κ)
  | select (name : κ) (modulus : Nat)
  | rename (source target : κ)
  | remove (name : κ)
  | merge (left right kept : κ)

/-- A merge that goes on under the left name; every other change. -/
def Change.Plain {κ : Type u} : Change κ → Prop
  | .merge left _ kept => kept = left
  | _ => True

namespace Directory
variable {κ : Type u} [DecidableEq κ]

def apply (directory : Directory κ) : Change κ → Directory κ
  | .keep => directory
  | .append name =>
    if name ∈ directory.names then directory
    else { directory with names := directory.names ++ [name] }
  | .select name modulus =>
    if name ∈ directory.names then
      match directory.names[directory.names.idxOf name % modulus]? with
      | some chosen => { directory with
          active := chosen, current := directory.names.idxOf name % modulus }
      | none => directory
    else directory
  | .rename source target =>
    if source ∈ directory.names ∧ target ∉ directory.names then
      { directory with
        names := directory.names.set (directory.names.idxOf source) target
        active := if source = directory.active then target else directory.active }
    else directory
  | .remove name => { directory with names := directory.names.erase name }
  | .merge left right kept =>
    if left ≠ right ∧ left ∈ directory.names ∧ right ∈ directory.names then
      { directory with names := (directory.names.erase left).erase right ++ [kept] }
    else directory

theorem apply_append_mem {directory : Directory κ} (member : name ∈ directory.names) :
    directory.apply (.append name) = directory := if_pos member

theorem apply_append_fresh {directory : Directory κ} (fresh : name ∉ directory.names) :
    directory.apply (.append name) = { directory with names := directory.names ++ [name] } :=
  if_neg fresh

theorem apply_select_mem {directory : Directory κ} (member : name ∈ directory.names)
    (found : directory.names[directory.names.idxOf name % modulus]? = some chosen) :
    directory.apply (.select name modulus) = { directory with
      active := chosen, current := directory.names.idxOf name % modulus } := by
  simp only [apply, if_pos member, found]

theorem apply_select_missing {directory : Directory κ} (missing : name ∉ directory.names) :
    directory.apply (.select name modulus) = directory := if_neg missing

theorem apply_rename_of {directory : Directory κ}
    (guard : source ∈ directory.names ∧ target ∉ directory.names) :
    directory.apply (.rename source target) = { directory with
      names := directory.names.set (directory.names.idxOf source) target
      active := if source = directory.active then target else directory.active } := if_pos guard

theorem apply_rename_blocked {directory : Directory κ}
    (blocked : ¬ (source ∈ directory.names ∧ target ∉ directory.names)) :
    directory.apply (.rename source target) = directory := if_neg blocked

theorem apply_merge_of {directory : Directory κ}
    (guard : left ≠ right ∧ left ∈ directory.names ∧ right ∈ directory.names) :
    directory.apply (.merge left right kept) = { directory with
      names := (directory.names.erase left).erase right ++ [kept] } := if_pos guard

theorem apply_merge_blocked {directory : Directory κ}
    (blocked : ¬ (left ≠ right ∧ left ∈ directory.names ∧ right ∈ directory.names)) :
    directory.apply (.merge left right kept) = directory := if_neg blocked

/-! ### Distinct names -/

theorem nodup_apply {directory : Directory κ} (change : Change κ) (plain : change.Plain)
    (distinct : directory.names.Nodup) : (directory.apply change).names.Nodup := by
  cases change with
  | keep => exact distinct
  | append name =>
    simp only [apply]
    split
    · exact distinct
    · rename_i fresh
      exact List.nodup_append.mpr ⟨distinct, List.nodup_singleton name,
        fun other member last single => by
          rw [List.mem_singleton.mp single]
          exact fun same => fresh (same ▸ member)⟩
  | select name modulus =>
    simp only [apply]
    split
    · split <;> exact distinct
    · exact distinct
  | rename source target =>
    simp only [apply]
    split
    · rename_i guard
      exact distinct.set guard.2
    · exact distinct
  | remove name => exact distinct.erase name
  | merge left right kept =>
    simp only [Change.Plain] at plain
    subst kept
    simp only [apply]
    split
    · have rest := (distinct.erase left).erase right
      refine List.nodup_append.mpr ⟨rest, List.nodup_singleton left, fun other member last single => ?_⟩
      rw [List.mem_singleton.mp single]
      rintro rfl
      exact distinct.not_mem_erase (List.mem_of_mem_erase member)
    · exact distinct

/-! ### The active name and its position -/

/-- The active name is listed and its first occurrence is the stored position. -/
def InStep (directory : Directory κ) : Prop :=
  directory.active ∈ directory.names ∧ directory.names.idxOf directory.active = directory.current

/-- In step unless the active name is the blank one. -/
def Tracked (blank : κ) (directory : Directory κ) : Prop :=
  directory.active ≠ blank → directory.InStep

/-- The condition under which a change keeps a tracked directory tracked:
nothing at or before the active position is taken out, unless a merge puts the
active name back at exactly that position. -/
def Tracks (blank : κ) (directory : Directory κ) : Change κ → Prop
  | .select name modulus => ∀ chosen, name ∈ directory.names →
      directory.names[directory.names.idxOf name % modulus]? = some chosen → chosen ≠ blank →
      directory.names.idxOf chosen = directory.names.idxOf name % modulus
  | .rename source target => source ∈ directory.names → target ∉ directory.names →
      source = directory.active → target ≠ blank →
      directory.names.idxOf source = directory.current
  | .remove name => name ∈ directory.names → directory.active ≠ blank →
      directory.current < directory.names.idxOf name
  | .merge left right kept => left ≠ right → left ∈ directory.names → right ∈ directory.names →
      directory.active ≠ blank →
      (directory.current < directory.names.idxOf left ∧
        directory.current < directory.names.idxOf right) ∨
      (kept = directory.active ∧ directory.current + 2 = directory.names.length ∧
        directory.active ∉ (directory.names.erase left).erase right)
  | _ => True

omit [DecidableEq κ] in
private theorem forall_chosen {found : Option κ} {holds : κ → Prop} :
    (∀ chosen, found = some chosen → holds chosen) ↔ ∀ chosen ∈ found.toList, holds chosen := by
  cases found <;> simp

instance decidableTracks (blank : κ) (directory : Directory κ) :
    (change : Change κ) → Decidable (directory.Tracks blank change)
  | .select name modulus => decidable_of_iff
      (name ∈ directory.names → ∀ chosen ∈ (directory.names[directory.names.idxOf name % modulus]?).toList,
        chosen ≠ blank → directory.names.idxOf chosen = directory.names.idxOf name % modulus)
      ⟨fun all chosen listed => forall_chosen.mpr (all listed) chosen,
        fun all listed => forall_chosen.mp (fun chosen => all chosen listed)⟩
  | .rename source target => inferInstanceAs (Decidable (source ∈ directory.names →
      target ∉ directory.names → source = directory.active → target ≠ blank →
      directory.names.idxOf source = directory.current))
  | .remove name => inferInstanceAs (Decidable (name ∈ directory.names → directory.active ≠ blank →
      directory.current < directory.names.idxOf name))
  | .merge left right kept => inferInstanceAs (Decidable (left ≠ right → left ∈ directory.names →
      right ∈ directory.names → directory.active ≠ blank →
      (directory.current < directory.names.idxOf left ∧
        directory.current < directory.names.idxOf right) ∨
      (kept = directory.active ∧ directory.current + 2 = directory.names.length ∧
        directory.active ∉ (directory.names.erase left).erase right)))
  | .keep | .append _ => isTrue trivial

/-- Erasing two names that stand behind a third leaves its position alone. -/
private theorem idxOf_erase_two {names : List κ} {name left right : κ} (different : left ≠ right)
    (beforeLeft : names.idxOf name < names.idxOf left)
    (beforeRight : names.idxOf name < names.idxOf right) :
    ((names.erase left).erase right).idxOf name = names.idxOf name := by
  have notLeft : name ≠ left := fun same => by simp [same] at beforeLeft
  have notRight : name ≠ right := fun same => by simp [same] at beforeRight
  have first := idxOf_erase_ne names notLeft
  have second := idxOf_erase_ne (names.erase left) notRight
  have behind := idxOf_erase_ne names (Ne.symm different)
  split at first <;> split at second <;> split at behind <;> omega

private theorem mem_erase_two {names : List κ} {name left right : κ} (member : name ∈ names)
    (beforeLeft : names.idxOf name < names.idxOf left)
    (beforeRight : names.idxOf name < names.idxOf right) :
    name ∈ (names.erase left).erase right := by
  have notLeft : name ≠ left := fun same => by simp [same] at beforeLeft
  have notRight : name ≠ right := fun same => by simp [same] at beforeRight
  exact (List.mem_erase_of_ne notRight).mpr ((List.mem_erase_of_ne notLeft).mpr member)

private theorem length_erase_two {names : List κ} {left right : κ} (different : left ≠ right)
    (leftMember : left ∈ names) (rightMember : right ∈ names) :
    ((names.erase left).erase right).length + 2 = names.length := by
  have present : right ∈ names.erase left := (List.mem_erase_of_ne (Ne.symm different)).mpr rightMember
  have first := List.length_erase_of_mem leftMember
  have second := List.length_erase_of_mem present
  have someLeft := List.length_pos_of_mem leftMember
  have someRight := List.length_pos_of_mem present
  omega

/-- Only appending makes a directory longer. -/
theorem length_apply_le (directory : Directory κ) {change : Change κ}
    (other : ∀ name, change ≠ .append name) :
    (directory.apply change).names.length ≤ directory.names.length := by
  cases change with
  | keep => exact Nat.le_refl _
  | append name => exact absurd rfl (other name)
  | select name modulus =>
    simp only [apply]
    split
    · split <;> exact Nat.le_refl _
    · exact Nat.le_refl _
  | rename source target =>
    simp only [apply]
    split
    · exact Nat.le_of_eq List.length_set
    · exact Nat.le_refl _
  | remove name => exact List.length_erase_le
  | merge left right kept =>
    simp only [apply]
    split
    · rename_i guard
      have rest := length_erase_two guard.1 guard.2.1 guard.2.2
      rw [List.length_append, List.length_singleton]
      omega
    · exact Nat.le_refl _

/-- A name found at the position it is renamed from, or elsewhere. -/
private theorem inStep_rename {directory : Directory κ} {source target : κ}
    (sourceMember : source ∈ directory.names) (fresh : target ∉ directory.names)
    (other : source ≠ directory.active) (inStep : directory.InStep) :
    directory.active ∈ directory.names.set (directory.names.idxOf source) target ∧
      (directory.names.set (directory.names.idxOf source) target).idxOf directory.active =
        directory.current := by
  have spot : directory.names[directory.names.idxOf source]? ≠ some directory.active := by
    rw [List.getElem?_idxOf sourceMember]
    exact fun same => other (Option.some.inj same)
  have different : target ≠ directory.active := fun same => fresh (same ▸ inStep.1)
  exact ⟨(mem_set_other spot different).mpr inStep.1,
    (idxOf_set_other spot different).trans inStep.2⟩

private theorem renamed_position {names : List κ} {source target : κ}
    (sourceMember : source ∈ names) (fresh : target ∉ names) :
    target ∈ names.set (names.idxOf source) target ∧
      (names.set (names.idxOf source) target).idxOf target = names.idxOf source := by
  have inside := List.idxOf_lt_length_of_mem sourceMember
  exact ⟨List.mem_set inside target, idxOf_set_fresh fresh inside⟩

/-- An entry behind the active one can go. -/
private theorem inStep_remove {directory : Directory κ} {name : κ} (inStep : directory.InStep)
    (later : directory.current < directory.names.idxOf name) :
    (directory.apply (.remove name)).InStep := by
  have ⟨member, spot⟩ := inStep
  have other : directory.active ≠ name := by
    intro same
    rw [same] at spot
    omega
  have position := idxOf_erase_ne directory.names other
  rw [if_neg (by omega)] at position
  exact ⟨(List.mem_erase_of_ne other).mpr member, position.trans spot⟩

/-- Two entries behind the active one can go for a third. -/
private theorem inStep_merge_behind {directory : Directory κ} {left right : κ} (kept : κ)
    (inStep : directory.InStep) (different : left ≠ right)
    (beforeLeft : directory.current < directory.names.idxOf left)
    (beforeRight : directory.current < directory.names.idxOf right) :
    directory.active ∈ (directory.names.erase left).erase right ++ [kept] ∧
      ((directory.names.erase left).erase right ++ [kept]).idxOf directory.active = directory.current := by
  have ⟨member, spot⟩ := inStep
  rw [← spot] at beforeLeft beforeRight
  have rest := mem_erase_two member beforeLeft beforeRight
  exact ⟨List.mem_append_left _ rest, (List.idxOf_append_of_mem rest).trans
    ((idxOf_erase_two different beforeLeft beforeRight).trans spot)⟩

/-- A name put behind the entries that are left stands two before the old end. -/
private theorem idxOf_merged {names : List κ} {left right kept : κ} (different : left ≠ right)
    (leftMember : left ∈ names) (rightMember : right ∈ names)
    (gone : kept ∉ (names.erase left).erase right) :
    ((names.erase left).erase right ++ [kept]).idxOf kept + 2 = names.length := by
  rw [List.idxOf_append_of_notMem gone, List.idxOf_cons_self, Nat.add_zero]
  exact length_erase_two different leftMember rightMember

/-- One change keeps a tracked directory tracked under its condition. -/
theorem tracked_apply {directory : Directory κ} (change : Change κ)
    (tracked : directory.Tracked blank) (tracks : directory.Tracks blank change) :
    (directory.apply change).Tracked blank := by
  cases change with
  | keep => exact tracked
  | append name =>
    simp only [apply]
    split
    · exact tracked
    · intro nonblank
      have ⟨member, spot⟩ := tracked nonblank
      exact ⟨List.mem_append_left _ member, (List.idxOf_append_of_mem member).trans spot⟩
  | select name modulus =>
    simp only [apply]
    split
    · rename_i listed
      split
      · rename_i chosen found
        intro nonblank
        exact ⟨List.mem_of_getElem? found, tracks chosen listed found nonblank⟩
      · exact tracked
    · exact tracked
  | rename source target =>
    simp only [apply]
    split
    · rename_i guard
      by_cases same : source = directory.active
      · rw [if_pos same]
        intro nonblank
        have ⟨member, spot⟩ := renamed_position guard.1 guard.2
        exact ⟨member, spot.trans (tracks guard.1 guard.2 same nonblank)⟩
      · rw [if_neg same]
        intro nonblank
        exact inStep_rename guard.1 guard.2 same (tracked nonblank)
    · exact tracked
  | remove name =>
    intro nonblank
    by_cases listed : name ∈ directory.names
    · exact inStep_remove (tracked nonblank) (tracks listed nonblank)
    · simp only [apply, List.erase_of_not_mem listed]
      exact tracked nonblank
  | merge left right kept =>
    simp only [apply]
    split
    · rename_i guard
      intro nonblank
      rcases tracks guard.1 guard.2.1 guard.2.2 nonblank with ⟨beforeLeft, beforeRight⟩ | ⟨same, place, gone⟩
      · exact inStep_merge_behind kept (tracked nonblank) guard.1 beforeLeft beforeRight
      · subst kept
        have position := idxOf_merged guard.1 guard.2.1 guard.2.2 gone
        refine ⟨by simp, ?_⟩
        change ((directory.names.erase left).erase right ++ [directory.active]).idxOf
          directory.active = directory.current
        omega
    · exact tracked

/-- A name that keeps its position when another is erased stands before that. -/
private theorem before_of_erased {names : List κ} {active name : κ} (distinct : names.Nodup)
    (kept : active ∈ names.erase name)
    (position : (names.erase name).idxOf active = names.idxOf active) :
    names.idxOf active < names.idxOf name := by
  have other : active ≠ name := (distinct.mem_erase_iff.mp kept).1
  have member := List.mem_of_mem_erase kept
  have apart : names.idxOf active ≠ names.idxOf name := fun same => other ((List.idxOf_inj member).mp same)
  have shifted := idxOf_erase_ne names other
  split at shifted <;> omega

/-- The same for two names. -/
private theorem before_of_erased_two {names : List κ} {active left right : κ} (distinct : names.Nodup)
    (different : left ≠ right) (kept : active ∈ (names.erase left).erase right)
    (position : ((names.erase left).erase right).idxOf active = names.idxOf active) :
    names.idxOf active < names.idxOf left ∧ names.idxOf active < names.idxOf right := by
  have still := List.mem_of_mem_erase kept
  have member := List.mem_of_mem_erase still
  have notLeft : active ≠ left := (distinct.mem_erase_iff.mp still).1
  have notRight : active ≠ right := ((distinct.erase left).mem_erase_iff.mp kept).1
  have apartLeft : names.idxOf active ≠ names.idxOf left :=
    fun equal => notLeft ((List.idxOf_inj member).mp equal)
  have apartRight : names.idxOf active ≠ names.idxOf right :=
    fun equal => notRight ((List.idxOf_inj member).mp equal)
  have first := idxOf_erase_ne names notLeft
  have second := idxOf_erase_ne (names.erase left) notRight
  have behind := idxOf_erase_ne names (Ne.symm different)
  split at first <;> split at second <;> split at behind <;> omega

/-- Among distinct names the condition is exact: a tracked directory stays
tracked only by a change that meets it. -/
theorem tracks_of_tracked {directory : Directory κ} (change : Change κ) (plain : change.Plain)
    (distinct : directory.names.Nodup) (tracked : directory.Tracked blank)
    (after : (directory.apply change).Tracked blank) : directory.Tracks blank change := by
  cases change with
  | keep => trivial
  | append name => trivial
  | select name modulus =>
    intro chosen listed found nonblank
    simp only [apply, if_pos listed, found] at after
    exact (after nonblank).2
  | rename source target =>
    intro sourceMember fresh same nonblank
    simp only [apply, if_pos (And.intro sourceMember fresh), if_pos same] at after
    exact (renamed_position sourceMember fresh).2.symm.trans (after nonblank).2
  | remove name =>
    intro listed nonblank
    have ⟨_, spot⟩ := tracked nonblank
    obtain ⟨kept, position⟩ : directory.active ∈ directory.names.erase name ∧
        (directory.names.erase name).idxOf directory.active = directory.current := after nonblank
    rw [← spot] at position ⊢
    exact before_of_erased distinct kept position
  | merge left right kept =>
    intro different leftMember rightMember nonblank
    have ⟨_, spot⟩ := tracked nonblank
    simp only [Change.Plain] at plain
    subst kept
    simp only [apply, if_pos (And.intro different (And.intro leftMember rightMember))] at after
    obtain ⟨kept, position⟩ : directory.active ∈ (directory.names.erase left).erase right ++ [left] ∧
        ((directory.names.erase left).erase right ++ [left]).idxOf directory.active =
          directory.current := after nonblank
    by_cases same : left = directory.active
    · right
      have gone : directory.active ∉ (directory.names.erase left).erase right := by
        intro rest
        rw [← same] at rest
        exact distinct.not_mem_erase (List.mem_of_mem_erase rest)
      have place := idxOf_merged different leftMember rightMember gone
      rw [same] at position place
      exact ⟨same, by omega, gone⟩
    · left
      have rest : directory.active ∈ (directory.names.erase left).erase right := by
        rcases List.mem_append.mp kept with rest | last
        · exact rest
        · exact absurd (List.mem_singleton.mp last).symm same
      rw [List.idxOf_append_of_mem rest, ← spot] at position
      rw [← spot]
      exact before_of_erased_two distinct different rest position

/-! ### A position that is in range whatever the active name is -/

/-- The position is in range as soon as there is a name, and it is that of the
active name as soon as this one is listed. -/
def Settled (directory : Directory κ) : Prop :=
  (directory.names ≠ [] → directory.current < directory.names.length) ∧
    (directory.active ∈ directory.names →
      directory.names.idxOf directory.active = directory.current)

/-- The condition under which a change keeps a settled directory settled. -/
def Settles (directory : Directory κ) : Change κ → Prop
  | .keep => True
  | .append name => name ∉ directory.names →
      (directory.names = [] → directory.current = 0) ∧
      (name = directory.active → directory.current = directory.names.length)
  | .select name modulus => ∀ chosen, name ∈ directory.names →
      directory.names[directory.names.idxOf name % modulus]? = some chosen →
      directory.names.idxOf chosen = directory.names.idxOf name % modulus
  | .rename source target => source ∈ directory.names → target ∉ directory.names →
      target = directory.active → directory.names.idxOf source = directory.current
  | .remove name => name ∈ directory.names →
      (directory.names.length = 1 ∨ directory.current + 1 < directory.names.length) ∧
      (directory.active ∈ directory.names.erase name →
        directory.current < directory.names.idxOf name)
  | .merge left right kept => left ≠ right → left ∈ directory.names → right ∈ directory.names →
      directory.current + 1 < directory.names.length ∧
      (directory.active ∈ (directory.names.erase left).erase right →
        directory.current < directory.names.idxOf left ∧
          directory.current < directory.names.idxOf right) ∧
      (directory.active ∉ (directory.names.erase left).erase right → kept = directory.active →
        directory.current + 2 = directory.names.length)

instance decidableSettles (directory : Directory κ) :
    (change : Change κ) → Decidable (directory.Settles change)
  | .keep => isTrue trivial
  | .append name => inferInstanceAs (Decidable (name ∉ directory.names →
      (directory.names = [] → directory.current = 0) ∧
      (name = directory.active → directory.current = directory.names.length)))
  | .select name modulus => decidable_of_iff
      (name ∈ directory.names → ∀ chosen ∈ (directory.names[directory.names.idxOf name % modulus]?).toList,
        directory.names.idxOf chosen = directory.names.idxOf name % modulus)
      ⟨fun all chosen listed => forall_chosen.mpr (all listed) chosen,
        fun all listed => forall_chosen.mp (fun chosen => all chosen listed)⟩
  | .rename source target => inferInstanceAs (Decidable (source ∈ directory.names →
      target ∉ directory.names → target = directory.active →
      directory.names.idxOf source = directory.current))
  | .remove name => inferInstanceAs (Decidable (name ∈ directory.names →
      (directory.names.length = 1 ∨ directory.current + 1 < directory.names.length) ∧
      (directory.active ∈ directory.names.erase name →
        directory.current < directory.names.idxOf name)))
  | .merge left right kept =>
    have _ : Decidable (directory.active ∈ (directory.names.erase left).erase right →
      directory.current < directory.names.idxOf left ∧
        directory.current < directory.names.idxOf right) := inferInstance
    have _ : Decidable (directory.active ∉ (directory.names.erase left).erase right →
      kept = directory.active → directory.current + 2 = directory.names.length) := inferInstance
    inferInstanceAs (Decidable (left ≠ right → left ∈ directory.names →
      right ∈ directory.names → directory.current + 1 < directory.names.length ∧ _ ∧ _))

private theorem settled_append {directory : Directory κ} {name : κ} (settled : directory.Settled)
    (fresh : name ∉ directory.names) (first : directory.names = [] → directory.current = 0)
    (found : name = directory.active → directory.current = directory.names.length) :
    ({ directory with names := directory.names ++ [name] } : Directory κ).Settled := by
  have ⟨bounded, placed⟩ := settled
  refine ⟨fun _ => ?_, fun member => ?_⟩
  · change directory.current < (directory.names ++ [name]).length
    rw [List.length_append, List.length_singleton]
    by_cases empty : directory.names = []
    · have start := first empty
      omega
    · have inside := bounded empty
      omega
  · change (directory.names ++ [name]).idxOf directory.active = directory.current
    rcases List.mem_append.mp member with old | last
    · exact (List.idxOf_append_of_mem old).trans (placed old)
    · have same : directory.active = name := List.mem_singleton.mp last
      rw [List.idxOf_append_of_notMem (same ▸ fresh), same, List.idxOf_cons_self, found same.symm]
      omega

private theorem settled_rename {directory : Directory κ} {source target : κ} (settled : directory.Settled)
    (sourceMember : source ∈ directory.names) (fresh : target ∉ directory.names)
    (found : target = directory.active → directory.names.idxOf source = directory.current) :
    (directory.apply (.rename source target)).Settled := by
  have ⟨bounded, placed⟩ := settled
  have nonempty : directory.names ≠ [] := List.ne_nil_of_mem sourceMember
  rw [apply_rename_of ⟨sourceMember, fresh⟩]
  refine ⟨fun _ => ?_, ?_⟩
  · change directory.current < (directory.names.set _ target).length
    rw [List.length_set]
    exact bounded nonempty
  · by_cases same : source = directory.active
    · rw [if_pos same]
      intro _
      have position := placed (same ▸ sourceMember)
      rw [← same] at position
      exact (renamed_position sourceMember fresh).2.trans position
    · rw [if_neg same]
      intro member
      by_cases taken : target = directory.active
      · have here := found taken
        subst target
        exact (renamed_position sourceMember fresh).2.trans here
      · have spot : directory.names[directory.names.idxOf source]? ≠ some directory.active := by
          rw [List.getElem?_idxOf sourceMember]
          exact fun equal => same (Option.some.inj equal)
        have old := (mem_set_other spot taken).mp member
        exact (idxOf_set_other spot taken).trans (placed old)

private theorem settled_remove {directory : Directory κ} {name : κ} (settled : directory.Settled)
    (listed : name ∈ directory.names)
    (room : directory.names.length = 1 ∨ directory.current + 1 < directory.names.length)
    (behind : directory.active ∈ directory.names.erase name →
      directory.current < directory.names.idxOf name) :
    (directory.apply (.remove name)).Settled := by
  have size := List.length_erase_of_mem listed
  refine ⟨fun nonempty => ?_, fun member => ?_⟩
  · have some_ := List.length_pos_iff.mpr nonempty
    change 0 < (directory.names.erase name).length at some_
    change directory.current < (directory.names.erase name).length
    omega
  · have old := List.mem_of_mem_erase member
    exact (inStep_remove ⟨old, settled.2 old⟩ (behind member)).2

private theorem settled_merge {directory : Directory κ} {left right kept : κ} (settled : directory.Settled)
    (guard : left ≠ right ∧ left ∈ directory.names ∧ right ∈ directory.names)
    (room : directory.current + 1 < directory.names.length)
    (behind : directory.active ∈ (directory.names.erase left).erase right →
      directory.current < directory.names.idxOf left ∧ directory.current < directory.names.idxOf right)
    (replaced : directory.active ∉ (directory.names.erase left).erase right → kept = directory.active →
      directory.current + 2 = directory.names.length) :
    (directory.apply (.merge left right kept)).Settled := by
  have size := length_erase_two guard.1 guard.2.1 guard.2.2
  rw [apply_merge_of guard]
  refine ⟨fun _ => ?_, fun member => ?_⟩
  · change directory.current < ((directory.names.erase left).erase right ++ [kept]).length
    rw [List.length_append, List.length_singleton]
    omega
  · change ((directory.names.erase left).erase right ++ [kept]).idxOf directory.active =
      directory.current
    by_cases rest : directory.active ∈ (directory.names.erase left).erase right
    · have old := List.mem_of_mem_erase (List.mem_of_mem_erase rest)
      have ⟨beforeLeft, beforeRight⟩ := behind rest
      exact (inStep_merge_behind kept ⟨old, settled.2 old⟩ guard.1 beforeLeft beforeRight).2
    · have last : directory.active = kept := by
        rcases List.mem_append.mp member with present | single
        · exact absurd present rest
        · exact List.mem_singleton.mp single
      subst kept
      have place := replaced rest rfl
      have position := idxOf_merged guard.1 guard.2.1 guard.2.2 rest
      omega

/-- One change keeps a settled directory settled under its condition. -/
theorem settled_apply {directory : Directory κ} (change : Change κ)
    (settled : directory.Settled) (settles : directory.Settles change) :
    (directory.apply change).Settled := by
  cases change with
  | keep => exact settled
  | append name =>
    by_cases listed : name ∈ directory.names
    · rw [apply_append_mem listed]
      exact settled
    · have ⟨first, found⟩ := settles listed
      rw [apply_append_fresh listed]
      exact settled_append settled listed first found
  | select name modulus =>
    simp only [apply]
    split
    · rename_i listed
      split
      · rename_i chosen spot
        have inside := (List.getElem?_eq_some_iff.mp spot).1
        exact ⟨fun _ => inside, fun _ => settles chosen listed spot⟩
      · exact settled
    · exact settled
  | rename source target =>
    by_cases guard : source ∈ directory.names ∧ target ∉ directory.names
    · exact settled_rename settled guard.1 guard.2 (settles guard.1 guard.2)
    · rw [apply_rename_blocked guard]
      exact settled
  | remove name =>
    by_cases listed : name ∈ directory.names
    · have ⟨room, behind⟩ := settles listed
      exact settled_remove settled listed room behind
    · simp only [apply, List.erase_of_not_mem listed]
      exact settled
  | merge left right kept =>
    by_cases guard : left ≠ right ∧ left ∈ directory.names ∧ right ∈ directory.names
    · have ⟨room, behind, replaced⟩ := settles guard.1 guard.2.1 guard.2.2
      exact settled_merge settled guard room behind replaced
    · rw [apply_merge_blocked guard]
      exact settled

end Directory
end Wallchanger.Foundation
