import Wallchanger.ChangeApp.NextWall

/-! `Manager::previous_wall` takes back the last record of `next_wall`. The last record is
that of the wallpaper on screen, so the first step back leads to that one again. -/

namespace Wallchanger

open Foundation

section Related
variable {α β : Type} {related : α → β → Prop} {left : List α} {right : List β}

private theorem exists_of_mem_right {b : β} (all : List.Forall₂ related left right) (member : b ∈ right) :
    ∃ a ∈ left, related a b := by
  induction all with
  | nil => cases member
  | @cons first second left right here _ ih =>
    rcases List.mem_cons.mp member with same | later
    · exact ⟨first, List.mem_cons_self, same ▸ here⟩
    · obtain ⟨a, inside, there⟩ := ih later
      exact ⟨a, List.mem_cons_of_mem _ inside, there⟩

/-- Partners of different items are different. -/
private theorem nodup_of_related (apart : ∀ a a' b, related a b → related a' b → a = a')
    (all : List.Forall₂ related left right) (distinct : left.Nodup) : right.Nodup := by
  induction all with
  | nil => exact List.nodup_nil
  | cons here rest ih =>
    obtain ⟨fresh, distinct⟩ := List.nodup_cons.mp distinct
    refine List.nodup_cons.mpr ⟨fun again => ?_, ih distinct⟩
    obtain ⟨a, member, there⟩ := exists_of_mem_right rest again
    exact fresh (apart _ _ _ here there ▸ member)

end Related

namespace Manager

/-- `previous_wall`. -/
def previousWall (manager : Manager) : Manager × Json :=
  match manager.previous.getLast? with
  | some previous => ({ manager with previous := manager.previous.dropLast }, previous)
  | none => (manager, .null)

/-- The manager after some consecutive calls of `previous_wall`. -/
def steppedBack (manager : Manager) : Nat → Manager
  | 0 => manager
  | count + 1 => (manager.steppedBack count).previousWall.1

theorem previous_previousWall (manager : Manager) :
    manager.previousWall.1.previous = manager.previous.dropLast := by
  unfold previousWall
  split
  · rfl
  · rename_i empty
    rw [List.getLast?_eq_none_iff.mp empty]
    rfl

/-- Each call takes one record away. -/
theorem previous_steppedBack (manager : Manager) (count : Nat) :
    (manager.steppedBack count).previous = manager.previous.take (manager.previous.length - count) := by
  induction count with
  | zero => exact (List.take_length ..).symm
  | succ count ih =>
    rw [steppedBack, previous_previousWall, ih, List.dropLast_eq_take, List.take_take, List.length_take]
    congr 1
    omega

/-- A call answers with the last record. -/
theorem previousWall_of_last {manager : Manager} {record : Json}
    (last : manager.previous.getLast? = some record) : manager.previousWall.2 = record := by
  unfold previousWall
  split
  · rename_i previous found
    exact Option.some.inj (found.symm.trans last)
  · rename_i empty
    cases empty.symm.trans last

/-- The answer of each of some consecutive calls, counted from the end of the history. -/
theorem previousWall_steppedBack {manager : Manager} {count : Nat} {record : Json}
    (inside : count < manager.previous.length)
    (found : manager.previous[manager.previous.length - 1 - count]? = some record) :
    (manager.steppedBack count).previousWall.2 = record := by
  apply previousWall_of_last
  have length : (manager.steppedBack count).previous.length = manager.previous.length - count := by
    rw [previous_steppedBack, List.length_take]
    exact Nat.min_eq_left (Nat.sub_le ..)
  rw [List.getLast?_eq_getElem?, length, previous_steppedBack, List.getElem?_take_of_lt (by omega),
    Nat.sub_right_comm]
  exact found

/-- No two calls of a run serve the same item. -/
theorem ServedRun.returned_nodup {start final : Manager} {cache : Cache Bytes} {served : List Nat}
    {returned : List Json} (run : ServedRun start final cache served returned) : returned.Nodup := by
  refine nodup_of_related ?_ run.records run.distinct
  intro idx idx' record ⟨_, _, _, _, same⟩ ⟨_, _, _, _, same'⟩
  exact (wallRecord_inj (same.symm.trans same')).1

/-- A call that returns a wallpaper finds the active collection. -/
theorem active_of_serve {manager next : Manager} {before after : List Json} {draws : List Int}
    (taken : serve (manager, before) draws = some (next, after)) : ∃ cache, manager.Active cache := by
  obtain ⟨sent, called, shown, _⟩ := serve_eq_some taken
  rcases nextWall_cases called with ⟨_, _, null⟩ | ⟨cache, _, _, _, active, _⟩
  · rw [null] at shown
    cases shown
  · exact ⟨cache, active⟩

/-- After calls that returned `w 1, …, w k`, the `j`-th call back returns `w (k - j + 1)`
again, and so never `w (k - j)`. -/
theorem previous_wall_repeats {manager shown : Manager} {calls : List (List Int)} {returned : List Json}
    {j : Nat} (reached : run serve (manager, []) calls = some (shown, returned)) (first : 1 ≤ j)
    (inside : j < calls.length) :
    returned[calls.length - j]? = some (shown.steppedBack (j - 1)).previousWall.2 ∧
      returned[calls.length - j - 1]? ≠ some (shown.steppedBack (j - 1)).previousWall.2 := by
  have active : ∃ cache, manager.Active cache := by
    cases calls with
    | nil => cases inside
    | cons draws rest =>
      obtain ⟨next, taken, _⟩ := run_cons.mp reached
      exact active_of_serve taken
  obtain ⟨cache, active⟩ := active
  obtain ⟨served, records, split, count, served_⟩ := served_of_run active reached
  rw [List.nil_append] at split
  subst split
  have length : returned.length = calls.length := served_.records.length_eq.symm.trans count
  have total : shown.previous.length = manager.previous.length + calls.length := by
    rw [served_.previous, List.length_append, length]
  have bound : calls.length - j < returned.length := by omega
  have last : returned[calls.length - j]? = some returned[calls.length - j] := List.getElem?_eq_getElem bound
  have answer : (shown.steppedBack (j - 1)).previousWall.2 = returned[calls.length - j] := by
    refine previousWall_steppedBack (by omega) ?_
    have place : shown.previous.length - 1 - (j - 1) = manager.previous.length + (calls.length - j) := by
      omega
    rw [place, served_.previous, List.getElem?_append_right (Nat.le_add_right ..), Nat.add_sub_cancel_left]
    exact last
  refine ⟨answer ▸ last, fun before => ?_⟩
  rw [answer, ← last] at before
  have same := (List.getElem?_inj (by omega) served_.returned_nodup).mp before
  omega

/-- Two wallpapers were shown, and one step is taken back: it leads to the second one. -/
theorem previous_wall_repeats_two : ∃ shown first second,
    run serve (ofItems [⟨ascii "a", .unused, 0⟩, ⟨ascii "b", .unused, 0⟩, ⟨ascii "c", .unused, 0⟩], [])
      [[1], [2]] = some (shown, [first, second]) ∧ some second = some shown.previousWall.2 ∧
      some first ≠ some shown.previousWall.2 := by
  have defined : ∃ shown first second,
    run serve (ofItems [⟨ascii "a", .unused, 0⟩, ⟨ascii "b", .unused, 0⟩, ⟨ascii "c", .unused, 0⟩], [])
      [[1], [2]] = some (shown, [first, second]) := ⟨_, _, _, rfl⟩
  obtain ⟨shown, first, second, reached⟩ := defined
  have both := previous_wall_repeats reached (Nat.le_refl 1) (by decide)
  exact ⟨shown, first, second, reached, both.1, both.2⟩

/-- The step back shows the wallpaper that is on screen already. -/
theorem previous_wall_shows_same : ∃ shown first second,
    run serve (ofItems [⟨ascii "a", .unused, 0⟩, ⟨ascii "b", .unused, 0⟩, ⟨ascii "c", .unused, 0⟩], [])
      [[1], [2]] = some (shown, [first, second]) ∧ first ≠ second ∧ shown.previousWall.2 = second := by
  refine ⟨_, _, _, rfl, fun same => ?_, rfl⟩
  exact absurd (wallRecord_inj same).1 (by decide)

end Manager

end Wallchanger
