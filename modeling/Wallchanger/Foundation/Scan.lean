import Mathlib.Data.List.Basic

/-! Scanning a text over any alphabet: its lines, its fields, the first place of a
pattern, and the removal of a mark. -/

namespace Wallchanger.Foundation

universe u
variable {α : Type u} [BEq α]

/-- The fields between delimiters; an empty text has none. -/
def fields (delimiter : α) (text : List α) : List (List α) :=
  if text.isEmpty then [] else text.splitOn delimiter

/-- The parts that are ended by a delimiter, or by the end of the text if they hold anything. -/
def lines (delimiter : α) (text : List α) : List (List α) :=
  let parts := text.splitOn delimiter
  if parts.getLast? == some [] then parts.dropLast else parts

/-- The first place at which a pattern stands. -/
def findSub (pattern : List α) : List α → Option Nat
  | [] => if pattern.isEmpty then some 0 else none
  | head :: rest =>
    if pattern.isPrefixOf (head :: rest) then some 0 else (findSub pattern rest).map (· + 1)

variable [LawfulBEq α] {delimiter : α} {text pattern : List α}

/-- Texts without delimiters, each with one behind it, are the lines of what they make. -/
theorem lines_flatMap {texts : List (List α)} (clean : ∀ text ∈ texts, delimiter ∉ text) :
    lines delimiter (texts.flatMap (· ++ [delimiter])) = texts := by
  have parts : (texts.flatMap (· ++ [delimiter])).splitOn delimiter = texts ++ [[]] := by
    induction texts with
    | nil => rfl
    | cons text rest ih =>
      rw [List.flatMap_cons, List.append_assoc, List.singleton_append,
        List.splitOn_append_cons_self_of_not_mem (clean text List.mem_cons_self),
        ih (fun other member => clean other (List.mem_cons_of_mem text member))]
      rfl
  simp [lines, parts]

/-- The first two fields of a text, where the first delimiter ends the one and the next
delimiter or the end of the text the other. -/
inductive TwoFields (delimiter : α) (text first second : List α) : Prop where
  | ended (same : text = first ++ delimiter :: second) (one : delimiter ∉ first) (two : delimiter ∉ second)
  | delimited (after : List α) (same : text = first ++ delimiter :: (second ++ delimiter :: after))
      (one : delimiter ∉ first) (two : delimiter ∉ second)

theorem fields_of_twoFields (two : TwoFields delimiter text first second) :
    ∃ others, fields delimiter text = first :: second :: others := by
  cases two with
  | ended same one two =>
    refine ⟨[], ?_⟩
    rw [same, fields, if_neg (by simp), List.splitOn_append_cons_self_of_not_mem one,
      List.splitOn_eq_singleton two]
  | delimited after same one two =>
    refine ⟨after.splitOn delimiter, ?_⟩
    rw [same, fields, if_neg (by simp), List.splitOn_append_cons_self_of_not_mem one,
      List.splitOn_append_cons_self_of_not_mem two]

theorem TwoFields.unique (one : TwoFields delimiter text first second)
    (other : TwoFields delimiter text first' second') : first = first' ∧ second = second' := by
  obtain ⟨_, fields⟩ := fields_of_twoFields one
  obtain ⟨_, fields'⟩ := fields_of_twoFields other
  cases fields.symm.trans fields'
  exact ⟨rfl, rfl⟩

/-- A text has no two fields, or it can be told which. -/
theorem twoFields_or (delimiter : α) (text : List α) :
    (fields delimiter text)[1]? = none ∨ ∃ first second, TwoFields delimiter text first second := by
  by_cases marked : delimiter ∈ text
  · obtain ⟨first, rest, same, one⟩ := List.eq_append_cons_of_mem marked
    by_cases again : delimiter ∈ rest
    · obtain ⟨second, after, split, two⟩ := List.eq_append_cons_of_mem again
      exact .inr ⟨first, second, .delimited after (split ▸ same) one two⟩
    · exact .inr ⟨first, rest, .ended same one again⟩
  · refine .inl ?_
    unfold fields
    split
    · rfl
    · rw [List.splitOn_eq_singleton marked]
      rfl

theorem findSub_eq_some (found : findSub pattern text = some place) :
    ∃ before after, text = before ++ (pattern ++ after) ∧ before.length = place := by
  induction text generalizing place with
  | nil =>
    unfold findSub at found
    split at found
    · rename_i empty
      cases found
      exact ⟨[], [], by rw [List.isEmpty_iff.mp empty]; rfl, rfl⟩
    · cases found
  | cons head rest ih =>
    unfold findSub at found
    split at found
    · rename_i here
      cases found
      obtain ⟨after, same⟩ := List.isPrefixOf_iff_prefix.mp here
      exact ⟨[], after, same.symm, rfl⟩
    · obtain ⟨later, further, rfl⟩ := Option.map_eq_some_iff.mp found
      obtain ⟨before, after, same, length⟩ := ih further
      exact ⟨head :: before, after, congrArg (head :: ·) same, congrArg (· + 1) length⟩

theorem findSub_append (pattern after : List α) : findSub pattern (pattern ++ after) = some 0 := by
  have here : pattern.isPrefixOf (pattern ++ after) = true :=
    List.isPrefixOf_iff_prefix.mpr (List.prefix_append pattern after)
  cases text : pattern ++ after with
  | nil =>
    rw [findSub, (List.append_eq_nil_iff.mp text).1]
    rfl
  | cons head rest => rw [findSub, ← text, if_pos here]

theorem findSub_isSome_iff : (findSub pattern text).isSome ↔ pattern <:+: text := by
  induction text with
  | nil => simp [findSub]
  | cons head rest ih =>
    rw [List.infix_cons_iff, ← ih, ← List.isPrefixOf_iff_prefix, findSub]
    split
    · simp [*]
    · simp [*]

end Wallchanger.Foundation
