import Wallchanger.ChangeApp.WallManager

/-! `modified` dereferences the first flagged collection unchecked: which calls leave a
library in which it finds one, and a manager that can be stored. -/

namespace Wallchanger

open Foundation

namespace CacheLib

/-- A call on a library that is not constant. The last two look at items only, but by
mutable pointers and iterators. -/
inductive LibCall where
  | change (op : LibOp)
  | getCache (name : StringView)
  | getCurrent

def call (lib : CacheLib) : LibCall → Option CacheLib
  | .change op => lib.step op
  | .getCache name =>
    match lib.getCacheMut name with
    | .ok (next, _) => some next
    | .error _ => some lib
  | .getCurrent => lib.getCurrentMut.map Prod.fst

/-- `modified` answers, and says whether a collection is flagged; so a manager with this
library can be stored. -/
def StoreDefined (lib : CacheLib) : Prop :=
  (∃ answer, lib.modified = some answer ∧ (answer = true ↔ lib.Flagged)) ∧
    ∀ manager : Manager, manager.cache = lib →
      ∀ out disk, ∃ outcome, manager.store out disk = some outcome

/-- There is no collection, or a flagged one while the active index is in range. -/
def Storable (lib : CacheLib) : Prop :=
  lib.cacheVec = [] ∨ (lib.Flagged ∧ lib.current.toNat < lib.cacheVec.length)

theorem modified_exact_iff (lib : CacheLib) :
    (∃ answer, lib.modified = some answer ∧ (answer = true ↔ lib.Flagged)) ↔
      lib.cacheVec = [] ∨ lib.Flagged := by
  constructor
  · intro ⟨answer, same, _⟩
    rcases (lib.modified_eq_some answer).mp same with ⟨_, flagged⟩ | ⟨_, empty⟩
    · exact .inr flagged
    · exact .inl empty
  · intro either
    rcases either with empty | flagged
    · refine ⟨false, (lib.modified_eq_some false).mpr (.inr ⟨rfl, empty⟩), ?_⟩
      constructor
      · intro yes
        cases yes
      · intro ⟨store, member, _⟩
        rw [empty] at member
        cases member
    · exact ⟨true, (lib.modified_eq_some true).mpr (.inl ⟨rfl, flagged⟩), fun _ => flagged, fun _ => rfl⟩

/-- A library that can be written can be written to any file. -/
theorem serialize_of_storable {lib : CacheLib} (storable : lib.Storable) (out : Output) (file : File) :
    ∃ saved, lib.serialize out file = some saved := by
  by_cases empty : lib.cacheVec = []
  · exact ⟨_, serialize_empty empty out file⟩
  · rcases storable with none_ | ⟨flagged, inside⟩
    · exact absurd none_ empty
    · exact ⟨_, (serialize_eq_some empty out file _).mpr
        ⟨flagged, _, List.getElem?_eq_getElem inside, rfl⟩⟩

theorem storeDefined_iff (lib : CacheLib) : lib.StoreDefined ↔ lib.Storable := by
  constructor
  · intro ⟨answers, stored⟩
    by_cases empty : lib.cacheVec = []
    · exact .inl empty
    · obtain ⟨outcome, done⟩ := stored { cache := lib } rfl {} {}
      obtain ⟨saved, written, _⟩ := Option.bind_eq_some_iff.mp done
      obtain ⟨flagged, store, found, _⟩ := (serialize_eq_some empty _ _ saved).mp written
      exact .inr ⟨flagged, (List.getElem?_eq_some_iff.mp found).1⟩
  · intro storable
    refine ⟨(modified_exact_iff lib).mpr (storable.imp_right And.left), ?_⟩
    intro manager same out disk
    unfold Manager.store
    split
    · split
      · obtain ⟨saved, written⟩ := serialize_of_storable storable out.libraries disk.libraries
        rw [same, written]
        exact ⟨_, rfl⟩
      · exact ⟨_, rfl⟩
    · exact ⟨_, rfl⟩

/-! ### Single calls -/

/-- The condition on a call: the first collection of a library comes in flagged, and what
a removal or a merge leaves has a flagged collection and the active index in range. -/
def KeepsStorable (lib : CacheLib) : LibCall → Prop
  | .change (.insert _ value) => lib.cacheVec ≠ [] ∨ (value.modified = true ∧ lib.current = 0)
  | .change (.remove name) => name.chars ∉ lib.names ∨ lib.cacheVec.length = 1 ∨
      (lib.current.toNat + 1 < lib.cacheVec.length ∧
        ∃ store ∈ lib.cacheVec.eraseIdx (find lib.cacheVec name.chars), store.2.modified = true)
  | .change (.mergeCache col1 col2) =>
    ¬ lib.Mergeable col1 col2 ∨ lib.current.toNat + 1 < lib.cacheVec.length
  | _ => True

/-- A call that takes no collection in or out, drops no flag and moves the active index
only to a collection. -/
theorem Storable.of_kept {lib next : CacheLib} (storable : lib.Storable)
    (size : next.cacheVec.length = lib.cacheVec.length) (flags : lib.Flagged → next.Flagged)
    (index : next.current = lib.current ∨ next.current.toNat < next.cacheVec.length) : next.Storable := by
  rcases storable with empty | ⟨flagged, inside⟩
  · rw [empty] at size
    exact .inl (List.eq_nil_of_length_eq_zero size)
  · refine .inr ⟨flags flagged, ?_⟩
    rcases index with same | inside'
    · rw [same, size]
      exact inside
    · exact inside'

/-- A change of an entry that drops no flag. -/
theorem flagged_modify {entries : List CacheStore} {change : CacheStore → CacheStore}
    (keeps : ∀ store, store.2.modified = true → (change store).2.modified = true) (i : Nat)
    (flagged : ∃ store ∈ entries, store.2.modified = true) :
    ∃ store ∈ entries.modify i change, store.2.modified = true := by
  obtain ⟨store, member, flag⟩ := flagged
  rcases mem_modify_or member i change with stays | ⟨_, changed⟩
  · exact ⟨store, stays, flag⟩
  · exact ⟨change store, changed, keeps store flag⟩

/-- A call that changes entries by functions that drop no flag. -/
theorem Storable.of_modify {lib : CacheLib} (storable : lib.Storable) {change : CacheStore → CacheStore}
    (keeps : ∀ store, store.2.modified = true → (change store).2.modified = true) (i : Nat) (active : Bytes) :
    ({ lib with cacheVec := lib.cacheVec.modify i change, activeName := active } : CacheLib).Storable :=
  storable.of_kept (List.length_modify ..) (flagged_modify keeps i) (.inl rfl)

theorem modified_insert {cache : Cache Bytes} (flag : cache.modified = true) (value : Bytes) (loc : UInt32) :
    (cache.insert value loc).modified = true := by
  unfold Cache.insert
  split
  · rfl
  · exact flag

theorem modified_insertElem {cache : Cache Bytes} (flag : cache.modified = true) (item : CacheItem Bytes) :
    (cache.insertElem item).modified = true := by
  unfold Cache.insertElem
  split
  · rfl
  · exact flag

theorem storable_insert_iff {lib : CacheLib} (storable : lib.Storable) (name : Bytes) (value : Cache Bytes) :
    (lib.insert name value).1.Storable ↔ lib.KeepsStorable (.change (.insert name value)) := by
  rw [insert_eq]
  by_cases member : name ∈ lib.names
  · rw [if_pos member]
    have some_ : lib.cacheVec ≠ [] := by
      intro empty
      rw [names, empty] at member
      cases member
    exact ⟨fun _ => .inl some_, fun _ => storable⟩
  · rw [if_neg member]
    by_cases empty : lib.cacheVec = []
    · simp only [Storable, Flagged, KeepsStorable, empty, List.nil_append, List.length_singleton]
      constructor
      · intro either
        rcases either with none_ | ⟨⟨store, listed, flag⟩, inside⟩
        · cases none_
        · cases List.mem_singleton.mp listed
          exact .inr ⟨flag, UInt32.toNat_inj.mp (Nat.lt_one_iff.mp inside)⟩
      · intro either
        rcases either with some_ | ⟨flag, first⟩
        · exact absurd rfl some_
        · exact .inr ⟨⟨(name, value), List.mem_singleton.mpr rfl, flag⟩, by rw [first]; exact Nat.one_pos⟩
    · rcases storable with none_ | ⟨⟨store, listed, flag⟩, inside⟩
      · exact absurd none_ empty
      · refine ⟨fun _ => .inl empty, fun _ => .inr ⟨⟨store, List.mem_append_left _ listed, flag⟩, ?_⟩⟩
        rw [List.length_append]
        exact Nat.lt_add_right _ inside

theorem storable_remove_iff {lib : CacheLib} (storable : lib.Storable) (name : StringView) :
    (lib.remove name).1.Storable ↔ lib.KeepsStorable (.change (.remove name)) := by
  rw [remove_eq]
  by_cases member : name.chars ∈ lib.names
  · have bound : find lib.cacheVec name.chars < lib.cacheVec.length := by
      rw [find_eq_idxOf, ← length_keys]
      exact List.idxOf_lt_length_of_mem member
    have size := List.length_eraseIdx_of_lt bound
    rw [if_pos member]
    constructor
    · intro either
      rcases either with empty | ⟨flagged, inside⟩
      · have one : lib.cacheVec.length - 1 = 0 := size.symm.trans (congrArg List.length empty)
        exact .inr (.inl (by omega))
      · change lib.current.toNat < (lib.cacheVec.eraseIdx _).length at inside
        exact .inr (.inr ⟨by omega, flagged⟩)
    · intro either
      rcases either with absent | one | ⟨inside, flagged⟩
      · exact absurd member absent
      · exact .inl (List.eq_nil_of_length_eq_zero (by rw [size, one]))
      · refine .inr ⟨flagged, ?_⟩
        change lib.current.toNat < (lib.cacheVec.eraseIdx _).length
        omega
  · rw [if_neg member]
    exact ⟨fun _ => .inl member, fun _ => storable⟩

theorem storable_mergeCache_iff {lib next : CacheLib} (storable : lib.Storable) {col1 col2 : StringView}
    (merged : lib.mergeCache col1 col2 = some (next, result)) :
    next.Storable ↔ lib.KeepsStorable (.change (.mergeCache col1 col2)) := by
  by_cases mergeable : lib.Mergeable col1 col2
  · obtain ⟨first, second, found1, found2, outcome⟩ := mergeCache_of_mergeable mergeable
    obtain ⟨rfl, _⟩ := Prod.mk.inj (Option.some.inj (outcome.symm.trans merged))
    have ⟨different, member1, member2⟩ := mergeable
    have still : col2.chars ∈ lib.names.erase col1.chars :=
      (List.mem_erase_of_ne (Ne.symm different)).mpr member2
    have size : (lib.without col1.chars col2.chars).length + 2 = lib.cacheVec.length := by
      have one := List.length_erase_add_one member1
      have two := List.length_erase_add_one still
      rw [← length_keys, keys_without]
      rw [names, length_keys] at one
      rw [names] at two
      unfold names
      omega
    constructor
    · intro either
      rcases either with empty | ⟨_, inside⟩
      · exact absurd (List.append_eq_nil_iff.mp empty).2 (List.cons_ne_nil _ _)
      · rw [List.length_append, List.length_singleton] at inside
        change lib.current.toNat < _ at inside
        exact .inr (by omega)
    · intro either
      rcases either with blocked | inside
      · exact absurd mergeable blocked
      · refine .inr ⟨⟨_, List.mem_append_right _ (List.mem_singleton.mpr rfl), rfl⟩, ?_⟩
        rw [List.length_append, List.length_singleton]
        change lib.current.toNat < _
        omega
  · obtain ⟨error, outcome⟩ := mergeCache_of_not_mergeable mergeable
    obtain ⟨rfl, _⟩ := Prod.mk.inj (Option.some.inj (outcome.symm.trans merged))
    exact ⟨fun _ => .inl mergeable, fun _ => storable⟩

theorem storable_changeActive {lib : CacheLib} (storable : lib.Storable) (newActive : StringView) :
    (lib.changeActive newActive).1.Storable := by
  unfold changeActive
  split
  · dsimp only
    split
    · rename_i store found
      exact storable.of_kept rfl (fun flagged => flagged) (.inr (List.getElem?_eq_some_iff.mp found).1)
    · exact storable
  · exact storable

theorem storable_updateAt {lib : CacheLib} (storable : lib.Storable) (name : Bytes)
    {change : Cache Bytes → Cache Bytes}
    (keeps : ∀ cache, cache.modified = true → (change cache).modified = true) :
    (lib.updateAt name change).Storable :=
  storable.of_modify (fun store => keeps store.2) (find lib.cacheVec name) lib.activeName

theorem storable_renameStore {lib : CacheLib} (storable : lib.Storable) (fromName toName : StringView) :
    (lib.renameStore fromName toName).1.Storable := by
  rw [renameStore_eq]
  split
  · exact storable
  · split
    · exact @Storable.of_modify lib storable (fun store => (toName.chars, store.2)) (fun _ flag => flag) _ _
    · exact storable

theorem storable_removeCacheItem {lib : CacheLib} (storable : lib.Storable) (cacheName itemName : StringView) :
    (lib.removeCacheItem cacheName itemName).1.Storable := by
  rcases lib.removeCacheItem_cases cacheName itemName with
    ⟨kept, _⟩ | ⟨cache, _, ⟨_, outcome⟩ | ⟨_, outcome⟩⟩
  · rw [kept]
    exact storable
  · rw [outcome]
    exact storable_updateAt storable _ (fun _ _ => rfl)
  · rw [outcome]
    exact storable_updateAt storable _ (fun _ _ => rfl)

theorem storable_moveCacheItem {lib next : CacheLib} {source dest itemName : StringView}
    {answer : Expected} (storable : lib.Storable)
    (moved : lib.moveCacheItem source dest itemName = some (next, answer)) : next.Storable := by
  rcases moveCacheItem_cases moved with
    ⟨rfl, _⟩ | ⟨different, other, listed, cache, item, found, contained, located⟩
  · exact storable
  · cases (moveCacheItem_updates different other found listed contained located).symm.trans moved
    have filled : (lib.updateAt dest.chars (·.insertElem item)).Storable :=
      storable_updateAt storable _ (fun _ flag => modified_insertElem flag item)
    exact storable_updateAt filled _ (fun _ _ => rfl)

/-- One call leaves a library that can be stored exactly under its condition. -/
theorem storable_call_iff {lib next : CacheLib} {action : LibCall} (storable : lib.Storable)
    (taken : lib.call action = some next) : next.Storable ↔ lib.KeepsStorable action := by
  cases action with
  | getCache name =>
    refine ⟨fun _ => trivial, fun _ => ?_⟩
    by_cases listed : name.chars ∈ lib.names
    · obtain ⟨cache, found⟩ := collection_of_mem listed
      simp only [call, getCacheMut_of_collection _ found] at taken
      cases taken
      exact storable_updateAt storable _ (fun _ _ => rfl)
    · simp only [call, getCacheMut_of_not_mem _ listed] at taken
      cases taken
      exact storable
  | getCurrent =>
    refine ⟨fun _ => trivial, fun _ => ?_⟩
    obtain ⟨outcome, looked, same⟩ := Option.map_eq_some_iff.mp taken
    obtain ⟨store, _, found⟩ := Option.map_eq_some_iff.mp looked
    cases found
    cases same
    exact storable.of_modify (fun _ _ => rfl) _ _
  | change op =>
    obtain ⟨result, performed⟩ := step_eq_some.mp taken
    cases op with
    | insert name value =>
      rw [← next_of_performed performed]
      exact storable_insert_iff storable name value
    | remove name =>
      rw [← next_of_performed performed]
      exact storable_remove_iff storable name
    | mergeCache col1 col2 => exact storable_mergeCache_iff storable performed
    | changeActive newActive =>
      rw [← next_of_performed performed]
      exact ⟨fun _ => trivial, fun _ => storable_changeActive storable newActive⟩
    | renameStore fromName toName =>
      rw [← next_of_performed performed]
      exact ⟨fun _ => trivial, fun _ => storable_renameStore storable fromName toName⟩
    | removeCacheItem cacheName itemName =>
      rw [← next_of_performed performed]
      exact ⟨fun _ => trivial, fun _ => storable_removeCacheItem storable cacheName itemName⟩
    | moveCacheItem source dest itemName =>
      exact ⟨fun _ => trivial, fun _ => storable_moveCacheItem storable performed⟩
    | insertItem name value loc =>
      rw [← next_of_performed performed, insertItem]
      refine ⟨fun _ => trivial, fun _ => ?_⟩
      split
      · exact storable_updateAt storable _ (fun _ flag => modified_insert flag value loc)
      · exact storable
    | setState pos idx state =>
      obtain ⟨store, _, _, rfl⟩ := setState_cases performed
      exact ⟨fun _ => trivial, fun _ => storable.of_modify (fun _ _ => rfl) _ _⟩

/-! ### Runs -/

/-- The active index of a library new or loaded is in range if there are collections. -/
theorem current_lt_start {lib : CacheLib} (fresh : lib = {} ∨ ∃ file, load file = .ok lib)
    (nonempty : lib.cacheVec ≠ []) : lib.current.toNat < lib.cacheVec.length := by
  have positive : 0 < lib.cacheVec.length := List.length_pos_iff.mpr nonempty
  rcases fresh with new | ⟨file, loaded⟩
  · rw [new] at nonempty
    exact absurd rfl nonempty
  · rcases load_cases loaded with ⟨_, new⟩ | ⟨_, _, _, _, _, index⟩
    · rw [new] at nonempty
      exact absurd rfl nonempty
    · rw [index]
      split
      · rename_i listed
        have inside := List.idxOf_lt_length_of_mem listed
        rw [names, length_keys] at inside
        rw [UInt32.toNat_ofNat']
        exact Nat.lt_of_le_of_lt (Nat.mod_le _ _) inside
      · exact positive

/-- A library new or loaded can be stored exactly if `modified` is safe on it. -/
theorem storable_start {lib : CacheLib} (fresh : lib = {} ∨ ∃ file, load file = .ok lib) :
    lib.Storable ↔ lib.cacheVec = [] ∨ lib.Flagged := by
  refine ⟨Or.imp_right And.left, fun either => ?_⟩
  rcases either with empty | flagged
  · exact .inl empty
  · refine .inr ⟨flagged, current_lt_start fresh (fun empty => ?_)⟩
    obtain ⟨store, member, _⟩ := flagged
    rw [empty] at member
    cases member

/-- In a run that starts from a library new or loaded, `modified` stays exact and the
library can be stored, exactly if a collection of the start is flagged unless it has none,
and every call meets its condition. -/
theorem store_defined_throughout_iff {start : CacheLib} {calls : List LibCall}
    (fresh : start = {} ∨ ∃ file, load file = .ok start) :
    Throughout call StoreDefined start calls ↔
      (start.cacheVec = [] ∨ start.Flagged) ∧ Meets call KeepsStorable start calls := by
  have same : Throughout call StoreDefined start calls ↔ Throughout call Storable start calls :=
    ⟨Throughout.imp (fun lib => lib.storeDefined_iff.mp), Throughout.imp (fun lib => lib.storeDefined_iff.mpr)⟩
  have steps (storable : start.Storable) :
      Throughout call Storable start calls ↔ Meets call KeepsStorable start calls :=
    throughout_iff_of_exact (fun _ _ _ good taken => storable_call_iff good taken) storable
  rw [same, ← storable_start fresh]
  constructor
  · intro all
    exact ⟨all.first, (steps all.first).mp all⟩
  · intro ⟨storable, meets⟩
    exact (steps storable).mpr meets

/-- A collection filled by `insert`, looked at and emptied again, leaves its flag. -/
theorem store_defined_throughout_run : Throughout call StoreDefined {}
    [.change (.insert (ascii "nature") (Cache.insert {} (ascii "lake") 1)), .getCache ⟨ascii "nature", []⟩,
      .getCurrent, .change (.removeCacheItem ⟨ascii "nature", []⟩ ⟨ascii "lake", []⟩),
      .change (.remove ⟨ascii "nature", []⟩)] := by
  refine (store_defined_throughout_iff (.inl rfl)).mpr ⟨.inl rfl, ?_⟩
  intro lib taken
  cases taken
  refine ⟨.inr ⟨rfl, rfl⟩, fun lib taken => ?_⟩
  cases taken
  refine ⟨trivial, fun lib taken => ?_⟩
  cases taken
  refine ⟨trivial, fun lib taken => ?_⟩
  cases taken
  refine ⟨trivial, fun lib taken => ?_⟩
  cases taken
  exact ⟨.inr (.inl rfl), trivial⟩

/-- A new manager makes an empty collection: nothing is flagged, and `store` reads the
end iterator. -/
theorem empty_collection_not_storable :
    (∃ lib, run call {} [.change (.insert (ascii "empty") {})] = some lib ∧
      lib.modified = none ∧ ¬ lib.StoreDefined) ∧
    ∃ manager, Manager.createCollection {} (ascii "empty") [] none false = some (manager, true) ∧
      ∀ out disk, manager.store out disk = none := by
  refine ⟨⟨_, rfl, rfl, fun defined => ?_⟩, _, rfl, fun _ _ => rfl⟩
  obtain ⟨_, same, _⟩ := defined.1
  cases same

end CacheLib

end Wallchanger
