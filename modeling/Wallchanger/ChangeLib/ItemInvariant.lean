import Wallchanger.ChangeLib.LibraryFile
import Wallchanger.ChangeLib.LibraryStep

/-! What holds of every collection's items, and what happens to the items over a run.
`insert` and `insert_elem` refuse what is there already; `merge_cache` refuses nothing. -/

namespace Wallchanger

open Foundation

/-- A property of single collections, with what an inserted wallpaper, a merge, a moved
item and a written state have to satisfy for the collection they make to have it too. -/
structure ItemRule where
  holds : Cache Bytes → Prop
  accepts : Cache Bytes → Bytes → UInt32 → Prop
  apart : Cache Bytes → Cache Bytes → Prop
  admits : Cache Bytes → CacheItem Bytes → Prop
  allows : Cache Bytes → Nat → CacheState → Prop
  start : holds {}
  begin : holds cache → holds cache.begin
  insert : holds cache → (holds (cache.insert value loc) ↔ accepts cache value loc)
  erase : holds cache → holds (cache.erase pos)
  merge : holds first → holds second →
    (holds { list := rangesMerge first.list second.list, modified := true } ↔ apart first second)
  insertElem : holds cache → (holds (cache.insertElem item) ↔ admits cache item)
  setState : holds cache → idx < cache.list.length →
    (holds (cache.setState idx state) ↔ allows cache idx state)

namespace CacheLib

theorem changeActive_cacheVec (lib : CacheLib) (newActive : StringView) :
    (lib.changeActive newActive).1.cacheVec = lib.cacheVec := by
  unfold changeActive
  split
  · dsimp only
    split <;> rfl
  · rfl

theorem forall_mem_without {lib : CacheLib} {holds : CacheStore → Prop}
    (all : ∀ store ∈ lib.cacheVec, holds store) (name1 name2 : Bytes) :
    ∀ store ∈ lib.without name1 name2, holds store :=
  fun store member => all store (List.mem_of_mem_eraseIdx (List.mem_of_mem_eraseIdx member))

/-- The item rule in every collection. -/
def Everywhere (rule : ItemRule) (lib : CacheLib) : Prop := ∀ store ∈ lib.cacheVec, rule.holds store.2

/-- The condition on a step: a new collection has the property, a merge joins two that
are apart, a moved item is admitted where it goes, a wallpaper or state is accepted. -/
def Keeps (rule : ItemRule) (lib : CacheLib) : LibOp → Prop
  | .insert name value => name ∉ lib.names → rule.holds value
  | .mergeCache col1 col2 => col1.chars ≠ col2.chars → ∀ first second,
      lib.Collection col1.chars first → lib.Collection col2.chars second → rule.apart first second
  | .moveCacheItem source dest itemName => source.chars ≠ dest.chars → dest.chars ≠ itemName.chars →
      ∀ src dst item, lib.Collection source.chars src → lib.Collection dest.chars dst →
        itemName.data ∈ src.values → src.list[src.findValue itemName.chars]? = some item →
        rule.admits dst item
  | .insertItem name value loc => ∀ cache, lib.Collection name cache → rule.accepts cache value loc
  | .setState pos idx state => ∀ store, lib.cacheVec[pos]? = some store →
      idx < store.2.list.length → rule.allows store.2 idx state
  | .changeActive _ | .renameStore _ _ | .remove _ | .removeCacheItem _ _ => True

variable {rule : ItemRule}

/-- A rule that accepts every wallpaper holds of what `cache::insert` fills. -/
theorem holds_of_built (rule : ItemRule) (accepts : ∀ cache value loc, rule.accepts cache value loc)
    {cache : Cache Bytes} (built : cache.Built) : rule.holds cache := by
  induction built with
  | empty => exact rule.start
  | insert _ value loc ih => exact (rule.insert ih).mpr (accepts _ value loc)

theorem everywhere_updateAt_iff {lib : CacheLib} {name : Bytes} {change : Cache Bytes → Cache Bytes}
    (every : lib.Everywhere rule) : (lib.updateAt name change).Everywhere rule ↔
      ∀ cache, lib.Collection name cache → rule.holds (change cache) := by
  constructor
  · intro after cache found
    exact (forall_mem_modify.mp after).1 (name, cache) found
  · intro keeps
    refine forall_mem_modify.mpr ⟨?_, ?_⟩
    · intro store found
      have named : (name, store.2) = store := Prod.ext (key_at_find found).symm rfl
      exact keeps store.2 (found.trans (congrArg some named.symm))
    · intro _ store _ found
      exact every store (List.mem_of_getElem? found)

theorem everywhere_renameStore {lib : CacheLib} (every : lib.Everywhere rule)
    (fromName toName : StringView) : (lib.renameStore fromName toName).1.Everywhere rule := by
  rw [renameStore_eq]
  split
  · exact every
  · split
    · refine forall_mem_modify.mpr ⟨?_, ?_⟩
      · intro store found
        exact every store (List.mem_of_getElem? found)
      · intro _ store _ found
        exact every store (List.mem_of_getElem? found)
    · exact every

theorem everywhere_remove {lib : CacheLib} (every : lib.Everywhere rule) (name : StringView) :
    (lib.remove name).1.Everywhere rule := by
  rw [remove_eq]
  split
  · exact fun store member => every store (List.mem_of_mem_eraseIdx member)
  · exact every

theorem everywhere_removeCacheItem {lib : CacheLib} (every : lib.Everywhere rule)
    (cacheName itemName : StringView) :
    (lib.removeCacheItem cacheName itemName).1.Everywhere rule := by
  rcases lib.removeCacheItem_cases cacheName itemName with
    ⟨kept, _⟩ | ⟨cache, _, ⟨_, outcome⟩ | ⟨_, outcome⟩⟩
  · rw [kept]
    exact every
  · rw [outcome]
    exact (everywhere_updateAt_iff every).mpr (fun _ found => rule.begin (every _ found.mem))
  · rw [outcome]
    exact (everywhere_updateAt_iff every).mpr (fun _ found => rule.erase (every _ found.mem))

/-- A merge keeps the rule exactly if the two collections are apart. -/
theorem everywhere_mergeCache_iff {lib next : CacheLib} {col1 col2 : StringView}
    (every : lib.Everywhere rule) (merged : lib.mergeCache col1 col2 = some (next, result)) :
    next.Everywhere rule ↔ lib.Keeps rule (.mergeCache col1 col2) := by
  by_cases mergeable : lib.Mergeable col1 col2
  · obtain ⟨first, second, found1, found2, outcome⟩ := mergeCache_of_mergeable mergeable
    obtain ⟨rfl, _⟩ := Prod.mk.inj (Option.some.inj (outcome.symm.trans merged))
    have joined := rule.merge (every _ (Collection.mem found1)) (every _ (Collection.mem found2))
    constructor
    · intro after _ cache1 cache2 here there
      rw [← Collection.unique found1 here, ← Collection.unique found2 there]
      exact joined.mp (after _ (List.mem_append_right _ (List.mem_singleton.mpr rfl)))
    · intro keeps store member
      rcases List.mem_append.mp member with rest | last
      · exact forall_mem_without every _ _ store rest
      · rw [List.mem_singleton.mp last]
        exact joined.mpr (keeps mergeable.1 first second found1 found2)
  · obtain ⟨error, outcome⟩ := mergeCache_of_not_mergeable mergeable
    obtain ⟨rfl, _⟩ := Prod.mk.inj (Option.some.inj (outcome.symm.trans merged))
    refine ⟨fun _ different first second here there => ?_, fun _ => every⟩
    exact absurd ⟨different, here.listed, there.listed⟩ mergeable

/-- A move keeps the rule exactly if the item is admitted where it goes. -/
theorem everywhere_moveCacheItem_iff {lib next : CacheLib} {source dest itemName : StringView}
    (every : lib.Everywhere rule)
    (moved : lib.moveCacheItem source dest itemName = some (next, result)) :
    next.Everywhere rule ↔ lib.Keeps rule (.moveCacheItem source dest itemName) := by
  rcases moveCacheItem_cases moved with
    ⟨rfl, error, failed⟩ | ⟨different, other, listed, src, item, found, contained, located⟩
  · refine ⟨fun _ different other src dst item here there contained located => ?_, fun _ => every⟩
    have outcome := moveCacheItem_of different other here there.listed contained located
    obtain ⟨_, succeeded⟩ := Prod.mk.inj (Option.some.inj (outcome.symm.trans moved))
    cases succeeded.trans failed
  · have outcome := moveCacheItem_updates different other found listed contained located
    obtain ⟨rfl, _⟩ := Prod.mk.inj (Option.some.inj (outcome.symm.trans moved))
    obtain ⟨dst, target⟩ := collection_of_mem listed
    have filled := @rule.insertElem _ item (every _ target.mem)
    have grown := collection_updateAt target (·.insertElem item)
    constructor
    · intro after _ _ cache1 cache2 item2 here there _ located2
      cases Collection.unique found here
      cases Collection.unique target there
      cases Option.some.inj (located.symm.trans located2)
      exact filled.mp (after _ (grown.updateAt_ne (Ne.symm different) _).mem)
    · intro keeps
      have admitted := keeps different other src dst item found target contained located
      have middle : (lib.updateAt dest.chars (·.insertElem item)).Everywhere rule :=
        (everywhere_updateAt_iff every).mpr (fun cache here => target.unique here ▸ filled.mpr admitted)
      exact (everywhere_updateAt_iff middle).mpr (fun cache here => rule.erase (middle _ here.mem))

theorem everywhere_setState_iff {lib next : CacheLib} {pos idx : Nat} {state : CacheState}
    (every : lib.Everywhere rule) (performed : lib.setState pos idx state = some (next, result)) :
    next.Everywhere rule ↔ lib.Keeps rule (.setState pos idx state) := by
  obtain ⟨store, found, inside, rfl⟩ := setState_cases performed
  have written := @rule.setState _ _ state (every store (List.mem_of_getElem? found)) inside
  constructor
  · intro after other spot _
    cases Option.some.inj (found.symm.trans spot)
    exact written.mp ((forall_mem_modify.mp after).1 store found)
  · intro keeps
    refine forall_mem_modify.mpr ⟨?_, ?_⟩
    · intro other spot
      cases Option.some.inj (found.symm.trans spot)
      exact written.mpr (keeps store found inside)
    · intro _ other _ spot
      exact every other (List.mem_of_getElem? spot)

theorem everywhere_insert_iff {lib : CacheLib} (every : lib.Everywhere rule) (name : Bytes)
    (value : Cache Bytes) : (lib.insert name value).1.Everywhere rule ↔ (name ∉ lib.names → rule.holds value) := by
  rw [insert_eq]
  by_cases listed : name ∈ lib.names
  · rw [if_pos listed]
    exact ⟨fun _ fresh => absurd listed fresh, fun _ => every⟩
  · rw [if_neg listed]
    constructor
    · intro after _
      exact after (name, value) (List.mem_append_right _ (List.mem_singleton.mpr rfl))
    · intro keeps store member
      rcases List.mem_append.mp member with old | new
      · exact every store old
      · rw [List.mem_singleton.mp new]
        exact keeps listed

theorem everywhere_insertItem_iff {lib : CacheLib} (every : lib.Everywhere rule) (name value : Bytes)
    (loc : UInt32) : (lib.insertItem name value loc).1.Everywhere rule ↔
      ∀ cache, lib.Collection name cache → rule.accepts cache value loc := by
  unfold insertItem
  by_cases listed : name ∈ lib.names
  · rw [if_pos ((lib.existsCache_iff name).mpr listed)]
    refine (everywhere_updateAt_iff every).trans ?_
    exact forall_congr' (fun _ => forall_congr' (fun found => rule.insert (every _ found.mem)))
  · have missing := (lib.existsCache_eq_false name).mpr listed
    rw [missing, if_neg Bool.false_ne_true]
    exact ⟨fun _ _ found => absurd found.listed listed, fun _ => every⟩

/-- One step keeps an item rule exactly under its condition. -/
theorem everywhere_step_iff {lib next : CacheLib} {op : LibOp}
    (every : lib.Everywhere rule) (taken : lib.step op = some next) :
    next.Everywhere rule ↔ lib.Keeps rule op := by
  obtain ⟨result, performed⟩ := step_eq_some.mp taken
  cases op with
  | insert name value =>
    have same : (lib.insert name value).1 = next := next_of_performed performed
    exact same ▸ everywhere_insert_iff every name value
  | changeActive newActive =>
    refine ⟨fun _ => trivial, fun _ => ?_⟩
    have same : (lib.changeActive newActive).1 = next := next_of_performed performed
    rw [← same, Everywhere, changeActive_cacheVec]
    exact every
  | renameStore fromName toName =>
    have same : (lib.renameStore fromName toName).1 = next := next_of_performed performed
    exact ⟨fun _ => trivial, fun _ => same ▸ everywhere_renameStore every fromName toName⟩
  | remove name =>
    have same : (lib.remove name).1 = next := next_of_performed performed
    exact ⟨fun _ => trivial, fun _ => same ▸ everywhere_remove every name⟩
  | removeCacheItem cacheName itemName =>
    have same : (lib.removeCacheItem cacheName itemName).1 = next := next_of_performed performed
    exact ⟨fun _ => trivial, fun _ => same ▸ everywhere_removeCacheItem every cacheName itemName⟩
  | mergeCache col1 col2 => exact everywhere_mergeCache_iff every performed
  | moveCacheItem source dest itemName => exact everywhere_moveCacheItem_iff every performed
  | insertItem name value loc =>
    have same : (lib.insertItem name value loc).1 = next := next_of_performed performed
    exact same ▸ everywhere_insertItem_iff every name value loc
  | setState pos idx state => exact everywhere_setState_iff every performed

/-- A run keeps an item rule in all its states exactly if every step keeps it. -/
theorem everywhere_throughout_iff (rule : ItemRule) {start : CacheLib} {ops : List LibOp}
    (every : start.Everywhere rule) :
    Throughout step (Everywhere rule) start ops ↔ Meets step (Keeps rule) start ops :=
  throughout_iff_of_exact (fun _ _ _ good taken => everywhere_step_iff good taken) every

end CacheLib

/-! ### No two equal items, and what a reload gives back -/

namespace ItemRule

private theorem nodup_rangesMerge {β : Type} (f : CacheItem Bytes → β) {first second : List (CacheItem Bytes)}
    (left : (first.map f).Nodup) (right : (second.map f).Nodup) :
    ((rangesMerge first second).map f).Nodup ↔ ∀ key ∈ first.map f, key ∉ second.map f := by
  have shuffled : ((rangesMerge first second).map f).Perm ((first ++ second).map f) :=
    (List.merge_perm_append _).map f
  rw [shuffled.nodup_iff, List.map_append, List.nodup_append]
  constructor
  · rintro ⟨_, _, apart⟩ key here there
    exact apart key here key there rfl
  · intro apart
    exact ⟨left, right, fun key here other there same => apart key here (same ▸ there)⟩

/-- No two items of a collection are equal. -/
def distinctItems : ItemRule where
  holds cache := cache.list.Nodup
  accepts _ _ _ := True
  apart first second := ∀ item ∈ first.list, item ∉ second.list
  admits _ _ := True
  allows cache idx state := ∀ item, cache.list[idx]? = some item → item.cacheState ≠ state →
    { item with cacheState := state } ∉ cache.list
  start := List.nodup_nil
  begin distinct := distinct
  insert {cache value loc} distinct := by
    refine ⟨fun _ => trivial, fun _ => ?_⟩
    by_cases present : value ∈ cache.values
    · rw [Cache.insert_present present]
      exact distinct
    · rw [Cache.insert_absent present]
      refine List.nodup_append.mpr ⟨distinct, List.nodup_singleton _, fun item member other single => ?_⟩
      rintro rfl
      exact present (List.mem_map.mpr ⟨item, member, by rw [List.mem_singleton.mp single]⟩)
  erase distinct := distinct.eraseIdx _
  merge {first second} left right := by
    have mapped := @nodup_rangesMerge _ id first.list second.list (by simpa using left)
      (by simpa using right)
    simpa using mapped
  insertElem {cache item} distinct := by
    rw [Cache.insertElem_list]
    exact ⟨fun _ => trivial, fun _ => nodup_insertAbsent distinct item⟩
  setState {cache idx state} distinct inside := by
    have found := List.getElem?_eq_getElem inside
    have written : (cache.setState idx state).list =
        cache.list.set idx { cache.list[idx] with cacheState := state } :=
      List.modify_eq_set_get _ inside
    rw [written, nodup_set_iff distinct found]
    constructor
    · intro fresh item same different
      cases Option.some.inj (found.symm.trans same)
      exact fresh (fun unchanged => different (congrArg CacheItem.cacheState unchanged))
    · intro allowed different
      refine allowed _ found (fun unchanged => different ?_)
      rw [← unchanged]

/-- No two items of a collection have the same value. -/
def uniqueValues : ItemRule where
  holds cache := cache.values.Nodup
  accepts _ _ _ := True
  apart first second := ∀ value ∈ first.values, value ∉ second.values
  admits cache item := item.cacheValue ∈ cache.values → item ∈ cache.list
  allows _ _ _ := True
  start := List.nodup_nil
  begin distinct := distinct
  insert {cache value loc} distinct := by
    refine ⟨fun _ => trivial, fun _ => ?_⟩
    by_cases present : value ∈ cache.values
    · rw [Cache.insert_present present]
      exact distinct
    · rw [Cache.insert_absent present]
      simpa [Cache.values] using List.Nodup.concat present distinct
  erase {cache pos} distinct := by
    have erased : (cache.erase pos).values = cache.values.eraseIdx pos := (List.eraseIdx_map ..).symm
    rw [erased]
    exact distinct.eraseIdx pos
  merge left right := nodup_rangesMerge CacheItem.cacheValue left right
  insertElem {cache item} distinct := by
    by_cases present : item ∈ cache.list
    · have kept : (cache.insertElem item).list = cache.list := by
        rw [Cache.insertElem_list, insertAbsent, if_pos present]
      rw [Cache.values, kept]
      exact ⟨fun _ _ => present, fun _ => distinct⟩
    · have grown : (cache.insertElem item).values = cache.values.concat item.cacheValue := by
        rw [Cache.values, Cache.insertElem_list, insertAbsent, if_neg present]
        simp [Cache.values]
      rw [grown]
      constructor
      · intro after member
        rw [List.concat_eq_append] at after
        exact absurd rfl ((List.nodup_append.mp after).2.2 _ member _ (by simp))
      · intro admitted
        exact distinct.concat (fun member => present (admitted member))
  setState {cache idx state} distinct _ := by
    have same : (cache.setState idx state).values = cache.values := by
      refine map_modify_same ?_ cache.list idx
      exact fun _ => rfl
    rw [same]
    exact ⟨fun _ => trivial, fun _ => distinct⟩

end ItemRule

/-- What `create_collection` makes of a directory with one wallpaper. -/
def lake : Cache Bytes := Cache.insert {} (ascii "lake.png") 7

namespace CacheLib

/-- Decoding the encoded collections gives them back, in order and with all items. -/
def RoundTrips (lib : CacheLib) : Prop :=
  ∃ decoded : List CacheStore, vectorFromJson (vectorToJson lib.cacheVec) = .ok decoded ∧
    decoded.map (fun store => (store.1, store.2.list)) = lib.collections

theorem roundTrips_iff (lib : CacheLib) :
    lib.RoundTrips ↔ lib.Everywhere ItemRule.distinctItems := by
  have decoded : vectorFromJson (vectorToJson lib.cacheVec) =
      .ok (reloaded lib.cacheVec []).cacheVec :=
    vector_fromJson_toJson (fun store _ => store_fromJson_toJson store)
  refine Iff.trans ?_ (lib.collections_reloaded_iff [])
  constructor
  · rintro ⟨stores, same, kept⟩
    cases Except.ok.inj (decoded.symm.trans same)
    exact kept
  · intro kept
    exact ⟨_, decoded, kept⟩

/-- The library round-trips in every state of a run exactly if each inserted collection
has distinct items, each merge joins collections without a common item and no written
state makes two items equal. Those filled by `cache::insert` have distinct items. -/
theorem round_trips_throughout_iff (ops : List LibOp) :
    (Throughout step RoundTrips {} ops ↔ Meets step (Keeps ItemRule.distinctItems) {} ops) ∧
      ∀ cache : Cache Bytes, cache.Built → ItemRule.distinctItems.holds cache := by
  have start : Everywhere ItemRule.distinctItems {} := fun _ member => by cases member
  refine ⟨Iff.trans ?_ (everywhere_throughout_iff _ start),
    fun _ built => holds_of_built _ (fun _ _ _ => trivial) built⟩
  exact ⟨Throughout.imp (fun lib => lib.roundTrips_iff.mp),
    Throughout.imp (fun lib => lib.roundTrips_iff.mpr)⟩

/-- Two collections of one directory, merged: the decoder drops the second copy. -/
theorem merge_repeats_item :
    ∃ lib, run step {} [.insert (ascii "nature") lake, .insert (ascii "city") lake,
        .mergeCache ⟨ascii "nature", []⟩ ⟨ascii "city", []⟩] = some lib ∧ ¬ lib.RoundTrips := by
  refine ⟨_, rfl, fun trips => ?_⟩
  have distinct : ((Cache.ofSize (lake.size + lake.size)).begin.overwrite
      (rangesMerge lake.list lake.list)).list.Nodup :=
    (roundTrips_iff _).mp trips _ (List.mem_singleton.mpr rfl)
  rw [overwrite_merged] at distinct
  have both : (lake.list ++ lake.list).Nodup := (List.merge_perm_append _).nodup_iff.mp distinct
  exact absurd both (by decide)

/-! ### Wallpaper names within a collection -/

/-- Every wallpaper name occurs at most once per collection; in particular, a
collection does not contain a name successfully removed from it. -/
def NamedOnce (lib : CacheLib) : Prop :=
  (∀ store ∈ lib.cacheVec, store.2.values.Nodup) ∧
    ∀ cacheName itemName next cache, lib.removeCacheItem cacheName itemName = (next, .ok true) →
      next.Collection cacheName.chars cache → cache.contains itemName.chars = false

/-- Distinct names make a removal complete. -/
theorem namedOnce_iff (lib : CacheLib) : lib.NamedOnce ↔ lib.Everywhere ItemRule.uniqueValues := by
  refine ⟨And.left, fun every => ⟨every, ?_⟩⟩
  intro cacheName itemName next cache removed after
  rcases lib.removeCacheItem_cases cacheName itemName with
    ⟨_, error, failed⟩ | ⟨before, found, ⟨_, outcome⟩ | ⟨_, outcome⟩⟩
  · rw [removed] at failed
    cases failed
  · cases outcome.symm.trans removed
  · obtain ⟨rfl, _⟩ := Prod.mk.inj (outcome.symm.trans removed)
    cases after.unique (collection_updateAt found _)
    rw [Cache.contains_eq_false, Cache.values_erase]
    have distinct : before.values.Nodup := every _ (Collection.mem found)
    exact distinct.not_mem_erase

/-- Names stay unique within the collections of a run exactly if each inserted collection
has distinct names, each merge joins collections without a common name, and each move
goes where the name does not occur or the very item is there already. Collections
filled by `cache::insert` have distinct names. -/
theorem named_once_throughout_iff (ops : List LibOp) :
    (Throughout step NamedOnce {} ops ↔ Meets step (Keeps ItemRule.uniqueValues) {} ops) ∧
      ∀ cache : Cache Bytes, cache.Built → ItemRule.uniqueValues.holds cache := by
  have start : Everywhere ItemRule.uniqueValues {} := fun _ member => by cases member
  refine ⟨Iff.trans ?_ (everywhere_throughout_iff _ start),
    fun _ built => holds_of_built _ (fun _ _ _ => trivial) built⟩
  exact ⟨Throughout.imp (fun lib => lib.namedOnce_iff.mp),
    Throughout.imp (fun lib => lib.namedOnce_iff.mpr)⟩

/-- Wallpapers of one name in two directories end up in one collection. -/
theorem merge_repeats_name :
    ∃ lib, run step {} [.insert (ascii "nature") lake,
        .insert (ascii "city") (Cache.insert {} (ascii "lake.png") 8),
        .mergeCache ⟨ascii "nature", []⟩ ⟨ascii "city", []⟩] = some lib ∧ ¬ lib.NamedOnce := by
  refine ⟨_, rfl, fun once => ?_⟩
  let other : Cache Bytes := Cache.insert {} (ascii "lake.png") 8
  have distinct : ((Cache.ofSize (lake.size + other.size)).begin.overwrite
      (rangesMerge lake.list other.list)).values.Nodup := once.1 _ (List.mem_singleton.mpr rfl)
  rw [overwrite_merged] at distinct
  have both : ((lake.list ++ other.list).map CacheItem.cacheValue).Nodup :=
    ((List.merge_perm_append _).map _).nodup_iff.mp distinct
  exact absurd both (by decide)

/-! ### No item is lost by reorganising -/

/-- Some collection has the item. -/
def Holds (lib : CacheLib) (item : CacheItem Bytes) : Prop :=
  ∃ store ∈ lib.cacheVec, item ∈ store.2.list

theorem holds_renameStore {lib : CacheLib} (held : lib.Holds item) (fromName toName : StringView) :
    (lib.renameStore fromName toName).1.Holds item := by
  obtain ⟨store, member, inside⟩ := held
  rw [renameStore_eq]
  split
  · exact ⟨store, member, inside⟩
  · split
    · rcases mem_modify_or member (find lib.cacheVec fromName.chars)
        (fun store => (toName.chars, store.2)) with kept | ⟨_, renamed⟩
      · exact ⟨store, kept, inside⟩
      · exact ⟨_, renamed, inside⟩
    · exact ⟨store, member, inside⟩

/-- The merging loop emits every item of both collections. -/
theorem holds_mergeCache {lib next : CacheLib} {col1 col2 : StringView} (held : lib.Holds item)
    (merged : lib.mergeCache col1 col2 = some (next, result)) : next.Holds item := by
  obtain ⟨store, member, inside⟩ := held
  by_cases mergeable : lib.Mergeable col1 col2
  · obtain ⟨first, second, found1, found2, outcome⟩ := mergeCache_of_mergeable mergeable
    obtain ⟨rfl, _⟩ := Prod.mk.inj (Option.some.inj (outcome.symm.trans merged))
    have joined (here : item ∈ first.list ∨ item ∈ second.list) :
        item ∈ rangesMerge first.list second.list := List.mem_merge.mpr here
    rcases mem_eraseIdx_or member (find lib.cacheVec col1.chars) with rest | here
    · rcases mem_eraseIdx_or rest (find (lib.cacheVec.eraseIdx (find lib.cacheVec col1.chars))
          col2.chars) with rest | there
      · exact ⟨store, List.mem_append_left _ rest, inside⟩
      · rw [entry_erase_find _ mergeable.1, found2] at there
        cases Option.some.inj there
        exact ⟨_, List.mem_append_right _ (List.mem_singleton.mpr rfl), joined (.inr inside)⟩
    · rw [found1] at here
      cases Option.some.inj here
      exact ⟨_, List.mem_append_right _ (List.mem_singleton.mpr rfl), joined (.inl inside)⟩
  · obtain ⟨error, outcome⟩ := mergeCache_of_not_mergeable mergeable
    obtain ⟨rfl, _⟩ := Prod.mk.inj (Option.some.inj (outcome.symm.trans merged))
    exact ⟨store, member, inside⟩

theorem holds_updateAt {lib : CacheLib} {name : Bytes} {change : Cache Bytes → Cache Bytes}
    (held : lib.Holds item)
    (keeps : ∀ cache, lib.Collection name cache → item ∈ cache.list → item ∈ (change cache).list) :
    (lib.updateAt name change).Holds item := by
  obtain ⟨store, member, inside⟩ := held
  rcases mem_modify_or member (find lib.cacheVec name) (Prod.map id change) with kept | ⟨spot, changed⟩
  · exact ⟨store, kept, inside⟩
  · have here : lib.Collection name store.2 :=
      spot.trans (congrArg some (Prod.ext (key_at_find spot) rfl))
    exact ⟨_, changed, keeps store.2 here inside⟩

/-- The item that is erased from the source is in the destination, moved or there
already; all others stay where they are. -/
theorem holds_moveCacheItem {lib next : CacheLib} {source dest itemName : StringView}
    (held : lib.Holds item) (moved : lib.moveCacheItem source dest itemName = some (next, result)) :
    next.Holds item := by
  rcases moveCacheItem_cases moved with
    ⟨rfl, _⟩ | ⟨different, other, listed, src, carried, found, contained, located⟩
  · exact held
  · have outcome := moveCacheItem_updates different other found listed contained located
    obtain ⟨rfl, _⟩ := Prod.mk.inj (Option.some.inj (outcome.symm.trans moved))
    obtain ⟨dst, target⟩ := collection_of_mem listed
    by_cases same : item = carried
    · have grown := (collection_updateAt target (·.insertElem carried)).updateAt_ne (Ne.symm different)
        (·.erase (src.findValue itemName.chars))
      refine ⟨_, grown.mem, ?_⟩
      rw [Cache.insertElem_list]
      exact mem_insertAbsent.mpr (.inr same)
    · refine holds_updateAt (holds_updateAt held ?_) ?_
      · intro cache _ inside
        rw [Cache.insertElem_list]
        exact mem_insertAbsent.mpr (.inl inside)
      · intro cache here inside
        cases (Collection.updateAt_ne found different _).unique here
        rcases mem_eraseIdx_or inside (src.findValue itemName.chars) with rest | gone
        · exact rest
        · exact absurd (Option.some.inj (gone.symm.trans located)) same

end CacheLib

/-- A call that only reorganises: it neither removes nor edits. -/
def LibOp.Reorganising : LibOp → Prop
  | .insert _ _ | .changeActive _ | .renameStore _ _ | .mergeCache _ _ | .moveCacheItem _ _ _ => True
  | _ => False

namespace CacheLib

theorem holds_step {lib next : CacheLib} {op : LibOp} (reorganising : op.Reorganising)
    (held : lib.Holds item) (taken : lib.step op = some next) : next.Holds item := by
  obtain ⟨result, performed⟩ := step_eq_some.mp taken
  cases op with
  | insert name value =>
    have same : (lib.insert name value).1 = next := next_of_performed performed
    rw [← same, insert_eq]
    split
    · exact held
    · obtain ⟨store, member, inside⟩ := held
      exact ⟨store, List.mem_append_left _ member, inside⟩
  | changeActive newActive =>
    have same : (lib.changeActive newActive).1 = next := next_of_performed performed
    rw [← same, Holds, changeActive_cacheVec]
    exact held
  | renameStore fromName toName =>
    have same : (lib.renameStore fromName toName).1 = next := next_of_performed performed
    exact same ▸ holds_renameStore held fromName toName
  | mergeCache col1 col2 => exact holds_mergeCache held performed
  | moveCacheItem source dest itemName => exact holds_moveCacheItem held performed
  | remove _ | removeCacheItem _ _ | insertItem _ _ _ | setState _ _ _ => exact reorganising.elim

theorem step_defined {lib : CacheLib} {op : LibOp} (reorganising : op.Reorganising)
    (terminated : op.Terminated) : ∃ next, lib.step op = some next := by
  cases op with
  | insert _ _ | changeActive _ | renameStore _ _ => exact ⟨_, rfl⟩
  | mergeCache col1 col2 =>
    obtain ⟨merged, outcome⟩ := lib.mergeCache_defined col1 col2
    exact ⟨merged.1, step_eq_some.mpr ⟨merged.2, outcome⟩⟩
  | moveCacheItem source dest itemName =>
    obtain ⟨next, result, outcome⟩ := moveCacheItem_defined lib source dest terminated.2.2
    exact ⟨next, step_eq_some.mpr ⟨result, outcome⟩⟩
  | remove _ | removeCacheItem _ _ | insertItem _ _ _ | setState _ _ _ => exact reorganising.elim

theorem holds_run {start final : CacheLib} {ops : List LibOp}
    (reorganising : ∀ op ∈ ops, op.Reorganising) (reached : run step start ops = some final)
    (held : start.Holds item) : final.Holds item := by
  have keeps : ∀ lib op next, Holds lib item → op.Reorganising → step lib op = some next →
      Holds next item := fun _ _ _ held reorganising taken => holds_step reorganising held taken
  have met : Meets step (fun _ op => op.Reorganising) start ops :=
    meets_of_forall (fun op member _ => reorganising op member) start
  have preserved := run_preserves keeps held met reached
  exact preserved

theorem run_reorganising_defined (start : CacheLib) {ops : List LibOp}
    (reorganising : ∀ op ∈ ops, op.Reorganising) (terminated : ∀ op ∈ ops, op.Terminated) :
    ∃ final, run step start ops = some final := by
  have progress : ∀ lib op, True → (op.Reorganising ∧ op.Terminated) →
      ∃ next, step lib op = some next ∧ True := by
    rintro lib op _ ⟨reorganises, views⟩
    obtain ⟨next, taken⟩ := step_defined reorganises views
    exact ⟨next, taken, trivial⟩
  obtain ⟨final, reached, _⟩ := run_defined progress trivial
    (fun op member => ⟨reorganising op member, terminated op member⟩)
  exact ⟨final, reached⟩

/-- Every run of reorganising calls has an outcome, which holds every item of the
start and of the collections that were inserted on the way. -/
theorem no_item_lost {start : CacheLib} {ops : List LibOp}
    (reorganising : ∀ op ∈ ops, op.Reorganising) (terminated : ∀ op ∈ ops, op.Terminated) :
    ∃ final, run step start ops = some final ∧ (∀ item, start.Holds item → final.Holds item) ∧
      ∀ before name value after middle, ops = before ++ .insert name value :: after →
        run step start before = some middle → (middle.insert name value).2 = .ok true →
        ∀ item ∈ value.list, final.Holds item := by
  obtain ⟨final, reached⟩ := run_reorganising_defined start reorganising terminated
  refine ⟨final, reached, fun item held => holds_run reorganising reached held, ?_⟩
  rintro before name value after middle rfl begun inserted item inside
  rw [run_append, begun] at reached
  obtain ⟨next, taken, rest⟩ := run_cons.mp (Option.bind_some .. ▸ reached)
  have same : (middle.insert name value).1 = next := Option.some.inj taken
  have held : next.Holds item := by
    rw [insert_eq] at same inserted
    split at inserted
    · cases inserted
    · rename_i fresh
      rw [if_neg fresh] at same
      subst same
      exact ⟨(name, value), List.mem_append_right _ (List.mem_singleton.mpr rfl), inside⟩
  exact holds_run (fun op member => reorganising op (by simp [member])) rest held

theorem no_item_lost_run :
    ∃ final, run step {} [.insert (ascii "nature") lake, .insert (ascii "city") lake,
        .moveCacheItem ⟨ascii "nature", []⟩ ⟨ascii "city", []⟩ ⟨ascii "lake.png", []⟩] = some final ∧
      ∀ item ∈ lake.list, final.Holds item := by
  let ops : List LibOp := [.insert (ascii "nature") lake, .insert (ascii "city") lake,
    .moveCacheItem ⟨ascii "nature", []⟩ ⟨ascii "city", []⟩ ⟨ascii "lake.png", []⟩]
  have reorganising : ∀ op ∈ ops, op.Reorganising := by
    simp [ops, LibOp.Reorganising]
  have terminated : ∀ op ∈ ops, op.Terminated := by decide
  obtain ⟨final, reached, _, inserted⟩ := @no_item_lost {} ops reorganising terminated
  exact ⟨final, reached, inserted [] _ _ _ _ rfl rfl rfl⟩

end CacheLib

end Wallchanger
