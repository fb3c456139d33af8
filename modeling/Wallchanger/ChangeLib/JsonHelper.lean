import Wallchanger.ChangeLib.Json
import Wallchanger.ChangeLib.WallCacheLibrary

/-! `json_helper.hpp`: how items, collections and named collections are written and
read. Objects keep their keys in `std::map` order. -/

namespace Wallchanger

open Foundation

variable {Value : Type}

/-- The conversions of `NLOHMANN_JSON_SERIALIZE_ENUM` stand outside `namespace wallchanger`,
where the lookup by argument does not find them: a state is written and read as any other
enumeration, as the number under it, and nothing but a number is read. -/
instance : AdlSerializer CacheState where
  toJson state := .number state.code.toNat
  fromJson
    | .number value => .ok (.ofCode (UInt8.ofInt value))
    | _ => .error .typeError

instance [AdlSerializer Value] [Inhabited Value] : AdlSerializer (CacheItem Value) where
  toJson rhs := .object
    [("loc", toJson rhs.loc), ("state", toJson rhs.cacheState), ("value", toJson rhs.cacheValue)]
  fromJson serializeObj :=
    if !serializeObj.isNull then do
      let cacheValue ← fromJson (← serializeObj.atKey "value")
      let cacheState ← fromJson (← serializeObj.atKey "state")
      let loc ← fromJson (← serializeObj.atKey "loc")
      return { cacheValue, cacheState, loc }
    else return default

/-- An empty collection is written as null; reading an array flags the collection
and passes every element through `insert_elem`. -/
instance [AdlSerializer Value] [Inhabited Value] [DecidableEq Value] : AdlSerializer (Cache Value) where
  toJson rhs := if rhs.empty then .null else .array (rhs.list.map toJson)
  fromJson serializeObj :=
    if !serializeObj.isNull then
      serializeObj.elements.foldlM (fun rhs obj => return rhs.insertElem (← fromJson obj))
        (Cache.clear {})
    else return {}

instance [AdlSerializer Value] [Inhabited Value] [DecidableEq Value] :
    AdlSerializer (Bytes × Cache Value) where
  toJson rhs := .object
    [("Count", .number rhs.2.size), ("Name", toJson rhs.1), ("Store", toJson rhs.2)]
  fromJson serializeObj :=
    if !serializeObj.isNull then do
      let name ← fromJson (← serializeObj.atKey "Name")
      let store ← fromJson (← serializeObj.subscript "Store")
      return (name, store)
    else return ([], {})

@[simp] theorem state_fromJson_toJson (state : CacheState) : fromJson (toJson state) = .ok state := by
  have small : ((state.code.toNat : Int) % 2 ^ 8).toNat = state.code.toNat := by
    have bound := state.code.toNat_lt
    omega
  change Except.ok (CacheState.ofCode (UInt8.ofNat ((state.code.toNat : Int) % 2 ^ 8).toNat)) = _
  rw [small, UInt8.ofNat_toNat, CacheState.ofCode_code]

@[simp] theorem item_fromJson_toJson (item : CacheItem Bytes) : fromJson (toJson item) = .ok item := by
  change (do
    let cacheState ← (fromJson (toJson item.cacheState) : Except JsonError CacheState)
    let loc ← (fromJson (toJson item.loc) : Except JsonError UInt32)
    return ({ cacheValue := item.cacheValue, cacheState, loc } : CacheItem Bytes)) = _
  rw [state_fromJson_toJson, u32_fromJson_toJson]
  rfl

/-- A collection after it was written and read: only the first of equal items is
left, and the flag tells whether it was an array. -/
def Cache.reloaded (cache : Cache Bytes) : Cache Bytes :=
  { list := cache.list.foldl insertAbsent [], modified := !cache.list.isEmpty }

theorem Cache.insertElem_list (cache : Cache Bytes) (item : CacheItem Bytes) :
    (cache.insertElem item).list = insertAbsent cache.list item := by
  by_cases member : item ∈ cache.list <;> simp [insertElem, insertAbsent, member]

private theorem foldlM_insertElem (items : List (CacheItem Bytes)) (cache : Cache Bytes)
    (flagged : cache.modified = true) :
    (items.map toJson).foldlM (fun rhs obj => return rhs.insertElem (← fromJson obj)) cache =
      (.ok { list := items.foldl insertAbsent cache.list, modified := true } :
        Except JsonError (Cache Bytes)) := by
  induction items generalizing cache with
  | nil =>
    rw [← flagged]
    rfl
  | cons item rest ih =>
    have still : (cache.insertElem item).modified = true := by
      unfold Cache.insertElem
      split
      · rfl
      · exact flagged
    rw [List.map_cons, List.foldlM_cons, item_fromJson_toJson]
    change (rest.map toJson).foldlM _ (cache.insertElem item) = _
    rw [ih _ still, Cache.insertElem_list]
    rfl

@[simp] theorem cache_fromJson_toJson (cache : Cache Bytes) :
    fromJson (toJson cache) = .ok cache.reloaded := by
  cases items : cache.list with
  | nil =>
    have null : toJson cache = .null := by
      change (if cache.list.isEmpty then Json.null else _) = _
      rw [items]
      rfl
    rw [null, Cache.reloaded, items]
    rfl
  | cons item rest =>
    have array : toJson cache = .array (cache.list.map toJson) := by
      change (if cache.list.isEmpty then Json.null else _) = _
      rw [items]
      rfl
    rw [array]
    change (cache.list.map toJson).foldlM _ (Cache.clear {}) = _
    rw [foldlM_insertElem _ _ rfl, Cache.reloaded, items]
    rfl

@[simp] theorem store_fromJson_toJson (store : CacheStore) :
    fromJson (toJson store) = .ok (store.1, store.2.reloaded) := by
  change (do
    let cache ← (fromJson (toJson store.2) : Except JsonError (Cache Bytes))
    return (store.1, cache)) = _
  rw [cache_fromJson_toJson]
  rfl

theorem item_toJson_injective : Function.Injective (toJson : CacheItem Bytes → Json) := by
  intro item other same
  have decoded : (fromJson (toJson item) : Except JsonError (CacheItem Bytes)) = fromJson (toJson other) :=
    congrArg fromJson same
  rw [item_fromJson_toJson, item_fromJson_toJson] at decoded
  exact Except.ok.inj decoded

/-- The text of a collection tells its items and nothing else. -/
theorem cache_toJson_eq_iff (cache other : Cache Bytes) :
    (toJson cache : Json) = toJson other ↔ cache.list = other.list := by
  constructor
  · intro same
    change (if cache.list.isEmpty then Json.null else .array (cache.list.map toJson)) =
      (if other.list.isEmpty then Json.null else .array (other.list.map toJson)) at same
    cases items : cache.list with
    | nil =>
      cases others : other.list with
      | nil => rfl
      | cons =>
        rw [items, others] at same
        cases same
    | cons =>
      cases others : other.list with
      | nil =>
        rw [items, others] at same
        cases same
      | cons =>
        rw [items, others] at same
        exact List.map_injective_iff.mpr item_toJson_injective (Json.array.inj same)
  · intro same
    change (if cache.list.isEmpty then Json.null else _) = (if other.list.isEmpty then Json.null else _)
    rw [same]

theorem store_toJson_eq_iff (store other : CacheStore) :
    (toJson store : Json) = toJson other ↔ store.1 = other.1 ∧ store.2.list = other.2.list := by
  change Json.object [("Count", .number store.2.list.length), ("Name", .string store.1),
      ("Store", toJson store.2)] = .object [("Count", .number other.2.list.length),
      ("Name", .string other.1), ("Store", toJson other.2)] ↔ _
  rw [← cache_toJson_eq_iff]
  constructor
  · intro same
    simp only [Json.object.injEq, List.cons.injEq, Prod.mk.injEq, Json.string.injEq, true_and, and_true] at same
    exact same.2
  · rintro ⟨name, items⟩
    rw [name, items, (cache_toJson_eq_iff _ _).mp items]

/-- The items survive exactly when no two of them are equal. -/
theorem Cache.reloaded_list_eq_iff (cache : Cache Bytes) :
    cache.reloaded.list = cache.list ↔ cache.list.Nodup := foldl_insertAbsent_eq_iff

theorem Cache.mem_reloaded (cache : Cache Bytes) (item : CacheItem Bytes) :
    item ∈ cache.reloaded.list ↔ item ∈ cache.list := by
  simp [reloaded, mem_foldl_insertAbsent]

/-- All names and wallpaper names of a list of collections are valid UTF-8. -/
def storesUtf8 (stores : List CacheStore) : Prop :=
  ∀ store ∈ stores, validUtf8 store.1 = true ∧ ∀ item ∈ store.2.list, validUtf8 item.cacheValue = true

instance (stores : List CacheStore) : Decidable (storesUtf8 stores) :=
  inferInstanceAs (Decidable (∀ store ∈ stores, _ ∧ _))

theorem item_dumpable (item : CacheItem Bytes) :
    (toJson item).dumpable = validUtf8 item.cacheValue := by
  change List.all ([] ++ ([] ++ ([item.cacheValue] ++ []))) validUtf8 = _
  simp

theorem cache_dumpable (cache : Cache Bytes) :
    (toJson cache).dumpable = cache.list.all (fun item => validUtf8 item.cacheValue) := by
  cases items : cache.list with
  | nil =>
    change (if cache.list.isEmpty then Json.null else _).dumpable = _
    rw [items]
    rfl
  | cons item rest =>
    change (if cache.list.isEmpty then Json.null else Json.array (cache.list.map toJson)).dumpable = _
    rw [items, List.isEmpty_cons, if_neg Bool.false_ne_true, Json.dumpable]
    change (Json.stringsOfList ((item :: rest).map toJson)).all validUtf8 = _
    rw [Json.stringsOfList_map, List.all_flatMap]
    exact congrArg (List.all (item :: rest)) (funext fun item => item_dumpable item)

theorem store_dumpable (store : CacheStore) :
    (toJson store).dumpable = true ↔
      validUtf8 store.1 = true ∧ ∀ item ∈ store.2.list, validUtf8 item.cacheValue = true := by
  have parts : (toJson store).dumpable = (validUtf8 store.1 && (toJson store.2).dumpable) := by
    change List.all ([store.1] ++ ((toJson store.2).strings ++ [])) validUtf8 = _
    simp [Json.dumpable]
  rw [parts, cache_dumpable]
  simp

theorem stores_dumpable (stores : List CacheStore) :
    (vectorToJson stores).dumpable = true ↔ storesUtf8 stores := by
  rw [vector_dumpable, List.all_eq_true]
  simp only [store_dumpable, storesUtf8]

end Wallchanger
