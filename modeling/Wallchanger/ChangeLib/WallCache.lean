import Mathlib.Data.List.InsertIdx
import Wallchanger.ChangeLib.Text

/-! `wall_cache.hpp`: a collection's items and the flag that marks it for saving. -/

namespace Wallchanger

universe u

/-- `cache_state_e`. Its underlying type is fixed, so a cast gives any `u8`, also one that
no enumerator lists. -/
inductive CacheState where
  | null
  | unused
  | used
  | favorate
  | unlisted (value : UInt8) (beyond : 3 < value)
deriving DecidableEq

namespace CacheState

/-- The underlying `u8`, which is what `<=>` compares. -/
def code : CacheState → UInt8
  | .null => 0
  | .unused => 1
  | .used => 2
  | .favorate => 3
  | .unlisted value _ => value

/-- The cast from the underlying type. -/
def ofCode (value : UInt8) : CacheState :=
  if beyond : 3 < value then .unlisted value beyond
  else if value = 3 then .favorate
  else if value = 2 then .used
  else if value = 1 then .unused
  else .null

@[simp] theorem ofCode_code (state : CacheState) : ofCode state.code = state := by
  cases state with
  | null | unused | used | favorate => rfl
  | unlisted value beyond => exact dif_pos beyond

theorem code_inj {left right : CacheState} (same : left.code = right.code) : left = right := by
  rw [← left.ofCode_code, same, ofCode_code]

end CacheState

structure CacheItem (Value : Type u) where
  cacheValue : Value
  cacheState : CacheState := .null
  loc : UInt32 := 0
deriving DecidableEq

instance {Value : Type u} [Inhabited Value] : Inhabited (CacheItem Value) := ⟨{ cacheValue := default }⟩

/-- The defaulted `operator<=>`: value, then state, then loc. -/
def CacheItem.less {Value : Type u} [DecidableEq Value] [LT Value] [DecidableLT Value]
    (left right : CacheItem Value) : Bool :=
  left.cacheValue < right.cacheValue ||
    (left.cacheValue = right.cacheValue &&
      (left.cacheState.code < right.cacheState.code ||
        (left.cacheState = right.cacheState && left.loc < right.loc)))

structure Cache (Value : Type u) where
  list : List (CacheItem Value) := []
  modified : Bool := false
deriving DecidableEq

namespace Cache
variable {Value : Type u}

/-- `cache(size_type)`: default items, not flagged. -/
def ofSize [Inhabited Value] (size : Nat) : Cache Value := { list := List.replicate size default }

def size (cache : Cache Value) : Nat := cache.list.length

def empty (cache : Cache Value) : Bool := cache.list.isEmpty

/-- Taking a mutable iterator or pointer (`begin`, `end`, `data`) sets the flag. -/
def begin (cache : Cache Value) : Cache Value := { cache with modified := true }

def data (cache : Cache Value) : Cache Value := cache.begin

def clear (_ : Cache Value) : Cache Value := { list := [], modified := true }

def erase (cache : Cache Value) (pos : Nat) : Cache Value :=
  { list := cache.list.eraseIdx pos, modified := true }

/-- Writing a sequence through an iterator at the front overwrites that many items. -/
def overwrite (cache : Cache Value) (items : List (CacheItem Value)) : Cache Value :=
  { cache with list := items ++ cache.list.drop items.length }

variable [DecidableEq Value]

/-- `std::ranges::find` by value: the position of the first match, the size at the end. -/
def findValue (cache : Cache Value) (value : Value) : Nat :=
  cache.list.findIdx (fun item => item.cacheValue == value)

def contains (cache : Cache Value) (value : Value) : Bool :=
  cache.findValue value ≠ cache.size

def insert (cache : Cache Value) (value : Value) (loc : UInt32) : Cache Value :=
  if !cache.contains value then
    { list := cache.list ++ [{ cacheValue := value, cacheState := .unused, loc }], modified := true }
  else cache

def insertElem (cache : Cache Value) (item : CacheItem Value) : Cache Value :=
  if item ∉ cache.list then { list := cache.list ++ [item], modified := true } else cache

/-- A collection filled by `insert` alone, starting from the empty one. -/
inductive Built : Cache Value → Prop where
  | empty : Built {}
  | insert (built : Built cache) (value : Value) (loc : UInt32) : Built (cache.insert value loc)

/-- The names of a collection's wallpapers, in order and with their multiplicity. -/
def values (cache : Cache Value) : List Value := cache.list.map CacheItem.cacheValue

theorem findValue_eq_idxOf (cache : Cache Value) (value : Value) :
    cache.findValue value = cache.values.idxOf value := by
  simp only [findValue, values, List.idxOf, List.findIdx_map]
  rfl

@[simp] theorem contains_iff (cache : Cache Value) (value : Value) :
    cache.contains value = true ↔ value ∈ cache.values := by
  have bound : cache.values.length = cache.size := List.length_map _
  rw [contains, findValue_eq_idxOf, decide_eq_true_iff, ← bound, Ne, List.idxOf_eq_length_iff, not_not]

theorem contains_eq_false (cache : Cache Value) (value : Value) :
    cache.contains value = false ↔ value ∉ cache.values := by
  rw [← contains_iff, Bool.not_eq_true]

theorem insert_present {cache : Cache Value} {value : Value} (present : value ∈ cache.values)
    (loc : UInt32) : cache.insert value loc = cache := by
  rw [insert, (cache.contains_iff value).mpr present]
  rfl

theorem insert_absent {cache : Cache Value} {value : Value} (absent : value ∉ cache.values)
    (loc : UInt32) : cache.insert value loc =
      { list := cache.list ++ [{ cacheValue := value, cacheState := .unused, loc }], modified := true } := by
  rw [insert, (cache.contains_eq_false value).mpr absent]
  rfl

/-- The item a successful lookup by value stops at carries that value. -/
theorem value_at_findValue {cache : Cache Value} {value : Value} {item : CacheItem Value}
    (found : cache.list[cache.findValue value]? = some item) : item.cacheValue = value := by
  obtain ⟨inside, same⟩ := List.getElem?_eq_some_iff.mp found
  have stops := List.findIdx_getElem (p := fun item : CacheItem Value => item.cacheValue == value)
    (w := inside)
  rw [← same]
  exact beq_iff_eq.mp stops

theorem item_at_findValue {cache : Cache Value} {value : Value} (member : value ∈ cache.values) :
    ∃ item, cache.list[cache.findValue value]? = some item ∧ item.cacheValue = value := by
  have inside := List.idxOf_lt_length_of_mem member
  rw [← findValue_eq_idxOf, values, List.length_map] at inside
  have found := List.getElem?_eq_getElem inside
  exact ⟨_, found, value_at_findValue found⟩

theorem values_erase (cache : Cache Value) (value : Value) :
    (cache.erase (cache.findValue value)).values = cache.values.erase value := by
  rw [← List.eraseIdx_idxOf_eq_erase, ← findValue_eq_idxOf]
  simp only [values, erase]
  exact (List.eraseIdx_map ..).symm

end Cache

end Wallchanger
