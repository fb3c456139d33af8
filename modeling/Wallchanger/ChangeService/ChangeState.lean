import Wallchanger.ChangeApp.NextWall
import Wallchanger.ChangeLib.JsonHelper

/-! `change_state.cpp`: the library behind the service. Its operations take their
arguments from a JSON command and are `noexcept`. The file still calls `.get()` on what
`get_cache` and `get_current` give: that is the collection, copied where `auto` is not a
reference. -/

namespace Wallchanger

open Foundation

/-- How a call fails to return: by an exception, at the end of the program (an exception
in a `noexcept` function), in undefined behaviour or in a loop. -/
inductive Fault where
  | thrown (error : JsonError)
  | terminated
  | undefined
  | searching
deriving DecidableEq

abbrev Outcome := Except Fault

@[simp] theorem ok_bind (value : α) (continuation : α → Outcome β) :
    (Except.ok value >>= continuation) = continuation value := rfl

theorem toOption_eq_some {outcome : Outcome α} {value : α} :
    outcome.toOption = some value ↔ outcome = .ok value := by
  cases outcome with
  | error fault => exact ⟨(nomatch ·), (nomatch ·)⟩
  | ok other => simp [Except.toOption]

/-- What a `noexcept` function does with the exceptions in it. -/
def noThrow (computation : Except JsonError α) : Outcome α :=
  match computation with
  | .ok value => .ok value
  | .error _ => .error .terminated

/-- An access without a check. -/
def unchecked (value : Option α) : Outcome α :=
  match value with
  | some value => .ok value
  | none => .error .undefined

instance : AdlSerializer Bool where
  toJson := .boolean
  fromJson
    | .boolean value => .ok value
    | _ => .error .typeError

/-- `server_cmd[key].get<T>()`, on a constant command. -/
def Json.field (α : Type) [AdlSerializer α] (serverCmd : Json) (key : String) : Outcome α :=
  noThrow (do fromJson (← serverCmd.subscript key))

/-- A string or view made of a string: a NUL stands behind it. -/
def StringView.ofString (text : Bytes) : StringView := ⟨text, []⟩

/-- What the operations meet outside: what can be read at a path, the random draws and the clock. -/
structure Environment where
  found : Bytes → Option Node := fun _ => none
  draws : List Int := []
  now : UInt64 := 0

/-- What `list_collection` gives. -/
inductive Listing where
  | monostate
  | cache (items : Cache Bytes)
  | names (list : List Bytes)

structure State where
  cache : CacheLib := {}
  pathBuf : PathTable := {}
  previous : List Json := []

namespace State

/-- The library after a call, and whether the call succeeded. -/
def withCache (state : State) (result : CacheLib × Expected) : State × Bool :=
  ({ state with cache := result.1 }, match result.2 with | .ok _ => true | .error _ => false)

/-- `get_next_wallpaper`: the loop marks an item of the copy. Without the active collection
the function ends without a value. -/
def getNextWallpaper (env : Environment) (state : State) : Outcome (State × Json) :=
  let active := state.cache.activeCacheName
  match state.cache.getCacheMut ⟨active, []⟩ with
  | .error _ => .error .undefined
  | .ok (cache, items) =>
    if (wallDistribution items.length).Valid then
      match redraw (pick items) env.draws with
      | some (.taken idx) => do
        let ret ← unchecked items[idx]?
        match state.pathBuf.get ret.loc with
        | some path =>
          let send := Manager.wallRecord active idx path ret.cacheValue
          return ({ state with cache, previous := state.previous ++ [send] }, send)
        | none => .error .terminated
      | some .outside => .error .terminated
      | none => .error .searching
    else .error .undefined

def getPreviousWallpaper (state : State) : State × Json :=
  match state.previous.getLast? with
  | some previous => ({ state with previous := state.previous.dropLast }, previous)
  | none => (state, .null)

/-- `mark_favorate`: the item it marks is one of a copy. -/
def markFavorate (state : State) : Outcome State := do
  let cur ← unchecked state.previous.getLast?
  let (cache, items) ← unchecked state.cache.getCurrentMut
  let wallpaper : Bytes ← noThrow (do fromJson (← cur.subscriptMut "wallpaper"))
  let _ ← unchecked (items.find? (fun item => item.cacheValue = wallpaper))
  return { state with cache }

def changeActive (serverCmd : Json) (state : State) : Outcome (State × Bool) := do
  let name ← serverCmd.field Bytes "new_active_name"
  return state.withCache (state.cache.changeActive (.ofString name))

def renameCollection (serverCmd : Json) (state : State) : Outcome (State × Bool) := do
  let fromName ← serverCmd.field Bytes "col_name"
  let toName ← serverCmd.field Bytes "col_name_new"
  return state.withCache (state.cache.renameStore (.ofString fromName) (.ofString toName))

/-- The listing of a directory iterator, which throws where there is no directory. -/
def iterate (env : Environment) (path : Bytes) (recursive : Bool) : Outcome (List (Bytes × Bool)) :=
  match (env.found path).map Node.resolve with
  | some (.directory entries) =>
    .ok (if !recursive then Node.listing entries else Node.recursiveListing entries)
  | _ => .error .terminated

def createCollection (env : Environment) (serverCmd : Json) (state : State) : Outcome (State × Bool) := do
  let colEmpty ← serverCmd.field Bool "col_empty"
  if !colEmpty then
    let colPath ← serverCmd.field Bytes "col_path"
    let recursive ← serverCmd.field Bool "recursive"
    let listing ← iterate env colPath recursive
    let name ← serverCmd.field Bytes "new_col_name"
    return { state with pathBuf := state.pathBuf.insert colPath }.withCache
      (state.cache.insert name (Manager.collect listing (crc32 colPath)))
  else
    let name ← serverCmd.field Bytes "new_col_name"
    return state.withCache (state.cache.insert name {})

def addToCollection (serverCmd : Json) (state : State) : Outcome (State × Bool) := do
  let colName ← serverCmd.field Bytes "col_name"
  let wall ← serverCmd.field Bytes "wall"
  let wallPath := parentPath wall
  match state.cache.getCacheMut (.ofString colName) with
  | .ok (cache, _) => return ({ state with
      cache := cache.updateAt colName (·.insert (filename wall) (crc32 wallPath))
      pathBuf := state.pathBuf.insert wallPath }, true)
  | .error _ => return (state, false)

def listCollection (serverCmd : Json) (state : State) : Outcome (State × Listing) := do
  let colOnly ← serverCmd.field Bool "col_only"
  if !colOnly then
    let (cache, items) ← unchecked state.cache.getCurrentMut
    return ({ state with cache }, .cache { list := items, modified := true })
  else return (state, .names state.cache.cacheList)

/-- `move_collectoion`. -/
def moveCollectoion (serverCmd : Json) (state : State) : Outcome (State × Bool) := do
  let colFrm ← serverCmd.field Bytes "col_cur"
  let colTo ← serverCmd.field Bytes "col_new"
  let wall ← serverCmd.field Bytes "wall"
  let moved ← unchecked (state.cache.moveCacheItem (.ofString colFrm) (.ofString colTo) (.ofString wall))
  return state.withCache moved

def mergeCollection (serverCmd : Json) (state : State) : Outcome (State × Bool) := do
  let col1 ← serverCmd.field Bytes "col1"
  let col2 ← serverCmd.field Bytes "col2"
  let merged ← unchecked (state.cache.mergeCache (.ofString col1) (.ofString col2))
  return state.withCache merged

/-- `remove_collection`: for a wallpaper it looks the collection up and logs. -/
def removeCollection (serverCmd : Json) (state : State) : Outcome (State × Bool) := do
  let wallOnly ← serverCmd.field Bool "wall_only"
  let col ← serverCmd.field Bytes "col"
  if wallOnly then
    match state.cache.getCacheMut (.ofString col) with
    | .ok (cache, _) =>
      let _ ← serverCmd.field Bytes "wall"
      return ({ state with cache }, true)
    | .error _ => return (state, false)
  else return state.withCache (state.cache.remove (.ofString col))

end State

end Wallchanger
