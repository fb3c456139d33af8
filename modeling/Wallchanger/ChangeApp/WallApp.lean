import Wallchanger.ChangeApp.WallManager
import Wallchanger.Foundation.Calls

/-! `wall_app.cpp`: one invocation of the command line program. The options come parsed from
a library of its own, as the tokens behind each of them. -/

namespace Wallchanger

open Foundation

/-- The tokens of a multitoken option, of which the parser asks for at least one. -/
structure Tokens where
  head : Bytes
  rest : List Bytes := []

/-- The options of `collection` that were given, each with its tokens. -/
structure CollectionOptions where
  create : Option Tokens := none
  activate : Option Bytes := none
  list : Option Bytes := none
  add : Option Tokens := none
  remove : Option Tokens := none
  rename : Option Tokens := none
  merge : Option Tokens := none
  move : Option Tokens := none
  validate : Option Bytes := none

/-- A call that an option makes on the manager. -/
inductive AppCall where
  | createCollection (name path : Bytes)
  | changeActive (name : Bytes)
  | listCollection
  | getCache (name : Bytes)
  | addToCollection (collectionName wall : Bytes)
  | removeWallpaper (collection wallpaperName : Bytes)
  | removeCollection (collection : Bytes)
  | renameCollection (fromName toName : Bytes)
  | mergeCollection (collection1 collection2 : Bytes)
  | moveWallpaper (originCollection destCollection wallName : Bytes)
  | validateCollection (collection : Bytes)

namespace CollectionOptions

def createRequest (res : Tokens) : AppCall :=
  match res.rest with
  | path :: _ => .createCollection res.head path
  | [] => .createCollection res.head []

def listRequest (res : Bytes) : AppCall :=
  if res = ascii "collections" then .listCollection else .getCache res

/-- Any other number of tokens than two makes no call. -/
def addRequest (res : Tokens) : Option AppCall :=
  match res.rest with
  | [wall] => some (.addToCollection res.head wall)
  | _ => none

def removeRequest (res : Tokens) : AppCall :=
  match res.rest with
  | wall :: _ => .removeWallpaper res.head wall
  | [] => .removeCollection res.head

def renameRequest (res : Tokens) : Option AppCall :=
  match res.rest with
  | [toName] => some (.renameCollection res.head toName)
  | _ => none

def mergeRequest (res : Tokens) : Option AppCall :=
  match res.rest with
  | [other] => some (.mergeCollection res.head other)
  | _ => none

/-- The wallpaper comes first on the command line. -/
def moveRequest (res : Tokens) : Option AppCall :=
  match res.rest with
  | [origin, dest] => some (.moveWallpaper origin dest res.head)
  | _ => none

/-- The calls of `m_collection_cmds` in its order, whatever the order of the options. -/
def requests (options : CollectionOptions) : List AppCall :=
  (options.create.map createRequest).toList ++ (options.activate.map .changeActive).toList ++
    (options.list.map listRequest).toList ++ (options.add.bind addRequest).toList ++
    (options.remove.map removeRequest).toList ++ (options.rename.bind renameRequest).toList ++
    (options.merge.bind mergeRequest).toList ++ (options.move.bind moveRequest).toList ++
    (options.validate.map .validateCollection).toList

end CollectionOptions

/-- What a call gives back: its success, or what is printed. -/
inductive Answer where
  | done (success : Bool)
  | collections (names : List Bytes)
  | table (items : List (CacheItem Bytes))
  | report (valid : Option (Nat × List Bytes))
deriving DecidableEq

/-- `m_collection_cmds` returns at the first call that fails; a listing never does. -/
def Answer.goesOn : Answer → Bool
  | .done success => success
  | .report valid => valid.isSome
  | .collections _ | .table _ => true

/-- What the file system answers while the program runs: what stands at a path, and where a
query throws instead, as for a name that is too long or a directory without permission. -/
structure World where
  node : Bytes → Option Node := fun _ => none
  existsThrows : Bytes → Bool := fun _ => false
  iterationThrows : Bytes → Bool := fun _ => false

/-- `std::filesystem::exists`, where it does not throw. -/
def World.existsAt (world : World) (path : Bytes) : Bool := (world.node path).isSome

/-- Whether a query of `create_collection` throws, which ends the program: the one for the
path, or the iteration over what stands there. -/
def World.creationThrows (world : World) (path : Bytes) : Bool :=
  !path.isEmpty && (world.existsThrows path || (world.existsAt path && world.iterationThrows path))

namespace Manager

def listCollection (manager : Manager) : List Bytes := manager.cache.cacheList

/-- `get_cache() const`: no items where there is no such collection. -/
def getCache (manager : Manager) (name : StringView) : List (CacheItem Bytes) :=
  match manager.cache.getCache name with
  | .ok items => items
  | .error _ => []

/-- The paths that `validate_collection` asks about. -/
def wallpaperPaths (manager : Manager) (collection : StringView) : List Bytes :=
  (manager.getCache collection).filterMap (fun ent =>
    (manager.pathBuf.get ent.loc).map (appendPath · ent.cacheValue))

/-- A call of the command line; `none` where the program ends in it. Both functions that
query the file system are `noexcept`. -/
def request (world : World) (manager : Manager) : AppCall → Option (Manager × Answer)
  | .createCollection name path =>
    if world.creationThrows path then none
    else (manager.createCollection name path (world.node path) false).map (Prod.map id .done)
  | .changeActive name => some (Prod.map id .done (manager.changeActive { chars := name }))
  | .listCollection => some (manager, .collections manager.listCollection)
  | .getCache name => some (manager, .table (manager.getCache { chars := name }))
  | .addToCollection collectionName wall =>
    some (Prod.map id .done (manager.addToCollection { chars := collectionName } wall))
  | .removeWallpaper collection wallpaperName =>
    some (Prod.map id .done (manager.removeWallpaper { chars := collection } { chars := wallpaperName }))
  | .removeCollection collection => some (Prod.map id .done (manager.removeCollection { chars := collection }))
  | .renameCollection fromName toName =>
    some (Prod.map id .done (manager.renameCollection { chars := fromName } { chars := toName }))
  | .mergeCollection collection1 collection2 =>
    (manager.mergeCollection { chars := collection1 } { chars := collection2 }).map (Prod.map id .done)
  | .moveWallpaper origin dest wallName =>
    (manager.moveWallpaper { chars := origin } { chars := dest } { chars := wallName }).map (Prod.map id .done)
  | .validateCollection collection =>
    if (manager.wallpaperPaths { chars := collection }).any world.existsThrows then none
    else (manager.validateCollection { chars := collection } world.existsAt).map (Prod.map id .report)

theorem request_createCollection_eq_some {world : World} {manager : Manager} {name path : Bytes}
    {outcome : Manager × Answer} :
    manager.request world (.createCollection name path) = some outcome ↔
      world.creationThrows path = false ∧ ∃ result,
        manager.createCollection name path (world.node path) false = some result ∧
          Prod.map id .done result = outcome := by
  rw [request]
  cases world.creationThrows path with
  | true => exact ⟨nofun, nofun⟩
  | false => simp only [Bool.false_eq_true, if_false, Option.map_eq_some_iff, true_and]

theorem request_validateCollection_eq_some {world : World} {manager : Manager} {collection : Bytes}
    {outcome : Manager × Answer} :
    manager.request world (.validateCollection collection) = some outcome ↔
      (∀ path ∈ manager.wallpaperPaths { chars := collection }, world.existsThrows path = false) ∧
        ∃ result, manager.validateCollection { chars := collection } world.existsAt = some result ∧
          Prod.map id .report result = outcome := by
  rw [request, ← Option.map_eq_some_iff]
  simp only [← Bool.not_eq_true]
  by_cases throws : (manager.wallpaperPaths { chars := collection }).any world.existsThrows = true
  · rw [if_pos throws]
    refine ⟨nofun, fun ⟨answered, _⟩ => ?_⟩
    obtain ⟨path, member, thrown⟩ := List.any_eq_true.mp throws
    exact absurd thrown (answered path member)
  · rw [if_neg throws]
    have answered : ∀ path ∈ manager.wallpaperPaths { chars := collection }, ¬ world.existsThrows path = true :=
      fun path member thrown => throws (List.any_eq_true.mpr ⟨path, member, thrown⟩)
    exact (and_iff_right answered).symm

end Manager

/-- The command of an invocation; those but `collection` reach no call of the manager. -/
inductive Command where
  | collection (options : CollectionOptions)
  | configuration
  | history
  | unsupported (name : Bytes)

structure Invocation where
  command : Option Command := none
  world : World := {}
  outputs : Outputs := {}

/-- The calls an invocation makes as long as none fails. -/
def Invocation.requests (invocation : Invocation) : List AppCall :=
  match invocation.command with
  | some (.collection options) => options.requests
  | _ => []

namespace Application

/-- The commands of an invocation, `none` where the program ends in one. -/
def commands (state : Manager) (invocation : Invocation) : Option (Manager × List Answer) :=
  answered Answer.goesOn (Manager.request invocation.world) state invocation.requests

/-- The constructor, which reads the files, and `run`, which stores at its end. `none` where an
exception or undefined behaviour ends the program before. -/
def run (disk : Disk) (invocation : Invocation) : Option (Disk × List Answer) :=
  match Manager.start disk with
  | .error _ => none
  | .ok state => do
    let (after, answers) ← commands state invocation
    match ← after.store invocation.outputs disk with
    | (stored, .completed) => some (stored, answers)
    | _ => none

end Application

/-- The streams of a `store` open and take all text. -/
def Outputs.Sound (outputs : Outputs) : Prop :=
  (outputs.history.opens = true ∧ outputs.pathTable.opens = true ∧ outputs.libraries.opens = true) ∧
    (outputs.history.accepts = true ∧ outputs.pathTable.accepts = true ∧ outputs.libraries.accepts = true)

/-- The strings of a call, which stand on the command line and hold no NUL. -/
def AppCall.NulFree : AppCall → Prop
  | .createCollection name path => 0 ∉ name ∧ 0 ∉ path
  | .changeActive name | .getCache name | .removeCollection name | .validateCollection name => 0 ∉ name
  | .listCollection => True
  | .addToCollection first second | .removeWallpaper first second | .renameCollection first second
  | .mergeCollection first second => 0 ∉ first ∧ 0 ∉ second
  | .moveWallpaper origin dest wallName => 0 ∉ origin ∧ 0 ∉ dest ∧ 0 ∉ wallName

instance decidableNulFree : (request : AppCall) → Decidable request.NulFree
  | .changeActive name | .getCache name | .removeCollection name | .validateCollection name =>
    inferInstanceAs (Decidable (0 ∉ name))
  | .listCollection => isTrue trivial
  | .createCollection first second | .addToCollection first second | .removeWallpaper first second
  | .renameCollection first second | .mergeCollection first second =>
    inferInstanceAs (Decidable (0 ∉ first ∧ 0 ∉ second))
  | .moveWallpaper origin dest wallName =>
    inferInstanceAs (Decidable (0 ∉ origin ∧ 0 ∉ dest ∧ 0 ∉ wallName))

end Wallchanger
