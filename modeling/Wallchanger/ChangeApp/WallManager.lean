import Wallchanger.ChangeLib.LibraryStep
import Wallchanger.ChangeLib.LibraryFile
import Wallchanger.ChangeLib.PathTable

/-! `wall_manager.cpp`: the library together with the table of directories, and the
three files a manager keeps them in. -/

namespace Wallchanger

open Foundation

/-! ### Paths and directories -/

/-- The directory separator. -/
def separator : UInt8 := 0x2F

/-- `path::filename`: what follows the last separator. -/
def filename (path : Bytes) : Bytes := (path.reverse.takeWhile (· ≠ separator)).reverse

/-- `path::parent_path`: a path without a relative part is its own parent; otherwise
the last component goes, with the separators before it, except for the root. -/
def parentPath (path : Bytes) : Bytes :=
  if path.all (· = separator) then path
  else
    let front := path.take (path.length - (filename path).length)
    let parent := (front.reverse.dropWhile (· = separator)).reverse
    if parent.isEmpty then front.take 1 else parent

/-- `path::append`: an absolute path replaces, another follows after a separator. -/
def appendPath (front back : Bytes) : Bytes :=
  if back.head? = some separator ∨ front = [] then back
  else if filename front ≠ [] then front ++ separator :: back
  else front ++ back

/-- What stands at a path of the file system. Entries come in the order in which an
iteration meets them. -/
inductive Node where
  | file
  | directory (entries : List (Bytes × Node))
  | link (target : Node)

namespace Node

/-- What is found when links are followed. -/
def resolve : Node → Node
  | .link target => target.resolve
  | node => node

def isDirectory (node : Node) : Bool :=
  match node.resolve with
  | .directory _ => true
  | _ => false

/-- The entries a `directory_iterator` visits, each with its `is_directory`. -/
def listing (entries : List (Bytes × Node)) : List (Bytes × Bool) :=
  entries.map (fun entry => (entry.1, entry.2.isDirectory))

mutual

/-- The entries a `recursive_directory_iterator` visits; it does not enter links. -/
def recursiveListing : List (Bytes × Node) → List (Bytes × Bool)
  | [] => []
  | (name, node) :: rest => (name, node.isDirectory) :: (node.descendants ++ recursiveListing rest)

def descendants : Node → List (Bytes × Bool)
  | .directory entries => recursiveListing entries
  | .file | .link _ => []

end

end Node

/-! ### The manager -/

/-- `m_previous` holds the records that `next_wall` sent. -/
structure Manager where
  cache : CacheLib := {}
  pathBuf : PathTable := {}
  previous : List Json := []

/-- The three files under the data directory. -/
structure Disk where
  history : File := none
  pathTable : File := none
  libraries : File := none

/-- The output streams of one `store`. -/
structure Outputs where
  history : Output := {}
  pathTable : Output := {}
  libraries : Output := {}

namespace Manager

/-- `Manager(logger_name)`. -/
def start (disk : Disk) : Except JsonError Manager := do
  let cache ← CacheLib.load disk.libraries
  let pathBuf ← PathTable.load disk.pathTable
  return { cache, pathBuf }

def historyDocument (manager : Manager) : Json := .object [("histoy", .array manager.previous)]

/-- The history goes to its file if there is any. -/
def saveHistory (manager : Manager) (out : Output) (file : File) : Saved :=
  if !manager.previous.isEmpty then out.emit manager.historyDocument file else ⟨file, .completed⟩

/-- `store`: the history, then the directories, then the library. An exception from one
leaves the following files alone; `none` as for `serialize`. -/
def store (manager : Manager) (out : Outputs) (disk : Disk) : Option (Disk × Ending) :=
  match manager.saveHistory out.history disk.history with
  | ⟨history, .completed⟩ =>
    match manager.pathBuf.store out.pathTable disk.pathTable with
    | ⟨pathTable, .completed⟩ => do
      let libs ← manager.cache.serialize out.libraries disk.libraries
      return ({ history, pathTable, libraries := libs.file }, libs.ending)
    | ⟨pathTable, ending⟩ => some ({ disk with history, pathTable }, ending)
  | ⟨history, ending⟩ => some ({ disk with history }, ending)

/-- The library after a call, and whether the call reported success. -/
def withCache (manager : Manager) (result : CacheLib × Expected) : Manager × Bool :=
  ({ manager with cache := result.1 }, match result.2 with | .ok _ => true | .error _ => false)

def changeActive (manager : Manager) (cmd : StringView) : Manager × Bool :=
  manager.withCache (manager.cache.changeActive cmd)

def renameCollection (manager : Manager) (fromName toName : StringView) : Manager × Bool :=
  manager.withCache (manager.cache.renameStore fromName toName)

/-- The collection of the files among some entries, all with one location. -/
def collect (listing : List (Bytes × Bool)) (crcLoc : UInt32) : Cache Bytes :=
  listing.foldl (fun cache entry => if !entry.2 then cache.insert entry.1 crcLoc else cache) {}

/-- `create_collection`, with what stands at the path. Iterating over something that
is no directory throws, and `noexcept` ends the program there (`none`). -/
def createCollection (manager : Manager) (name path : Bytes) (found : Option Node)
    (recursive : Bool) : Option (Manager × Bool) :=
  if path.isEmpty then some (manager.withCache (manager.cache.insert name {}))
  else
    match found.map Node.resolve with
    | none => some (manager.withCache (manager.cache.insert name {}))
    | some (.directory entries) =>
      let listing := if !recursive then Node.listing entries else Node.recursiveListing entries
      let cache := collect listing (crc32 path)
      some ({ manager with pathBuf := manager.pathBuf.insert path }.withCache
        (manager.cache.insert name cache))
    | some _ => none

/-- `add_to_collection`. -/
def addToCollection (manager : Manager) (collectionName : StringView) (wall : Bytes) : Manager × Bool :=
  let wallPath := parentPath wall
  let pathCrc := crc32 wallPath
  if manager.cache.existsCache collectionName.chars then
    ({ manager with
        cache := manager.cache.updateAt collectionName.chars (·.insert (filename wall) pathCrc)
        pathBuf := manager.pathBuf.insert wallPath }, true)
  else (manager, false)

def mergeCollection (manager : Manager) (collection1 collection2 : StringView) : Option (Manager × Bool) :=
  (manager.cache.mergeCache collection1 collection2).map manager.withCache

def removeCollection (manager : Manager) (collection : StringView) : Manager × Bool :=
  manager.withCache (manager.cache.remove collection)

def removeWallpaper (manager : Manager) (collection wallpaperName : StringView) : Manager × Bool :=
  manager.withCache (manager.cache.removeCacheItem collection wallpaperName)

def moveWallpaper (manager : Manager) (originCollection destCollection wallName : StringView) :
    Option (Manager × Bool) :=
  (manager.cache.moveCacheItem originCollection destCollection wallName).map manager.withCache

/-- `validate_collection`: the number of entries and the paths at which nothing exists,
or nothing for a missing collection; `none` where `value()` throws. -/
def validateCollection (manager : Manager) (collection : StringView) (existsAt : Bytes → Bool) :
    Option (Manager × Option (Nat × List Bytes)) :=
  if manager.cache.existsCache collection.chars then
    match manager.cache.getCacheMut collection with
    | .ok (cache, items) => do
      let paths ← items.mapM (fun ent => (manager.pathBuf.get ent.loc).map (appendPath · ent.cacheValue))
      return ({ manager with cache }, some (items.length, paths.filter (fun testLoc => !existsAt testLoc)))
    | .error _ => none
  else some (manager, none)

end Manager

end Wallchanger
