import Mathlib.Data.List.TakeWhile
import Wallchanger.ChangeApp.ItemPaths
import Wallchanger.ChangeApp.PathIntegrity

/-! `create_collection` on a directory: the paths that its iterators visit, and those that
the items it makes resolve to. Every item gets the directory itself for its location. -/

namespace Wallchanger

open Foundation

/-! ### Paths -/

/-- A directory with the separator that `append` puts behind it. -/
def base (directory : Bytes) : Bytes :=
  if filename directory ≠ [] then directory ++ [separator] else directory

/-- The name of a directory entry. -/
def EntryName (name : Bytes) : Prop := name ≠ [] ∧ separator ∉ name

theorem separator_not_mem_filename (path : Bytes) : separator ∉ filename path := by
  intro member
  have inside := List.mem_takeWhile_imp (List.mem_reverse.mp member)
  exact absurd rfl (of_decide_eq_true inside)

theorem appendPath_of_plain {directory name : Bytes} (nonempty : directory ≠ []) (plain : separator ∉ name) :
    appendPath directory name = base directory ++ name := by
  have relative : name.head? ≠ some separator := fun first => plain (List.mem_of_head? first)
  rw [appendPath, base, if_neg (not_or.mpr ⟨relative, nonempty⟩)]
  split
  · rw [List.append_assoc, List.singleton_append]
  · rfl

theorem appendPath_ne_nil {directory name : Bytes} (nonempty : directory ≠ []) (entry : EntryName name) :
    appendPath directory name ≠ [] := by
  rw [appendPath_of_plain nonempty entry.2]
  exact List.append_ne_nil_of_right_ne_nil _ entry.1

/-- Nothing of a name is left over in the directory it stands in. -/
theorem filename_base_append (directory : Bytes) {name : Bytes} (plain : separator ∉ name) :
    filename (base directory ++ name) = name := by
  have kept : ∀ byte ∈ name.reverse, decide (byte ≠ separator) = true :=
    fun byte member => decide_eq_true (fun same => plain (same ▸ List.mem_reverse.mp member))
  have stopped : (base directory).reverse.takeWhile (fun byte => decide (byte ≠ separator)) = [] := by
    unfold base
    split
    · simp
    · rename_i empty
      simpa [filename] using empty
  rw [filename, List.reverse_append, List.takeWhile_append_of_pos kept, stopped, List.append_nil,
    List.reverse_reverse]

theorem base_child (directory : Bytes) {name : Bytes} (entry : EntryName name) :
    base (base directory ++ name) = base directory ++ (name ++ [separator]) := by
  rw [base.eq_1 (base directory ++ name), filename_base_append directory entry.2, if_pos entry.1,
    List.append_assoc]

/-! ### What the iterators visit -/

namespace Node

/-- The paths a `directory_iterator` visits, each with its `is_directory`. -/
def paths (directory : Bytes) (entries : List (Bytes × Node)) : List (Bytes × Bool) :=
  entries.map (fun entry => (appendPath directory entry.1, entry.2.isDirectory))

mutual

/-- The paths a `recursive_directory_iterator` visits. -/
def recursivePaths (directory : Bytes) : List (Bytes × Node) → List (Bytes × Bool)
  | [] => []
  | (name, node) :: rest => (appendPath directory name, node.isDirectory) ::
      (node.pathsBelow (appendPath directory name) ++ recursivePaths directory rest)

def pathsBelow (directory : Bytes) : Node → List (Bytes × Bool)
  | .directory entries => recursivePaths directory entries
  | .file | .link _ => []

end

mutual

/-- Names as file systems have them, throughout a tree. -/
def Named : List (Bytes × Node) → Prop
  | [] => True
  | (name, node) :: rest => EntryName name ∧ node.NamedBelow ∧ Named rest

def NamedBelow : Node → Prop
  | .directory entries => Named entries
  | .file | .link _ => True

end

/-- The name of a visited path, as `create_collection` takes it from the path. -/
def nameOf (visited : Bytes × Bool) : Bytes × Bool := (filename visited.1, visited.2)

theorem listing_eq_paths {directory : Bytes} {entries : List (Bytes × Node)} (nonempty : directory ≠ [])
    (named : Named entries) : listing entries = (paths directory entries).map nameOf := by
  induction entries with
  | nil => rfl
  | cons head rest ih =>
    obtain ⟨entry, _, named⟩ := named
    rw [listing, paths, List.map_cons, List.map_cons, List.map_cons, nameOf,
      appendPath_of_plain nonempty entry.2, filename_base_append _ entry.2]
    exact congrArg _ (ih named)

mutual

theorem recursiveListing_eq_paths {directory : Bytes} (nonempty : directory ≠ []) :
    (entries : List (Bytes × Node)) → Named entries →
      recursiveListing entries = (recursivePaths directory entries).map nameOf
  | [], _ => rfl
  | (name, node) :: rest, ⟨entry, below, named⟩ => by
    have inner := appendPath_ne_nil nonempty entry
    rw [recursiveListing, recursivePaths, List.map_cons, List.map_append,
      ← descendants_eq_paths inner node below, ← recursiveListing_eq_paths nonempty rest named, nameOf,
      appendPath_of_plain nonempty entry.2, filename_base_append _ entry.2]

theorem descendants_eq_paths {directory : Bytes} (nonempty : directory ≠ []) :
    (node : Node) → node.NamedBelow → node.descendants = (node.pathsBelow directory).map nameOf
  | .directory entries, named => recursiveListing_eq_paths nonempty entries named
  | .file, _ => rfl
  | .link _, _ => rfl

end

theorem named_of_mem {entries : List (Bytes × Node)} {name : Bytes} {node : Node} (named : Named entries)
    (member : (name, node) ∈ entries) : EntryName name ∧ node.NamedBelow := by
  induction entries with
  | nil => cases member
  | cons head rest ih =>
    obtain ⟨entry, below, named⟩ := named
    rcases List.mem_cons.mp member with same | later
    · cases same
      exact ⟨entry, below⟩
    · exact ih named later

theorem mem_recursivePaths {directory : Bytes} {entries : List (Bytes × Node)} {visited : Bytes × Bool} :
    visited ∈ recursivePaths directory entries ↔ ∃ name node, (name, node) ∈ entries ∧
      (visited = (appendPath directory name, node.isDirectory) ∨
        visited ∈ node.pathsBelow (appendPath directory name)) := by
  induction entries with
  | nil => simp [recursivePaths]
  | cons head rest ih =>
    rw [recursivePaths, List.mem_cons, List.mem_append, ih]
    constructor
    · intro place
      rcases place with here | below | ⟨name, node, member, place⟩
      · exact ⟨head.1, head.2, List.mem_cons_self, .inl here⟩
      · exact ⟨head.1, head.2, List.mem_cons_self, .inr below⟩
      · exact ⟨name, node, List.mem_cons_of_mem _ member, place⟩
    · intro ⟨name, node, member, place⟩
      rcases List.mem_cons.mp member with same | later
      · cases same
        exact place.elim .inl (fun below => .inr (.inl below))
      · exact .inr (.inr ⟨name, node, later, place⟩)

mutual

/-- All that is visited stands below the directory. -/
theorem base_isPrefix {directory : Bytes} (nonempty : directory ≠ []) :
    (entries : List (Bytes × Node)) → Named entries →
      ∀ visited ∈ recursivePaths directory entries, base directory <+: visited.1
  | [], _, _, member => by cases member
  | (name, node) :: rest, ⟨entry, below, named⟩, visited, member => by
    rw [recursivePaths, appendPath_of_plain nonempty entry.2, List.mem_cons, List.mem_append] at member
    rcases member with rfl | inner | later
    · exact List.prefix_append _ _
    · have deeper := base_isPrefix_below (by simp [entry.1]) node below visited inner
      rw [base_child directory entry] at deeper
      exact (List.prefix_append _ _).trans deeper
    · exact base_isPrefix nonempty rest named visited later

theorem base_isPrefix_below {directory : Bytes} (nonempty : directory ≠ []) :
    (node : Node) → node.NamedBelow → ∀ visited ∈ node.pathsBelow directory, base directory <+: visited.1
  | .directory entries, named, visited, member => base_isPrefix nonempty entries named visited member
  | .file, _, _, member => by cases member
  | .link _, _, _, member => by cases member

end

/-- No file stands below a subdirectory. -/
def Shallow (entries : List (Bytes × Node)) : Prop :=
  ∀ name below, (name, Node.directory below) ∈ entries → ∀ entry ∈ recursiveListing below, entry.2 = true

/-- The path of a file is its name in the directory itself exactly if the file stands there. -/
theorem direct_iff_shallow {directory : Bytes} {entries : List (Bytes × Node)} (nonempty : directory ≠ [])
    (named : Named entries) :
    (∀ path, (path, false) ∈ recursivePaths directory entries → path = appendPath directory (filename path)) ↔
      Shallow entries := by
  constructor
  · intro direct name below member listed inside
    obtain ⟨entry, named⟩ := named_of_mem named member
    have inner := appendPath_ne_nil nonempty entry
    rw [recursiveListing_eq_paths inner below named] at inside
    obtain ⟨⟨path, kind⟩, visited, rfl⟩ := List.mem_map.mp inside
    cases kind with
    | true => rfl
    | false =>
      have deep := direct path (mem_recursivePaths.mpr ⟨name, _, member, .inr visited⟩)
      obtain ⟨rest, split⟩ := base_isPrefix inner below named _ visited
      rw [appendPath_of_plain nonempty entry.2, base_child directory entry, List.append_assoc] at split
      rw [appendPath_of_plain nonempty (separator_not_mem_filename path)] at deep
      have tail : name ++ [separator] ++ rest = filename path := List.append_cancel_left (split.trans deep)
      exact absurd (tail ▸ by simp) (separator_not_mem_filename path)
  · intro shallow path member
    obtain ⟨name, node, listed, place⟩ := mem_recursivePaths.mp member
    obtain ⟨entry, below⟩ := named_of_mem named listed
    rcases place with here | deeper
    · have same : path = appendPath directory name := congrArg Prod.fst here
      rw [same, appendPath_of_plain nonempty entry.2, filename_base_append directory entry.2,
        appendPath_of_plain nonempty entry.2]
    · cases node with
      | file => cases deeper
      | link target => cases deeper
      | directory inside =>
        have inner := appendPath_ne_nil nonempty entry
        have nested : nameOf (path, false) ∈ recursiveListing inside := by
          rw [recursiveListing_eq_paths inner inside below]
          exact List.mem_map.mpr ⟨_, deeper, rfl⟩
        cases shallow name inside listed _ nested

end Node

/-! ### What the items resolve to -/

theorem Cache.mem_values_insert {cache : Cache Bytes} {value name : Bytes} {loc : UInt32} :
    name ∈ (cache.insert value loc).values ↔ name ∈ cache.values ∨ name = value := by
  by_cases present : value ∈ cache.values
  · rw [Cache.insert_present present]
    exact ⟨.inl, fun either => either.elim (fun old => old) (fun same => same ▸ present)⟩
  · rw [Cache.insert_absent present]
    simp [Cache.values]

/-- A collection that is appended under a new name is found by it. -/
theorem CacheLib.collection_of_appended {lib : CacheLib} {name : Bytes} (fresh : name ∉ lib.names)
    (cache : Cache Bytes) : Collection { lib with cacheVec := lib.cacheVec ++ [(name, cache)] } name cache := by
  have place : find (lib.cacheVec ++ [(name, cache)]) name = lib.cacheVec.length := by
    have absent : name ∉ keys lib.cacheVec := fresh
    rw [find_eq_idxOf, keys_append, List.idxOf_append_of_notMem absent, length_keys]
    simp [keys]
  unfold Collection
  rw [place, List.getElem?_concat_length]

namespace Manager

/-- The names of the items are those of the files that were visited. -/
theorem mem_values_collect {listing : List (Bytes × Bool)} {loc : UInt32} {name : Bytes} :
    name ∈ (collect listing loc).values ↔ (name, false) ∈ listing := by
  have general (cache : Cache Bytes) : name ∈ (listing.foldl (fun cache entry =>
      if !entry.2 then cache.insert entry.1 loc else cache) cache).values ↔
        name ∈ cache.values ∨ (name, false) ∈ listing := by
    induction listing generalizing cache with
    | nil => simp
    | cons head rest ih =>
      obtain ⟨first, kind⟩ := head
      rw [List.foldl_cons, ih, List.mem_cons]
      cases kind with
      | true => simp
      | false => simp [Cache.mem_values_insert, or_assoc]
  rw [collect, general]
  simp [Cache.values]

/-- An item stands for the path of its name in its directory. -/
def ResolvesTo (manager : Manager) (item : CacheItem Bytes) (path : Bytes) : Prop :=
  ∃ directory name, manager.Resolves item directory name ∧ appendPath directory name = path

/-- The items of a collection stand for the files that were visited. -/
structure Captures (manager : Manager) (name : Bytes) (visited : List (Bytes × Bool)) (cache : Cache Bytes) :
    Prop where
  found : manager.cache.Collection name cache
  represented : ∀ path, (path, false) ∈ visited → ∃ item ∈ cache.list, manager.ResolvesTo item path
  resolving : ∀ item ∈ cache.list, ∃ path, (path, false) ∈ visited ∧ manager.ResolvesTo item path

/-- What the two iterations visit below a directory. -/
def visited (recursive : Bool) (directory : Bytes) (entries : List (Bytes × Node)) : List (Bytes × Bool) :=
  if !recursive then Node.paths directory entries else Node.recursivePaths directory entries

/-- The collection of a directory, and the table that knows the directory. -/
theorem createCollection_of_directory {manager next : Manager} {name path : Bytes} {node : Node}
    {entries : List (Bytes × Node)} {recursive : Bool} (nonempty : path ≠ [])
    (directory : node.resolve = .directory entries) (named : Node.Named entries)
    (created : manager.createCollection name path (some node) recursive = some (next, true)) :
    next.pathBuf = manager.pathBuf.insert path ∧ next.cache.Collection name
      (collect ((visited recursive path entries).map Node.nameOf) (crc32 path)) := by
  have listed : (if !recursive then Node.listing entries else Node.recursiveListing entries) =
      (visited recursive path entries).map Node.nameOf := by
    cases recursive with
    | false => exact Node.listing_eq_paths nonempty named
    | true => exact Node.recursiveListing_eq_paths nonempty entries named
  unfold createCollection at created
  rw [if_neg (by simpa using nonempty)] at created
  simp only [Option.map_some, directory, listed, CacheLib.insert_eq] at created
  split at created
  · cases created
  · rename_i fresh
    cases created
    exact ⟨rfl, CacheLib.collection_of_appended fresh _⟩

/-- The items stand for the files exactly if each file is in the directory itself. -/
theorem captures_iff_direct {manager : Manager} {name path : Bytes} {seen : List (Bytes × Bool)}
    (nonempty : path ≠ []) (known : manager.pathBuf.get (crc32 path) = some path)
    (found : manager.cache.Collection name (collect (seen.map Node.nameOf) (crc32 path))) :
    (∃ cache, manager.Captures name seen cache) ↔
      ∀ file, (file, false) ∈ seen → file = appendPath path (filename file) := by
  have values (value : Bytes) : value ∈ (collect (seen.map Node.nameOf) (crc32 path)).values ↔
      ∃ file, (file, false) ∈ seen ∧ filename file = value := by
    rw [mem_values_collect]
    simp [Node.nameOf]
  have stands (item : CacheItem Bytes) (member : item ∈ (collect (seen.map Node.nameOf) (crc32 path)).list)
      (file : Bytes) : manager.ResolvesTo item file ↔ appendPath path item.cacheValue = file := by
    have place := Installation.loc_of_collect item member
    constructor
    · intro ⟨directory, value, ⟨answer, named⟩, same⟩
      rw [place, known] at answer
      cases answer
      exact named ▸ same
    · intro same
      exact ⟨path, item.cacheValue, ⟨place ▸ known, rfl⟩, same⟩
  constructor
  · intro ⟨cache, captures⟩ file seen_
    cases captures.found.unique found
    obtain ⟨item, member, resolves⟩ := captures.represented file seen_
    have same := (stands item member file).mp resolves
    obtain ⟨other, _, named⟩ := (values item.cacheValue).mp (List.mem_map.mpr ⟨item, member, rfl⟩)
    have plain : separator ∉ item.cacheValue := named ▸ separator_not_mem_filename other
    rw [← same, appendPath_of_plain nonempty plain, filename_base_append path plain,
      appendPath_of_plain nonempty plain]
  · intro direct
    refine ⟨_, found, fun file seen_ => ?_, fun item member => ?_⟩
    · obtain ⟨item, member, named⟩ := List.mem_map.mp ((values (filename file)).mpr ⟨file, seen_, rfl⟩)
      exact ⟨item, member, (stands item member file).mpr (named ▸ (direct file seen_).symm)⟩
    · obtain ⟨file, seen_, named⟩ := (values item.cacheValue).mp (List.mem_map.mpr ⟨item, member, rfl⟩)
      exact ⟨file, seen_, (stands item member file).mpr (named ▸ (direct file seen_).symm)⟩

/-- A collection made of a directory stands for its files, and one made of its whole tree
exactly if no file is in a subdirectory. -/
theorem create_collection_captures_iff {manager next : Manager} {name path : Bytes} {node : Node}
    {entries : List (Bytes × Node)} {recursive : Bool} (nonempty : path ≠ [])
    (directory : node.resolve = .directory entries) (named : Node.Named entries)
    (uncollided : manager.Uncollided path)
    (created : manager.createCollection name path (some node) recursive = some (next, true)) :
    (∃ cache, next.Captures name (visited recursive path entries) cache) ↔
      (recursive = true → Node.Shallow entries) := by
  obtain ⟨table, found⟩ := createCollection_of_directory nonempty directory named created
  have known : next.pathBuf.get (crc32 path) = some path :=
    table ▸ (get_insert_iff uncollided _).mpr (.inl rfl)
  rw [captures_iff_direct nonempty known found]
  cases recursive with
  | true =>
    exact (Node.direct_iff_shallow nonempty named).trans ⟨fun shallow _ => shallow, fun shallow => shallow rfl⟩
  | false =>
    refine ⟨fun _ impossible => absurd impossible Bool.false_ne_true, fun _ file seen => ?_⟩
    obtain ⟨entry, member, same⟩ := List.mem_map.mp seen
    have plain := (Node.named_of_mem named member).1.2
    have path_ : appendPath path entry.1 = file := congrArg Prod.fst same
    rw [← path_, appendPath_of_plain nonempty plain, filename_base_append path plain,
      appendPath_of_plain nonempty plain]

theorem create_collection_captures_iff_empty_subdirectory :
    ∃ next cache, Manager.createCollection {} (ascii "nature") (ascii "/wall")
        (some (.directory [(ascii "lake.png", .file), (ascii "old", .directory [])])) true =
          some (next, true) ∧
      next.Captures (ascii "nature") (visited true (ascii "/wall")
        [(ascii "lake.png", .file), (ascii "old", .directory [])]) cache := by
  let entries : List (Bytes × Node) := [(ascii "lake.png", .file), (ascii "old", .directory [])]
  have made : ∃ next, Manager.createCollection {} (ascii "nature") (ascii "/wall")
      (some (.directory entries)) true = some (next, true) := ⟨_, rfl⟩
  obtain ⟨next, made⟩ := made
  have named : Node.Named entries :=
    ⟨⟨by decide, by decide⟩, trivial, ⟨by decide, by decide⟩, trivial, trivial⟩
  have uncollided : Manager.Uncollided {} (ascii "/wall") := fun _ known => nomatch known
  have shallow : Node.Shallow entries := by
    intro name below member entry listed
    rcases List.mem_cons.mp member with same | member
    · cases same
    · cases List.mem_singleton.mp member
      cases listed
  obtain ⟨cache, captures⟩ := (create_collection_captures_iff (by decide) rfl named uncollided made).mpr
    (fun _ => shallow)
  exact ⟨next, cache, made, captures⟩

/-- The file of a subdirectory is taken for one of the directory itself. -/
theorem subdirectory_not_captured :
    ∃ next, Manager.createCollection {} (ascii "nature") (ascii "/wall")
        (some (.directory [(ascii "old", .directory [(ascii "lake.png", .file)])])) true =
          some (next, true) ∧
      ¬ ∃ cache, next.Captures (ascii "nature") (visited true (ascii "/wall")
        [(ascii "old", .directory [(ascii "lake.png", .file)])]) cache := by
  let entries : List (Bytes × Node) := [(ascii "old", .directory [(ascii "lake.png", .file)])]
  have made : ∃ next, Manager.createCollection {} (ascii "nature") (ascii "/wall")
      (some (.directory entries)) true = some (next, true) := ⟨_, rfl⟩
  obtain ⟨next, made⟩ := made
  have named : Node.Named entries :=
    ⟨⟨by decide, by decide⟩, ⟨⟨by decide, by decide⟩, trivial, trivial⟩, trivial⟩
  have uncollided : Manager.Uncollided {} (ascii "/wall") := fun _ known => nomatch known
  obtain ⟨table, found⟩ := createCollection_of_directory (by decide) rfl named made
  have known : next.pathBuf.get (crc32 (ascii "/wall")) = some (ascii "/wall") :=
    table ▸ (get_insert_iff uncollided _).mpr (.inl rfl)
  refine ⟨next, made, fun captured => ?_⟩
  have direct := (captures_iff_direct (by decide) known found).mp captured
  have same := direct (ascii "/wall/old/lake.png") (by decide)
  exact absurd same (by decide)

/-! ### What a failed call leaves -/

/-- The library and the directories are as before, and so is what a `store` writes. -/
structure Untouched (manager next : Manager) : Prop where
  cache : next.cache = manager.cache
  pathBuf : next.pathBuf = manager.pathBuf
  store : ∀ out disk, next.store out disk = manager.store out disk

theorem untouched_refl (manager : Manager) : Untouched manager manager := ⟨rfl, rfl, fun _ _ => rfl⟩

/-- The table stays as it is exactly if it knows the checksum. -/
theorem pathTable_insert_eq_iff (table : PathTable) (path : Bytes) :
    table.insert path = table ↔ crc32 path ∈ keys table.mStore := by
  constructor
  · intro same
    by_contra unknown
    have absent : table.existsId (crc32 path) = false :=
      Bool.eq_false_iff.mpr ((table.existsId_iff _).not.mpr unknown)
    have longer := congrArg (fun table => table.mStore.length) same
    simp [PathTable.insert, absent] at longer
  · intro known
    have present : table.existsId (crc32 path) = true := (table.existsId_iff _).mpr known
    simp [PathTable.insert, present]

/-- Only the library refuses a name, after the table has taken the directory. -/
theorem failed_createCollection {manager next : Manager} {name path : Bytes} {found : Option Node}
    {recursive : Bool} (failed : manager.createCollection name path found recursive = some (next, false)) :
    next = manager ∧ (path = [] ∨ found.map Node.resolve = none) ∨
      next = { manager with pathBuf := manager.pathBuf.insert path } ∧ path ≠ [] ∧
        found.map Node.resolve ≠ none := by
  have refused {table : PathTable} {cache : Cache Bytes}
      (failed : some ({ manager with pathBuf := table }.withCache (manager.cache.insert name cache)) =
        some (next, false)) : next = { manager with pathBuf := table } := by
    rw [CacheLib.insert_eq] at failed
    split at failed
    · cases failed
      rfl
    · cases failed
  unfold createCollection at failed
  split at failed
  · rename_i empty
    exact .inl ⟨refused failed, .inl (List.isEmpty_iff.mp empty)⟩
  · rename_i nonempty
    have nonempty : path ≠ [] := fun empty => nonempty (List.isEmpty_iff.mpr empty)
    split at failed
    · rename_i nothing
      exact .inl ⟨refused failed, .inr nothing⟩
    · rename_i directory
      exact .inr ⟨refused failed, nonempty, by rw [directory]; exact Option.some_ne_none _⟩
    · cases failed

/-- A failed call leaves the manager as it was exactly if it had no directory to read, or
one that the table knows. -/
theorem failed_create_untouched_iff {manager next : Manager} {name path : Bytes} {found : Option Node}
    {recursive : Bool} (failed : manager.createCollection name path found recursive = some (next, false)) :
    Untouched manager next ↔
      path = [] ∨ found.map Node.resolve = none ∨ crc32 path ∈ keys manager.pathBuf.mStore := by
  rcases failed_createCollection failed with ⟨same, reason⟩ | ⟨same, nonempty, something⟩
  · rw [same]
    exact iff_of_true (untouched_refl manager) (reason.imp_right .inl)
  · rw [same]
    constructor
    · intro untouched
      exact .inr (.inr ((pathTable_insert_eq_iff _ _).mp untouched.pathBuf))
    · intro reason
      have known := (reason.resolve_left nonempty).resolve_left something
      rw [(pathTable_insert_eq_iff _ _).mpr known]
      exact untouched_refl manager

/-- A manager with a collection, and no directory in its table. -/
def withNature : Manager := { cache := { cacheVec := [(ascii "nature", {})] } }

/-- A name that is taken is refused after the directory has come into the table. -/
theorem failed_create_keeps_directory : ∃ next,
    withNature.createCollection (ascii "nature") (ascii "/wall") (some (.directory [])) false =
        some (next, false) ∧ ¬ Untouched withNature next := by
  refine ⟨{ withNature with pathBuf := withNature.pathBuf.insert (ascii "/wall") }, rfl, fun untouched => ?_⟩
  have known := (pathTable_insert_eq_iff withNature.pathBuf (ascii "/wall")).mp untouched.pathBuf
  cases known

/-- The same call once the directory stands in the table. -/
theorem failed_create_untouched_again : ∃ next,
    { withNature with pathBuf := withNature.pathBuf.insert (ascii "/wall") }.createCollection (ascii "nature")
        (ascii "/wall") (some (.directory [])) false = some (next, false) ∧
      Untouched { withNature with pathBuf := withNature.pathBuf.insert (ascii "/wall") } next := by
  let known : Manager := { withNature with pathBuf := withNature.pathBuf.insert (ascii "/wall") }
  have listed : crc32 (ascii "/wall") ∈ keys known.pathBuf.mStore := List.mem_singleton.mpr rfl
  have failed : known.createCollection (ascii "nature") (ascii "/wall") (some (.directory [])) false =
      some ({ known with pathBuf := known.pathBuf.insert (ascii "/wall") }, false) := rfl
  exact ⟨_, failed, (failed_create_untouched_iff failed).mpr (.inr (.inr listed))⟩

end Manager

end Wallchanger
