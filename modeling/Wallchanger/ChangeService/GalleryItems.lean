import Wallchanger.ChangeService.Gallery
import Wallchanger.ChangeService.Survival

/-! The wallpapers of the service over whole runs: no message marks one, and the directory of
each is known. -/

namespace Wallchanger

open Foundation Net

/-- The wallpapers that a call brings along. -/
def LibOp.brings : LibOp → List (CacheItem Bytes)
  | .insert _ value => value.list
  | .insertItem _ value loc => [{ cacheValue := value, cacheState := .unused, loc }]
  | _ => []

namespace LibraryMap

/-- A property of all wallpapers that are found under a name. -/
def AllIn (holds : CacheItem Bytes → Prop) (found : Option (List (CacheItem Bytes))) : Prop :=
  ∀ items ∈ found, ∀ item ∈ items, holds item

/-- A property of all wallpapers under all names. -/
def Every (holds : CacheItem Bytes → Prop) (map : LibraryMap) : Prop := ∀ name, AllIn holds (map name)

variable {holds : CacheItem Bytes → Prop} {map : LibraryMap}

theorem allIn_none : AllIn holds none := fun _ member => nomatch member

theorem allIn_some {items : List (CacheItem Bytes)} : AllIn holds (some items) ↔ ∀ item ∈ items, holds item :=
  ⟨fun all => all items rfl, fun all _ same => Option.mem_some.mp same ▸ all⟩

theorem every_add {items : List (CacheItem Bytes)} (all : ∀ item ∈ items, holds item) {value : Bytes}
    {loc : UInt32} (new : holds { cacheValue := value, cacheState := .unused, loc }) :
    ∀ item ∈ add items value loc, holds item := by
  unfold add
  split
  · exact all
  · intro item member
    rcases List.mem_append.mp member with old | same
    · exact all item old
    · exact List.mem_singleton.mp same ▸ new

theorem every_drop {items : List (CacheItem Bytes)} (all : ∀ item ∈ items, holds item) (value : Bytes) :
    ∀ item ∈ drop items value, holds item := fun item member => all item (List.mem_of_mem_eraseP member)

/-- No call makes up a wallpaper: each one was there, or is one the call brings. -/
theorem every_perform (every : Every holds map) {op : LibOp} (byName : op.ByName)
    (brought : ∀ item ∈ op.brings, holds item) : Every holds (map.perform op byName).1 := by
  have all : ∀ name, AllIn holds (map name) := every
  cases op with
  | insert name value =>
    rw [perform]
    refine forall_changeAt all (fun found here => ?_)
    cases found with
    | none => exact allIn_some.mpr brought
    | some items => exact here
  | changeActive newActive =>
    rw [perform]
    refine forall_changeAt all (fun found here => ?_)
    cases found with
    | none => exact here
    | some items => exact here
  | renameStore fromName toName =>
    rw [perform]
    split
    · exact every
    · refine forall_changeBoth all (fun found other left right => ?_)
      cases found with
      | none => exact ⟨left, right⟩
      | some items =>
        cases other with
        | none => exact ⟨right, left⟩
        | some others => exact ⟨left, right⟩
  | remove name =>
    rw [perform]
    refine forall_changeAt all (fun found _ => ?_)
    cases found with
    | none => exact allIn_none
    | some items => exact allIn_none
  | removeCacheItem cacheName itemName =>
    rw [perform]
    split
    · exact every
    · refine forall_changeAt all (fun found here => ?_)
      cases found with
      | none => exact allIn_none
      | some items =>
        dsimp only
        split
        · exact allIn_some.mpr (every_drop (allIn_some.mp here) _)
        · exact here
  | mergeCache col1 col2 =>
    rw [perform]
    split
    · exact every
    · refine forall_changeBoth all (fun found other left right => ?_)
      cases found with
      | none => exact ⟨left, right⟩
      | some items =>
        cases other with
        | none => exact ⟨left, right⟩
        | some others =>
          refine ⟨allIn_some.mpr (fun item member => ?_), allIn_none⟩
          exact (List.mem_merge.mp member).elim (allIn_some.mp left item) (allIn_some.mp right item)
  | moveCacheItem source dest itemName =>
    rw [perform]
    split
    · exact every
    · refine forall_changeBoth all (fun found other left right => ?_)
      cases found with
      | none => exact ⟨left, right⟩
      | some items =>
        cases other with
        | none => exact ⟨left, right⟩
        | some others =>
          dsimp only
          cases taken : first items itemName.chars with
          | none => exact ⟨left, right⟩
          | some moved =>
            refine ⟨allIn_some.mpr (every_drop (allIn_some.mp left) _), allIn_some.mpr (fun item member => ?_)⟩
            rcases mem_insertAbsent.mp member with old | same
            · exact allIn_some.mp right item old
            · exact same ▸ allIn_some.mp left moved (List.mem_of_find?_eq_some taken)
  | insertItem name value loc =>
    rw [perform]
    refine forall_changeAt all (fun found here => ?_)
    cases found with
    | none => exact allIn_none
    | some items => exact allIn_some.mpr (every_add (allIn_some.mp here) (brought _ (List.mem_singleton_self _)))
  | setState pos idx state => exact byName.elim

end LibraryMap

/-- The wallpapers of a listing are unused ones of the one directory. -/
theorem fresh_of_collect (listing : List (Bytes × Bool)) (loc : UInt32) :
    ∀ item ∈ (Manager.collect listing loc).list, item.cacheState = .unused ∧ item.loc = loc := by
  let Fresh (cache : Cache Bytes) : Prop := ∀ item ∈ cache.list, item.cacheState = .unused ∧ item.loc = loc
  have start : Fresh {} := fun _ member => nomatch member
  refine @List.foldlRecOn _ _ Fresh listing _ _ start ?_
  intro cache all entry _
  split
  · change ∀ item ∈ (cache.insert entry.1 loc).list, _
    rw [← CacheLib.add_eq]
    exact LibraryMap.every_add all ⟨rfl, rfl⟩
  · exact all

namespace Gallery

/-- Every wallpaper is unused, and its directory is known. -/
def Good (gallery : Gallery) : Prop :=
  gallery.items.Every (fun item => item.cacheState = .unused ∧ (gallery.paths item.loc).isSome = true)

/-- A good gallery beside itself. -/
def Same (gallery other : Gallery) : Prop := gallery = other ∧ gallery.Good

variable {gallery : Gallery} {serverCmd : Json}

theorem Good.withPath (good : gallery.Good) (path : Bytes) : (gallery.withPath path).Good := by
  intro name items found item member
  obtain ⟨unused, known⟩ := good name items found item member
  refine ⟨unused, ?_⟩
  dsimp only [Gallery.withPath, Catalogue.withPath]
  rw [Option.isSome_or, known]
  rfl

theorem withPath_isSome (gallery : Gallery) (path : Bytes) :
    ((gallery.withPath path).paths (crc32 path)).isSome = true := by
  dsimp only [withPath, Catalogue.withPath]
  rw [if_pos rfl, Option.isSome_or]
  exact Bool.or_true _

theorem same_call (good : gallery.Good) {op : LibOp} {byName : op.ByName}
    (brought : ∀ item ∈ op.brings, item.cacheState = .unused ∧ (gallery.paths item.loc).isSome = true) :
    Follows Same (pure (gallery.call op byName) : Outcome (Gallery × Bool)) (pure (gallery.call op byName)) :=
  ⟨⟨rfl, LibraryMap.every_perform good byName brought⟩, rfl⟩

/-- A call that brings no wallpapers. -/
theorem same_call_of_nil (good : gallery.Good) {op : LibOp} {byName : op.ByName} (nothing : op.brings = []) :
    Follows Same (pure (gallery.call op byName) : Outcome (Gallery × Bool)) (pure (gallery.call op byName)) :=
  same_call good (fun item member => by rw [nothing] at member; cases member)

theorem same_getNextWallpaper (env : Environment) (good : gallery.Good) :
    Follows Same (gallery.getNextWallpaper env) (gallery.getNextWallpaper env) := by
  unfold getNextWallpaper
  cases gallery.items gallery.directory.active with
  | none => exact .error
  | some items =>
    have given : unchecked (some items) = .ok items := rfl
    rw [given, ok_bind]
    refine Follows.ite (wallDistribution items.length).Valid ?_ ?_
    · intro _
      cases redraw (pick items) env.draws with
      | none => exact .error
      | some picked =>
        cases picked with
        | outside => exact .error
        | taken idx =>
          refine follows_after (fun ret _ => ?_)
          cases gallery.paths ret.loc with
          | none => exact .error
          | some path => exact ⟨⟨rfl, good⟩, rfl⟩
    · intro _
      exact .error

theorem same_createCollection (env : Environment) (good : gallery.Good) :
    Follows Same (gallery.createCollection env serverCmd) (gallery.createCollection env serverCmd) := by
  refine follows_after (fun colEmpty _ => ?_)
  split
  · refine follows_after (fun colPath _ => follows_after (fun _ _ => follows_after (fun listing _ => ?_)))
    refine follows_after (fun name _ => same_call (good.withPath colPath) (fun item member => ?_))
    obtain ⟨unused, loc⟩ := fresh_of_collect listing (crc32 colPath) item member
    exact ⟨unused, loc ▸ gallery.withPath_isSome colPath⟩
  · exact follows_after (fun name _ => same_call_of_nil good rfl)

theorem same_addToCollection (good : gallery.Good) :
    Follows Same (gallery.addToCollection serverCmd) (gallery.addToCollection serverCmd) := by
  refine follows_after (fun colName _ => follows_after (fun wall _ => ?_))
  split
  · refine same_call (good.withPath (parentPath wall)) (fun item member => ?_)
    rw [List.mem_singleton.mp member]
    exact ⟨rfl, gallery.withPath_isSome (parentPath wall)⟩
  · exact ⟨⟨rfl, good⟩, rfl⟩

theorem same_removeCollection (good : gallery.Good) :
    Follows Same (gallery.removeCollection serverCmd) (gallery.removeCollection serverCmd) := by
  refine follows_after (fun wallOnly _ => follows_after (fun col _ => ?_))
  split
  · split
    · exact follows_after (fun _ _ => ⟨⟨rfl, good⟩, rfl⟩)
    · exact ⟨⟨rfl, good⟩, rfl⟩
  · exact same_call_of_nil good rfl

theorem same_getPreviousWallpaper (good : gallery.Good) :
    Follows Same (Except.ok gallery.getPreviousWallpaper : Outcome (Gallery × Json))
      (.ok gallery.getPreviousWallpaper) := by
  unfold getPreviousWallpaper
  cases gallery.previous.getLast? with
  | none => exact ⟨⟨rfl, good⟩, rfl⟩
  | some previous => exact ⟨⟨rfl, good⟩, rfl⟩

theorem same_markFavorate (good : gallery.Good) :
    Follows Same ((·, ()) <$> gallery.markFavorate) ((·, ()) <$> gallery.markFavorate) := by
  unfold markFavorate
  simp only [map_bind]
  refine follows_after (fun cur _ => follows_after (fun items _ => follows_after (fun wallpaper _ => ?_)))
  split
  · exact ⟨⟨rfl, good⟩, rfl⟩
  · exact .error

theorem same_listCollection (good : gallery.Good) :
    Follows Same (gallery.listCollection serverCmd) (gallery.listCollection serverCmd) := by
  refine follows_after (fun colOnly _ => ?_)
  split
  · exact follows_after (fun _ _ => ⟨⟨rfl, good⟩, rfl⟩)
  · exact ⟨⟨rfl, good⟩, rfl⟩

/-- No message makes a gallery worse. -/
theorem api_same : api.Follows Same (fun _ => True) api where
  getNextWallpaper env _ _ same := by
    obtain ⟨rfl, good⟩ := same
    exact same_getNextWallpaper env good
  getPreviousWallpaper same := by
    obtain ⟨rfl, good⟩ := same
    exact same_getPreviousWallpaper good
  markFavorate same := by
    obtain ⟨rfl, good⟩ := same
    exact same_markFavorate good
  changeActive _ same := by
    obtain ⟨rfl, good⟩ := same
    exact follows_after (fun _ _ => same_call_of_nil good rfl)
  createCollection env _ _ _ _ same := by
    obtain ⟨rfl, good⟩ := same
    exact same_createCollection env good
  addToCollection _ same := by
    obtain ⟨rfl, good⟩ := same
    exact same_addToCollection good
  renameCollection _ same := by
    obtain ⟨rfl, good⟩ := same
    exact follows_after (fun _ _ => follows_after (fun _ _ => same_call_of_nil good rfl))
  removeCollection _ same := by
    obtain ⟨rfl, good⟩ := same
    exact same_removeCollection good
  listCollection _ same := by
    obtain ⟨rfl, good⟩ := same
    exact same_listCollection good
  mergeCollection _ same := by
    obtain ⟨rfl, good⟩ := same
    exact follows_after (fun _ _ => follows_after (fun _ _ => same_call_of_nil good rfl))
  moveCollectoion _ same := by
    obtain ⟨rfl, good⟩ := same
    exact follows_after (fun _ _ => follows_after (fun _ _ => follows_after (fun _ _ =>
      same_call_of_nil good rfl)))

/-- In a good gallery the first draw decides. -/
theorem next_of_good (good : gallery.Good) {items : List (CacheItem Bytes)}
    (active : gallery.items gallery.directory.active = some items) {env : Environment} {draw : Int}
    {later : List Int} (draws : env.draws = draw :: later) (given : (wallDistribution items.length).Gives draw) :
    (draw = items.length → gallery.getNextWallpaper env = .error .terminated) ∧
      (draw < items.length → ∃ item path, items[draw.toNat]? = some item ∧ gallery.paths item.loc = some path ∧
        let record := Manager.wallRecord gallery.directory.active draw.toNat path item.cacheValue
        gallery.getNextWallpaper env = .ok ({ gallery with previous := gallery.previous ++ [record] }, record)) := by
  have place := castSize_of_given given
  obtain ⟨above, below⟩ := (gives_iff _ _).mp given
  have valid := (valid_iff items.length).mpr (Int.le_trans above below)
  have unfolded : unchecked (some items) = .ok items := rfl
  unfold getNextWallpaper
  rw [active, unfolded, ok_bind, if_pos valid, draws, redraw, List.findSome?_cons]
  constructor
  · intro last
    have outside : pick items draw = some .outside := pick_outside_iff.mpr (by omega)
    rw [outside]
  · intro inside
    have within : castSize draw < items.length := by omega
    have same : draw.toNat = castSize draw := by omega
    have there := List.getElem?_eq_getElem within
    obtain ⟨unused, known⟩ := good _ items active _ (List.getElem_mem within)
    obtain ⟨path, known⟩ := Option.isSome_iff_exists.mp known
    have taken : pick items draw = some (.taken (castSize draw)) := pick_taken_iff.mpr ⟨rfl, _, there, unused⟩
    have read : unchecked (some items[castSize draw]) = .ok items[castSize draw] := rfl
    rw [same]
    refine ⟨_, path, there, known, ?_⟩
    rw [taken]
    dsimp only
    rw [there, read, ok_bind, known]
    rfl

end Gallery

namespace Service

variable {cbor : Cbor}

/-- A good gallery stays good, whatever the clients send. -/
theorem good_run {service final : Service State} (distinct : service.server.state.cache.NamesDistinct)
    (good : service.server.state.gallery.Good) {ops : List ServiceOp}
    (free : Along (step State.api cbor) (Allowed Json.NulFree cbor) service ops)
    (reached : run (step State.api cbor) service ops = some final) :
    final.server.state.cache.NamesDistinct ∧ final.server.state.gallery.Good := by
  let table := service.server.state.pathBuf
  have shows : Related (State.Shows table) service service.gallery :=
    ⟨⟨⟨distinct, rfl, fun _ => rfl⟩, rfl, rfl⟩, rfl, rfl⟩
  have same : Related Gallery.Same service.gallery service.gallery := ⟨⟨⟨rfl, good⟩, rfl, rfl⟩, rfl, rfl⟩
  have both := related_run (State.api_follows table) shows free
  rw [reached] at both
  obtain ⟨other, reached', related⟩ := rel_some_left both
  have all : ∀ (service : Service Gallery) op, Allowed (fun _ => True) cbor service op := by
    intro service op
    cases op with
    | update env => exact fun _ _ _ _ => trivial
    | _ => trivial
  have kept := related_run Gallery.api_same same (along_of_forall all service.gallery ops)
  rw [reached'] at kept
  obtain ⟨_, _, kept⟩ := rel_some_left kept
  refine ⟨related.server.state.distinct, ?_⟩
  rw [related.server.state.same]
  exact kept.server.state.2

/-- A service that starts with unused wallpapers in known directories answers every request for
a wallpaper, whatever its clients have sent before, with what stands at the first draw from the
distribution; the draw of the last place ends it. Nothing but the record is new, so the same
draw serves the same wallpaper again. -/
theorem next_answered_unless_last {service final : Service State}
    (distinct : service.server.state.cache.NamesDistinct) (good : service.server.state.gallery.Good)
    {ops : List ServiceOp} (free : Along (step State.api cbor) (Allowed Json.NulFree cbor) service ops)
    (reached : run (step State.api cbor) service ops = some final) {cache : Cache Bytes}
    (active : final.server.state.cache.Collection final.server.state.cache.activeName cache) {draw : Int}
    {later : List Int} (given : (wallDistribution cache.list.length).Gives draw) {env : Environment}
    (draws : env.draws = draw :: later) :
    (draw = cache.list.length → final.server.state.getNextWallpaper env = .error .terminated) ∧
      (draw < cache.list.length → ∃ next item path, cache.list[draw.toNat]? = some item ∧
        final.server.state.pathBuf.get item.loc = some path ∧
        let record := Manager.wallRecord final.server.state.cache.activeName draw.toNat path item.cacheValue
        final.server.state.getNextWallpaper env = .ok (next, record) ∧
          next.gallery = { final.server.state.gallery with
            previous := final.server.state.previous ++ [record] }) := by
  obtain ⟨distinct, kept⟩ := good_run distinct good free reached
  have shown : final.server.state.Shows final.server.state.pathBuf final.server.state.gallery :=
    ⟨distinct, rfl, fun _ => rfl⟩
  have follows := State.follows_getNextWallpaper env shown
  obtain ⟨last, inside⟩ := Gallery.next_of_good kept (CacheLib.contents_of_collection active) draws given
  constructor
  · intro atEnd
    rw [last atEnd] at follows
    exact follows.eq_error
  · intro before
    obtain ⟨item, path, there, known, answered⟩ := inside before
    rw [answered] at follows
    obtain ⟨next, outcome, left⟩ := follows.eq_ok
    exact ⟨next, item, path, there, known, outcome, left.same⟩

/-- A service with the wallpapers `x` and `y` of `/w` in the active collection `a`. -/
def twoUnused : Service State where
  server := { state := {
    cache := {
      cacheVec := [(ascii "a", { list := [⟨ascii "x", .unused, 7⟩, ⟨ascii "y", .unused, 7⟩] })]
      activeName := ascii "a" }
    pathBuf := { mStore := [(7, ascii "/w")] } } }

theorem good_twoUnused : twoUnused.server.state.gallery.Good := by
  intro name items found item member
  obtain ⟨cache, there, rfl⟩ := CacheLib.contents_eq_some_iff.mp found
  have listed := CacheLib.Collection.mem there
  rw [twoUnused, List.mem_singleton] at listed
  obtain ⟨rfl, rfl⟩ := Prod.mk.inj listed
  simp only [List.mem_cons, List.not_mem_nil, or_false] at member
  rcases member with rfl | rfl
  · exact ⟨rfl, rfl⟩
  · exact ⟨rfl, rfl⟩

theorem next_answered_unless_last_second : ∃ final,
    run (step State.api collectionCbor) twoUnused createAndList = some final ∧
      ∃ next path, final.server.state.pathBuf.get 7 = some path ∧
        let record := Manager.wallRecord final.server.state.cache.activeName 1 path (ascii "y")
        final.server.state.getNextWallpaper { draws := [1] } = .ok (next, record) ∧
          next.gallery = { final.server.state.gallery with
            previous := final.server.state.previous ++ [record] } := by
  have through : (run (step State.api collectionCbor) twoUnused createAndList).any (fun final =>
      decide (final.server.state.cache = twoUnused.server.state.cache)) = true := by decide +kernel
  obtain ⟨final, reached, same⟩ := (Option.any_eq_true _ _).mp through
  have same := of_decide_eq_true same
  have distinct : twoUnused.server.state.cache.NamesDistinct := by
    unfold CacheLib.NamesDistinct
    decide
  have active : final.server.state.cache.Collection final.server.state.cache.activeName
      { list := [⟨ascii "x", .unused, 7⟩, ⟨ascii "y", .unused, 7⟩] } := by
    rw [same]
    rfl
  obtain ⟨_, inside⟩ := @next_answered_unless_last collectionCbor _ _ distinct good_twoUnused _
    (by decide +kernel) reached _ active 1 [] ((gives_iff _ _).mpr (by decide)) { draws := [1] } rfl
  obtain ⟨next, item, path, there, known, answered⟩ := inside (by decide)
  cases there
  exact ⟨final, reached, next, path, known, answered⟩

end Service

end Wallchanger
