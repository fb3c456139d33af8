import Mathlib.Algebra.Group.Int.Defs
import Wallchanger.ChangeApp.WallManager
import Wallchanger.Foundation.Draws

/-! `Manager::next_wall`: it draws positions of the active collection until one holds
an unused wallpaper, marks that as used and records it. -/

namespace Wallchanger

open Foundation

/-! ### The loop -/

/-- `static_cast<int>` of a size. -/
def castInt (size : Nat) : Int := Int.bmod size (2 ^ 32)

/-- `static_cast<size_t>` of a draw. -/
def castSize (draw : Int) : Nat := (draw % 2 ^ 64).toNat

/-- `uniform_int_distribution<> dist(1, static_cast<int>(cache.size()))`. -/
def wallDistribution (size : Nat) : Bounds where
  lower := 1
  upper := castInt size

/-- How a draw ends the loop: at an unused wallpaper, or with a read past the items. -/
inductive Pick where
  | taken (idx : Nat)
  | outside
deriving DecidableEq

/-- What the loop does with a draw; it draws again where there is nothing to pick. -/
def pick (items : List (CacheItem Bytes)) (draw : Int) : Option Pick :=
  match items[castSize draw]? with
  | some item => if item.cacheState = .unused then some (.taken (castSize draw)) else none
  | none => some .outside

namespace Manager

/-- The record of a wallpaper; the keys of an object are sorted. -/
def wallRecord (active : Bytes) (idx : Nat) (path wallpaper : Bytes) : Json :=
  .object [("collection", .string active), ("index", .number idx), ("path", .string path),
    ("wallpaper", .string wallpaper)]

/-- `next_wall` under some draws; `none` where the range is empty, an item past the end
is read, the draws do not end the loop or `value()` throws. -/
def nextWall (manager : Manager) (draws : List Int) : Option (Manager × Json) :=
  let active := manager.cache.activeCacheName
  match manager.cache.getCacheMut ⟨active, []⟩ with
  | .error _ => some (manager, .null)
  | .ok (cache, items) =>
    if (wallDistribution items.length).Valid then
      match redraw (pick items) draws with
      | some (.taken idx) => do
        let ret ← items[idx]?
        let path ← manager.pathBuf.get ret.loc
        let send := wallRecord active idx path ret.cacheValue
        return ({ manager with
          cache := cache.updateAt active (·.setState idx .used)
          previous := manager.previous ++ [send] }, send)
      | _ => none
    else none

end Manager

/-! ### What a draw picks -/

theorem castInt_eq (size : Nat) :
    castInt size = if size % 2 ^ 32 < 2 ^ 31 then (size % 2 ^ 32 : Int) else size % 2 ^ 32 - 2 ^ 32 := by
  unfold castInt
  rw [Int.bmod_def]
  split
  · rw [if_pos (by omega)]
    rfl
  · rw [if_neg (by omega)]
    rfl

theorem pick_taken_iff {items : List (CacheItem Bytes)} {draw : Int} {idx : Nat} :
    pick items draw = some (.taken idx) ↔
      castSize draw = idx ∧ ∃ item, items[idx]? = some item ∧ item.cacheState = .unused := by
  unfold pick
  cases found : items[castSize draw]? with
  | none =>
    constructor
    · intro taken
      cases taken
    · intro ⟨same, item, there, _⟩
      rw [same, there] at found
      cases found
  | some item =>
    by_cases unused : item.cacheState = .unused
    · simp only [if_pos unused, Option.some.injEq, Pick.taken.injEq]
      constructor
      · intro same
        exact ⟨same, item, same ▸ found, unused⟩
      · intro ⟨same, _⟩
        exact same
    · simp only [if_neg unused]
      constructor
      · intro taken
        cases taken
      · intro ⟨same, other, there, unused'⟩
        rw [same, there] at found
        exact absurd (Option.some.inj found ▸ unused') unused

theorem pick_outside_iff {items : List (CacheItem Bytes)} {draw : Int} :
    pick items draw = some .outside ↔ items.length ≤ castSize draw := by
  unfold pick
  cases found : items[castSize draw]? with
  | none => exact ⟨fun _ => List.getElem?_eq_none_iff.mp found, fun _ => rfl⟩
  | some item =>
    have inside : castSize draw < items.length := (List.getElem?_eq_some_iff.mp found).1
    constructor
    · intro outside
      dsimp only at outside
      split at outside
      · cases outside
      · cases outside
    · intro past
      exact absurd inside (Nat.not_lt.mpr past)

theorem pick_none_iff {items : List (CacheItem Bytes)} {draw : Int} :
    pick items draw = none ↔ ∃ item, items[castSize draw]? = some item ∧ item.cacheState ≠ .unused := by
  unfold pick
  cases found : items[castSize draw]? with
  | none => exact ⟨(nomatch ·), fun ⟨_, absurdity, _⟩ => nomatch absurdity⟩
  | some item =>
    by_cases unused : item.cacheState = .unused
    · simp [unused]
    · simp [unused]

theorem valid_iff (size : Nat) : (wallDistribution size).Valid ↔ 1 ≤ castInt size := by
  simp only [Bounds.Valid, wallDistribution]

theorem gives_iff (size : Nat) (draw : Int) :
    (wallDistribution size).Gives draw ↔ 1 ≤ draw ∧ draw ≤ castInt size := by
  simp only [Bounds.Gives, wallDistribution]

/-- The draws of the distribution are positions from the second on. -/
theorem castSize_of_given {size : Nat} {draw : Int} (given : (wallDistribution size).Gives draw) :
    (castSize draw : Int) = draw := by
  rw [gives_iff, castInt_eq] at given
  obtain ⟨above, below⟩ := given
  unfold castSize
  split at below
  · omega
  · omega

/-- The range is nonempty and inside the collection exactly for sizes that the cast to
`int` cuts down to a positive number. -/
theorem bounds_inside_iff (size : Nat) :
    ((wallDistribution size).Valid ∧
        ∀ draw, (wallDistribution size).Gives draw → castSize draw < size) ↔
      2 ^ 32 ≤ size ∧ 0 < size % 2 ^ 32 ∧ size % 2 ^ 32 < 2 ^ 31 := by
  have upper := castInt_eq size
  rw [valid_iff]
  constructor
  · intro ⟨valid, inside⟩
    have last := (gives_iff size (castInt size)).mpr ⟨valid, Int.le_refl _⟩
    have cut := castSize_of_given last
    have short := inside _ last
    split at upper
    · omega
    · omega
  · intro ⟨large, positive, small⟩
    rw [if_pos small] at upper
    refine ⟨by omega, fun draw given => ?_⟩
    have cut := castSize_of_given given
    have below := ((gives_iff size draw).mp given).2
    omega

/-! ### Whether the loop ends -/

/-- Over positions inside the collection, fair draws end the loop exactly if one of the
positions holds an unused wallpaper: an exhausted collection is searched without end. -/
theorem loop_ends_iff {items : List (CacheItem Bytes)} {bounds : Bounds} {draws : Nat → Int}
    (inside : ∀ draw, bounds.Gives draw → castSize draw < items.length) (fair : bounds.Fair draws) :
    (∃ count idx, redraw (pick items) (firstDraws draws count) = some (.taken idx)) ↔
      ∃ draw item, bounds.Gives draw ∧ items[castSize draw]? = some item ∧ item.cacheState = .unused := by
  constructor
  · intro ⟨count, idx, ended⟩
    obtain ⟨draw, member, picked⟩ := accepted_of_redraw ended
    obtain ⟨turn, _, same⟩ := List.mem_map.mp member
    obtain ⟨place, item, found, unused⟩ := pick_taken_iff.mp picked
    exact ⟨draw, item, same ▸ fair.inside turn, place ▸ found, unused⟩
  · intro ⟨draw, item, given, found, unused⟩
    have picked := pick_taken_iff.mpr ⟨rfl, item, found, unused⟩
    obtain ⟨count, result, ended⟩ := (fair.redraw_iff (pick items)).mpr ⟨draw, _, given, picked⟩
    cases result with
    | taken idx => exact ⟨count, idx, ended⟩
    | outside =>
      obtain ⟨other, member, past⟩ := accepted_of_redraw ended
      obtain ⟨turn, _, same⟩ := List.mem_map.mp member
      exact absurd (inside other (same ▸ fair.inside turn)) (Nat.not_lt.mpr (pick_outside_iff.mp past))

/-- The range can be drawn from, and however the draws fall, as long as each value of the
range keeps occurring, the loop ends with a wallpaper. -/
def LoopLeaves (items : List (CacheItem Bytes)) : Prop :=
  (wallDistribution items.length).Valid ∧ ∀ draws, (wallDistribution items.length).Fair draws →
    ∃ count idx, redraw (pick items) (firstDraws draws count) = some (.taken idx)

/-- A loop that leaves under all fair draws reads no item past the end. -/
theorem LoopLeaves.inside {items : List (CacheItem Bytes)} (leaves : LoopLeaves items) (draw : Int)
    (given : (wallDistribution items.length).Gives draw) : castSize draw < items.length := by
  refine Nat.lt_of_not_le (fun past => ?_)
  obtain ⟨count, idx, ended⟩ := leaves.2 _ (Bounds.fair_cycle given)
  have first : pick items ((wallDistribution items.length).cycle draw 0) = some .outside := by
    rw [Bounds.cycle_zero given]
    exact pick_outside_iff.mpr past
  exact nomatch redraw_first first ended

/-- An unused wallpaper stands where the draws get to. -/
def UnusedInReach (items : List (CacheItem Bytes)) : Prop :=
  ∃ idx item, items[idx]? = some item ∧ item.cacheState = .unused ∧
    0 < idx ∧ idx ≤ items.length % 2 ^ 32

/-- The positions that the draws get to. -/
theorem given_iff {size : Nat} (small : size % 2 ^ 32 < 2 ^ 31) (idx : Nat) :
    (∃ draw, (wallDistribution size).Gives draw ∧ castSize draw = idx) ↔ 0 < idx ∧ idx ≤ size % 2 ^ 32 := by
  have upper := castInt_eq size
  rw [if_pos small] at upper
  constructor
  · intro ⟨draw, given, place⟩
    have same := castSize_of_given given
    have ⟨above, below⟩ := (gives_iff size draw).mp given
    omega
  · intro ⟨above, below⟩
    have given : (wallDistribution size).Gives (idx : Int) := (gives_iff _ _).mpr ⟨by omega, by omega⟩
    exact ⟨idx, given, Int.ofNat_inj.mp (castSize_of_given given)⟩

/-- The loop ends exactly for collections that are so large that the cast to `int` leaves
their last items out, with an unused wallpaper among those that it does not. -/
theorem loop_leaves_iff (items : List (CacheItem Bytes)) :
    LoopLeaves items ↔ (2 ^ 32 ≤ items.length ∧ 0 < items.length % 2 ^ 32 ∧
      items.length % 2 ^ 32 < 2 ^ 31) ∧ UnusedInReach items := by
  constructor
  · intro leaves
    have sizes := (bounds_inside_iff items.length).mp ⟨leaves.1, leaves.inside⟩
    have start : (wallDistribution items.length).Gives 1 :=
      (gives_iff _ _).mpr ⟨Int.le_refl _, (valid_iff _).mp leaves.1⟩
    have fair := Bounds.fair_cycle start
    obtain ⟨draw, item, given, found, unused⟩ := (loop_ends_iff leaves.inside fair).mp (leaves.2 _ fair)
    have ⟨positive, reached⟩ := (given_iff sizes.2.2 (castSize draw)).mp ⟨draw, given, rfl⟩
    exact ⟨sizes, castSize draw, item, found, unused, positive, reached⟩
  · intro ⟨sizes, idx, item, found, unused, positive, reached⟩
    have ⟨valid, inside⟩ := (bounds_inside_iff items.length).mpr sizes
    obtain ⟨draw, given, place⟩ := (given_iff sizes.2.2 idx).mpr ⟨positive, reached⟩
    exact ⟨valid, fun draws fair =>
      (loop_ends_iff inside fair).mpr ⟨draw, item, given, place ▸ found, unused⟩⟩

/-- Two wallpapers, the second of them used: the first is never drawn, and drawing the
second goes on without end. -/
theorem loop_goes_on : ¬ LoopLeaves [⟨ascii "a", .unused, 0⟩, ⟨ascii "b", .used, 0⟩] ∧
    ∀ count, redraw (pick [⟨ascii "a", .unused, 0⟩, ⟨ascii "b", .used, 0⟩])
      (firstDraws (fun _ => 1) count) = none := by
  refine ⟨fun leaves => ?_, fun count => ?_⟩
  · have ⟨large, _⟩ := (bounds_inside_iff _).mp ⟨leaves.1, leaves.inside⟩
    exact absurd large (by decide)
  · rw [redraw, List.findSome?_eq_none_iff]
    intro draw member
    obtain ⟨_, _, same⟩ := List.mem_map.mp member
    rw [← same]
    rfl

/-! ### What a call does -/

/-- A collection with some of its items marked as used. -/
def Cache.markUsed (cache : Cache Bytes) (served : List Nat) : Cache Bytes where
  list := cache.list.mapIdx
    (fun idx item => if idx ∈ served then { item with cacheState := .used } else item)
  modified := cache.modified || !served.isEmpty

theorem Cache.markUsed_nil (cache : Cache Bytes) : cache.markUsed [] = cache := by
  have same : cache.list.mapIdx (fun idx item =>
      if idx ∈ ([] : List Nat) then { item with cacheState := .used } else item) = cache.list := by
    apply List.ext_getElem?
    intro idx
    simp
  rw [markUsed, same]
  simp

theorem Cache.markUsed_setState (cache : Cache Bytes) (idx : Nat) (served : List Nat) :
    (cache.setState idx .used).markUsed served = cache.markUsed (idx :: served) := by
  have same : (cache.setState idx .used).list.mapIdx (fun idx item =>
        if idx ∈ served then { item with cacheState := .used } else item) =
      cache.list.mapIdx (fun other item =>
        if other ∈ idx :: served then { item with cacheState := .used } else item) := by
    apply List.ext_getElem?
    intro other
    simp only [List.getElem?_mapIdx, setState, List.getElem?_modify]
    by_cases here : idx = other
    · subst here
      cases cache.list[idx]? with
      | none => rfl
      | some item => simp
    · cases cache.list[other]? with
      | none => simp
      | some item => simp [here, Ne.symm here]
  rw [markUsed, markUsed, same]
  simp [setState]

/-- An item of a collection with one item set to used was there before, and was another
one if it is unused. -/
theorem Cache.getElem?_setState {cache : Cache Bytes} {idx other : Nat} {item : CacheItem Bytes}
    (found : (cache.setState idx .used).list[other]? = some item) :
    ∃ before, cache.list[other]? = some before ∧ before.cacheValue = item.cacheValue ∧
      before.loc = item.loc ∧ (item.cacheState = .unused → other ≠ idx ∧ before.cacheState = .unused) := by
  simp only [setState, List.getElem?_modify] at found
  obtain ⟨before, there, same⟩ := Option.map_eq_some_iff.mp found
  refine ⟨before, there, ?_⟩
  by_cases here : idx = other
  · simp only [if_pos here] at same
    cases same
    exact ⟨rfl, rfl, fun unused => nomatch unused⟩
  · simp only [if_neg here] at same
    cases same
    exact ⟨rfl, rfl, fun unused => ⟨Ne.symm here, unused⟩⟩

namespace Manager

/-- The collection a lookup by the active name finds. -/
def Active (manager : Manager) (cache : Cache Bytes) : Prop :=
  manager.cache.Collection manager.cache.activeName cache

/-- The manager after a call that serves an item. -/
def served (manager : Manager) (idx : Nat) (path : Bytes) (item : CacheItem Bytes) : Manager :=
  { manager with
    cache := manager.cache.updateAt manager.cache.activeName (·.setState idx .used)
    previous := manager.previous ++ [wallRecord manager.cache.activeName idx path item.cacheValue] }

/-- Taking the pointer to the items flags the collection, and so does writing one. -/
theorem updateAt_setState (lib : CacheLib) (name : Bytes) (idx : Nat) :
    (lib.updateAt name Cache.data).updateAt name (·.setState idx .used) =
      lib.updateAt name (·.setState idx .used) := by
  rw [CacheLib.updateAt_updateAt]
  rfl

/-- A call whose draws end at an item with a known directory serves that item. -/
theorem nextWall_of_taken {manager : Manager} {cache : Cache Bytes} {draws : List Int} {idx : Nat}
    {item : CacheItem Bytes} {path : Bytes} (active : manager.Active cache)
    (valid : (wallDistribution cache.list.length).Valid)
    (taken : redraw (pick cache.list) draws = some (.taken idx)) (found : cache.list[idx]? = some item)
    (known : manager.pathBuf.get item.loc = some path) :
    manager.nextWall draws = some (manager.served idx path item,
      wallRecord manager.cache.activeName idx path item.cacheValue) := by
  have looked := CacheLib.getCacheMut_of_collection ⟨manager.cache.activeName, []⟩ active
  unfold nextWall CacheLib.activeCacheName
  simp only [looked, if_pos valid, taken, found, known, updateAt_setState, Option.bind_eq_bind,
    Option.bind_some]
  rfl

/-- A call that returns serves an unused item of the active collection, or there is no
such collection. -/
theorem nextWall_cases {manager next : Manager} {draws : List Int} {sent : Json}
    (called : manager.nextWall draws = some (next, sent)) :
    (manager.cache.activeName ∉ manager.cache.names ∧ next = manager ∧ sent = .null) ∨
    ∃ cache idx item path, manager.Active cache ∧ cache.list[idx]? = some item ∧
      item.cacheState = .unused ∧ manager.pathBuf.get item.loc = some path ∧
      redraw (pick cache.list) draws = some (.taken idx) ∧ next = manager.served idx path item ∧
      sent = wallRecord manager.cache.activeName idx path item.cacheValue := by
  by_cases listed : manager.cache.activeName ∈ manager.cache.names
  · obtain ⟨cache, active⟩ := CacheLib.collection_of_mem listed
    have looked := CacheLib.getCacheMut_of_collection ⟨manager.cache.activeName, []⟩ active
    unfold nextWall CacheLib.activeCacheName at called
    simp only [looked] at called
    split at called
    · rename_i valid
      split at called
      · rename_i idx taken
        obtain ⟨item, found, called⟩ := Option.bind_eq_some_iff.mp called
        obtain ⟨path, known, called⟩ := Option.bind_eq_some_iff.mp called
        rw [updateAt_setState] at called
        cases called
        obtain ⟨draw, _, picked⟩ := accepted_of_redraw taken
        obtain ⟨_, item', found', unused⟩ := pick_taken_iff.mp picked
        cases found.symm.trans found'
        exact .inr ⟨cache, idx, item, path, active, found, unused, known, taken, rfl, rfl⟩
      · cases called
    · cases called
  · have looked := CacheLib.getCacheMut_of_not_mem ⟨manager.cache.activeName, []⟩ listed
    unfold nextWall CacheLib.activeCacheName at called
    simp only [looked] at called
    cases called
    exact .inl ⟨listed, rfl, rfl⟩

theorem wallRecord_inj {active path path' wall wall' : Bytes} {idx idx' : Nat}
    (same : wallRecord active idx path wall = wallRecord active idx' path' wall') :
    idx = idx' ∧ path = path' ∧ wall = wall' := by
  simp only [wallRecord, Json.object.injEq, List.cons.injEq, Prod.mk.injEq, Json.number.injEq,
    Json.string.injEq, Int.ofNat_inj] at same
  exact ⟨same.2.1.2, same.2.2.1.2, same.2.2.2.1.2⟩

/-! ### Which wallpapers can be served -/

/-- The range can be drawn from, its draws are positions of the collection, and each
unused wallpaper is served under some draws. -/
structure PicksUnused (manager : Manager) (cache : Cache Bytes) : Prop where
  valid : (wallDistribution cache.list.length).Valid
  inside : ∀ draw, (wallDistribution cache.list.length).Gives draw → castSize draw < cache.list.length
  reaches : ∀ idx item, cache.list[idx]? = some item → item.cacheState = .unused →
    ∃ draws next path, (∀ draw ∈ draws, (wallDistribution cache.list.length).Gives draw) ∧
      manager.nextWall draws =
        some (next, wallRecord manager.cache.activeName idx path item.cacheValue)

/-- A wallpaper is served only if the draws get to its position and its directory is known. -/
theorem served_iff {manager : Manager} {cache : Cache Bytes} {idx : Nat} {item : CacheItem Bytes}
    (active : manager.Active cache) (valid : (wallDistribution cache.list.length).Valid)
    (small : cache.list.length % 2 ^ 32 < 2 ^ 31) (found : cache.list[idx]? = some item)
    (unused : item.cacheState = .unused) :
    (∃ draws next path, (∀ draw ∈ draws, (wallDistribution cache.list.length).Gives draw) ∧
      manager.nextWall draws =
        some (next, wallRecord manager.cache.activeName idx path item.cacheValue)) ↔
      (0 < idx ∧ idx ≤ cache.list.length % 2 ^ 32) ∧ (manager.pathBuf.get item.loc).isSome = true := by
  rw [← given_iff small idx]
  constructor
  · intro ⟨draws, next, path, given, called⟩
    rcases nextWall_cases called with
      ⟨_, _, null⟩ | ⟨other, idx', item', path', active', found', _, known, taken, _, same⟩
    · cases null
    · cases active.unique active'
      obtain ⟨rfl, _⟩ := wallRecord_inj same
      cases found.symm.trans found'
      obtain ⟨draw, member, picked⟩ := accepted_of_redraw taken
      exact ⟨⟨draw, given draw member, (pick_taken_iff.mp picked).1⟩, by rw [known]; rfl⟩
  · intro ⟨⟨draw, given, place⟩, resolves⟩
    obtain ⟨path, known⟩ := Option.isSome_iff_exists.mp resolves
    have picked := pick_taken_iff.mpr ⟨place, item, found, unused⟩
    have taken : redraw (pick cache.list) [draw] = some (.taken idx) := by
      rw [redraw, List.findSome?_cons, picked]
    exact ⟨[draw], _, path, List.forall_mem_singleton.mpr given,
      nextWall_of_taken active valid taken found known⟩

/-- `next_wall` picks from exactly the unused wallpapers only in collections so large that
the cast to `int` leaves the last items out, while no unused one is the first or left out. -/
theorem picks_unused_iff {manager : Manager} {cache : Cache Bytes} (active : manager.Active cache) :
    manager.PicksUnused cache ↔
      (2 ^ 32 ≤ cache.list.length ∧ 0 < cache.list.length % 2 ^ 32 ∧ cache.list.length % 2 ^ 32 < 2 ^ 31) ∧
        ∀ idx item, cache.list[idx]? = some item → item.cacheState = .unused →
          (0 < idx ∧ idx ≤ cache.list.length % 2 ^ 32) ∧ (manager.pathBuf.get item.loc).isSome = true := by
  constructor
  · intro ⟨valid, inside, reaches⟩
    have sizes := (bounds_inside_iff _).mp ⟨valid, inside⟩
    refine ⟨sizes, fun idx item found unused => ?_⟩
    exact (served_iff active valid sizes.2.2 found unused).mp (reaches idx item found unused)
  · intro ⟨sizes, reachable⟩
    have ⟨valid, inside⟩ := (bounds_inside_iff _).mpr sizes
    refine ⟨valid, inside, fun idx item found unused => ?_⟩
    exact (served_iff active valid sizes.2.2 found unused).mpr (reachable idx item found unused)

/-- The manager of a library with one collection, which is active. -/
def ofItems (items : List (CacheItem Bytes)) : Manager where
  cache := { cacheVec := [(ascii "nature", { list := items })], activeName := ascii "nature" }
  pathBuf := { mStore := [(0, ascii "/wall")] }

theorem active_ofItems (items : List (CacheItem Bytes)) : (ofItems items).Active { list := items } := rfl

/-- A collection of one wallpaper: the only draw is 1, past the end. -/
theorem single_wallpaper_missed :
    ¬ (ofItems [⟨ascii "lake", .unused, 0⟩]).PicksUnused { list := [⟨ascii "lake", .unused, 0⟩] } ∧
      (wallDistribution 1).Gives 1 ∧ pick [⟨ascii "lake", .unused, 0⟩] 1 = some .outside := by
  refine ⟨fun picks => ?_, (gives_iff 1 1).mpr ⟨by decide, by decide⟩, rfl⟩
  have ⟨large, _⟩ := (bounds_inside_iff _).mp ⟨picks.valid, picks.inside⟩
  exact absurd large (by decide)

/-- A collection of whose size the cast to `int` leaves 1, and in which the wallpaper at
position 1 is the only unused one. -/
def secondUnused : List (CacheItem Bytes) :=
  ⟨ascii "hill", .used, 0⟩ :: ⟨ascii "lake", .unused, 0⟩ :: List.replicate (2 ^ 32 - 1) ⟨ascii "pine", .used, 0⟩

/-- Its unused wallpaper can be drawn. -/
theorem picks_unused_second : (ofItems secondUnused).PicksUnused { list := secondUnused } := by
  have size : secondUnused.length = 2 ^ 32 + 1 := by
    rw [secondUnused, List.length_cons, List.length_cons, List.length_replicate]
    rfl
  refine (picks_unused_iff (active_ofItems _)).mpr ⟨?_, fun idx item found unused => ?_⟩
  · rw [size]
    omega
  · match idx with
    | 0 =>
      cases found
      cases unused
    | 1 => exact ⟨⟨by decide, by rw [size]; decide⟩, by cases found; rfl⟩
    | later + 2 =>
      have behind : (List.replicate (2 ^ 32 - 1) ⟨ascii "pine", .used, 0⟩)[later]? = some item := found
      rw [(List.mem_replicate.mp (List.mem_of_getElem? behind)).2] at unused
      cases unused

/-! ### Runs of calls -/

/-- A call that returns a wallpaper, after what earlier calls returned. -/
def serve (state : Manager × List Json) (draws : List Int) : Option (Manager × List Json) :=
  match state.1.nextWall draws with
  | some (next, sent) => if sent.isNull then none else some (next, state.2 ++ [sent])
  | none => none

/-- What a run of calls does to a manager with an active collection. -/
structure ServedRun (start final : Manager) (cache : Cache Bytes) (served : List Nat)
    (returned : List Json) : Prop where
  distinct : served.Nodup
  unused : ∀ idx ∈ served, ∃ item, cache.list[idx]? = some item ∧ item.cacheState = .unused
  library : final.cache = start.cache.updateAt start.cache.activeName (·.markUsed served)
  paths : final.pathBuf = start.pathBuf
  previous : final.previous = start.previous ++ returned
  records : List.Forall₂ (fun idx record => ∃ item path, cache.list[idx]? = some item ∧
    start.pathBuf.get item.loc = some path ∧
    record = wallRecord start.cache.activeName idx path item.cacheValue) served returned

/-- One call serves an unused item; the calls after it find that item used. -/
theorem ServedRun.cons {manager final : Manager} {cache : Cache Bytes} {idx : Nat} {item : CacheItem Bytes}
    {path : Bytes} {served : List Nat} {returned : List Json} (found : cache.list[idx]? = some item)
    (unused : item.cacheState = .unused) (known : manager.pathBuf.get item.loc = some path)
    (rest : ServedRun (manager.served idx path item) final (cache.setState idx .used) served returned) :
    ServedRun manager final cache (idx :: served)
      (wallRecord manager.cache.activeName idx path item.cacheValue :: returned) := by
  have fresh : idx ∉ served := by
    intro again
    obtain ⟨item', there, unused'⟩ := rest.unused idx again
    obtain ⟨_, _, _, _, other⟩ := Cache.getElem?_setState there
    exact (other unused').1 rfl
  refine ⟨List.nodup_cons.mpr ⟨fresh, rest.distinct⟩, ?_, ?_, rest.paths, ?_, ?_⟩
  · intro other member
    rcases List.mem_cons.mp member with rfl | member
    · exact ⟨item, found, unused⟩
    · obtain ⟨item', there, unused'⟩ := rest.unused other member
      obtain ⟨before, there, _, _, kept⟩ := Cache.getElem?_setState there
      exact ⟨before, there, (kept unused').2⟩
  · have both := CacheLib.updateAt_updateAt manager.cache manager.cache.activeName
      (·.setState idx .used) (·.markUsed served)
    simp only [Cache.markUsed_setState] at both
    exact rest.library.trans both
  · exact rest.previous.trans (List.append_assoc ..)
  · refine .cons ⟨item, path, found, known, rfl⟩ (rest.records.imp ?_)
    intro other record ⟨item', path', there, known', same⟩
    obtain ⟨before, there, value, loc, _⟩ := Cache.getElem?_setState there
    exact ⟨before, path', there, loc ▸ known', value ▸ same⟩

theorem serve_eq_some {manager next : Manager} {before after : List Json} {draws : List Int}
    (taken : serve (manager, before) draws = some (next, after)) :
    ∃ sent, manager.nextWall draws = some (next, sent) ∧ sent.isNull = false ∧ after = before ++ [sent] := by
  unfold serve at taken
  split at taken
  · rename_i manager sent called
    cases null : sent.isNull with
    | true => simp [null] at taken
    | false =>
      simp only [null] at taken
      cases taken
      exact ⟨sent, called, null, rfl⟩
  · cases taken

/-- The calls that return wallpapers, after some that did. -/
theorem served_of_run {manager final : Manager} {cache : Cache Bytes} {calls : List (List Int)}
    {before after : List Json} (active : manager.Active cache)
    (reached : run serve (manager, before) calls = some (final, after)) :
    ∃ served returned, after = before ++ returned ∧ served.length = calls.length ∧
      ServedRun manager final cache served returned := by
  induction calls generalizing manager cache before with
  | nil =>
    cases reached
    have same : final.cache = final.cache.updateAt final.cache.activeName (·.markUsed []) := by
      simp only [Cache.markUsed_nil, CacheLib.updateAt]
      exact congrArg (fun cacheVec => { final.cache with cacheVec }) (List.modify_id ..).symm
    refine ⟨[], [], (List.append_nil _).symm, rfl, .nil, ?_, same, rfl, (List.append_nil _).symm, .nil⟩
    intro idx member
    cases member
  | cons draws rest ih =>
    obtain ⟨⟨next, more⟩, taken, reached⟩ := run_cons.mp reached
    obtain ⟨sent, called, shown, grown⟩ := serve_eq_some taken
    rcases nextWall_cases called with
      ⟨_, _, null⟩ | ⟨other, idx, item, path, active', found, unused, known, _, same, record⟩
    · rw [null] at shown
      cases shown
    · cases active.unique active'
      cases same
      have active_ : (manager.served idx path item).Active (cache.setState idx .used) :=
        CacheLib.collection_updateAt active (·.setState idx .used)
      obtain ⟨served, returned, split, count, served_⟩ := ih active_ reached
      refine ⟨idx :: served, sent :: returned, ?_, congrArg Nat.succ count, ?_⟩
      · rw [split, grown, List.append_assoc]
        rfl
      · rw [record]
        exact .cons found unused known served_

/-- For every choice of draws: the served positions are distinct and were unused, they
alone became used, and the records of the calls follow the earlier ones. -/
theorem next_wall_run {manager final : Manager} {cache : Cache Bytes} {calls : List (List Int)}
    {returned : List Json} (active : manager.Active cache)
    (reached : run serve (manager, []) calls = some (final, returned)) :
    ∃ served, served.length = calls.length ∧ ServedRun manager final cache served returned := by
  obtain ⟨served, records, same, count, served_⟩ := served_of_run active reached
  cases same
  exact ⟨served, count, served_⟩

/-- Two calls on three wallpapers; the second one draws the used one again first. -/
theorem next_wall_run_two : ∃ final returned served,
    run serve (ofItems [⟨ascii "a", .favorate, 0⟩, ⟨ascii "b", .unused, 0⟩, ⟨ascii "c", .unused, 0⟩], [])
      [[1], [1, 2]] = some (final, returned) ∧ served.length = 2 ∧
    ServedRun (ofItems [⟨ascii "a", .favorate, 0⟩, ⟨ascii "b", .unused, 0⟩, ⟨ascii "c", .unused, 0⟩]) final
      { list := [⟨ascii "a", .favorate, 0⟩, ⟨ascii "b", .unused, 0⟩, ⟨ascii "c", .unused, 0⟩] }
      served returned := by
  have defined : ∃ state, run serve
      (ofItems [⟨ascii "a", .favorate, 0⟩, ⟨ascii "b", .unused, 0⟩, ⟨ascii "c", .unused, 0⟩], [])
      [[1], [1, 2]] = some state := ⟨_, rfl⟩
  obtain ⟨⟨final, returned⟩, reached⟩ := defined
  obtain ⟨served, count, done⟩ := next_wall_run (active_ofItems _) reached
  exact ⟨final, returned, served, reached, count, done⟩

end Manager

end Wallchanger
