import Wallchanger.ChangeApp.PreviousWall
import Wallchanger.ChangeLib.CurrentSpot

/-! `Manager::mark_favorate` searches the current collection for the name in the last
record. It finds the wallpaper on screen until a call takes that out of the collection, the
index away from the collection or the record out of the history. -/

namespace Wallchanger

open Foundation

/-- `cur["wallpaper"].get<std::string_view>()`. -/
def recordWallpaper (record : Json) : Option Bytes :=
  (record.subscriptMut "wallpaper" >>= fromJson).toOption

namespace Manager

/-- `mark_favorate`; `none` where the index is past the last collection, the record has no
name or the end of the collection is written to. -/
def markFavorate (manager : Manager) : Option Manager :=
  match manager.previous.getLast? with
  | none => some manager
  | some cur => do
    let (curCache, items) ← manager.cache.getCurrentMut
    let wallpaper ← recordWallpaper cur
    let fndIt := items.findIdx (fun item => item.cacheValue == wallpaper)
    let (cache, _) ← curCache.setState curCache.current.toNat fndIt .favorate
    return { manager with cache }

/-- The name that `mark_favorate` searches for. -/
def lastWallpaper (manager : Manager) : Option Bytes := manager.previous.getLast?.bind recordWallpaper

/-- Where `next_wall` finds what it serves. -/
def servedSpot (manager : Manager) (draws : List Int) : Option Spot :=
  match manager.cache.getCacheMut ⟨manager.cache.activeName, []⟩ with
  | .error _ => none
  | .ok (_, items) =>
    match redraw (pick items) draws with
    | some (.taken idx) => some { pos := find manager.cache.cacheVec manager.cache.activeName, idx }
    | _ => none

end Manager

/-! ### The wallpaper on screen -/

/-- The calls between which a wallpaper is on screen. -/
inductive ScreenOp where
  | nextWall (draws : List Int)
  | previousWall
  | changeActive (cmd : StringView)
  | renameCollection (fromName toName : StringView)
  | removeCollection (collection : StringView)
  | removeWallpaper (collection wallpaperName : StringView)
  | moveWallpaper (originCollection destCollection wallName : StringView)
  | mergeCollection (collection1 collection2 : StringView)

/-- The call of the library that is made. -/
def ScreenOp.call : ScreenOp → Option LibOp
  | .nextWall _ | .previousWall => none
  | .changeActive cmd => some (.changeActive cmd)
  | .renameCollection fromName toName => some (.renameStore fromName toName)
  | .removeCollection collection => some (.remove collection)
  | .removeWallpaper collection wallpaperName => some (.removeCacheItem collection wallpaperName)
  | .moveWallpaper originCollection destCollection wallName =>
    some (.moveCacheItem originCollection destCollection wallName)
  | .mergeCollection collection1 collection2 => some (.mergeCache collection1 collection2)

/-- A manager with the record that `next_wall` or `previous_wall` returned last, the place
of its wallpaper, and those of all wallpapers in the history. No call reads the places. -/
structure Screen where
  manager : Manager
  returned : Option Json := none
  shown : Option Spot := none
  spots : List (Option Spot) := []

namespace Screen

/-- The places after a call to the library, where it went through. -/
def after (screen : Screen) (call : LibOp) (result : Manager × Bool) : Screen :=
  if result.2 then
    { manager := result.1
      returned := screen.returned
      shown := screen.shown.bind (screen.manager.cache.carried · call)
      spots := screen.spots.map (·.bind (screen.manager.cache.carried · call)) }
  else { screen with manager := result.1 }

def step (screen : Screen) : ScreenOp → Option Screen
  | .nextWall draws => (screen.manager.nextWall draws).map (fun result =>
    match screen.manager.servedSpot draws with
    | some spot =>
      { manager := result.1, returned := some result.2, shown := some spot,
        spots := screen.spots ++ [some spot] }
    | none => { screen with manager := result.1 })
  | .previousWall =>
    if screen.manager.previous.isEmpty then some screen
    else
      let result := screen.manager.previousWall
      some { manager := result.1, returned := some result.2, shown := screen.spots.getLast?.join,
             spots := screen.spots.dropLast }
  | .changeActive cmd => some (screen.after (.changeActive cmd) (screen.manager.changeActive cmd))
  | .renameCollection fromName toName =>
    some (screen.after (.renameStore fromName toName) (screen.manager.renameCollection fromName toName))
  | .removeCollection collection =>
    some (screen.after (.remove collection) (screen.manager.removeCollection collection))
  | .removeWallpaper collection name =>
    some (screen.after (.removeCacheItem collection name) (screen.manager.removeWallpaper collection name))
  | .moveWallpaper origin dest name =>
    (screen.manager.moveWallpaper origin dest name).map (screen.after (.moveCacheItem origin dest name))
  | .mergeCollection collection1 collection2 =>
    (screen.manager.mergeCollection collection1 collection2).map
      (screen.after (.mergeCache collection1 collection2))

/-- `mark_favorate` sets the wallpaper on screen to favorate and changes nothing else, or
nothing at all but a flag where there is none; it is defined in both cases. -/
def MarksShown (screen : Screen) : Prop :=
  match screen.shown with
  | some spot => ∃ marked,
    screen.manager.cache.setState spot.pos spot.idx .favorate = some (marked, .ok true) ∧
      screen.manager.markFavorate = some { screen.manager with cache := marked }
  | none => ∃ next, screen.manager.markFavorate = some next ∧
    next.cache.SameData screen.manager.cache ∧ next.pathBuf = screen.manager.pathBuf ∧
    next.previous = screen.manager.previous

/-- What becomes of a state that a call of the library leaves. -/
theorem step_of_call {screen : Screen} {op : ScreenOp} {call : LibOp} (made : op.call = some call) :
    screen.step op = (screen.manager.cache.perform call).map
      (fun result => screen.after call (screen.manager.withCache result)) := by
  cases op with
  | nextWall | previousWall => cases made
  | changeActive | renameCollection | removeCollection | removeWallpaper =>
    cases made
    rfl
  | moveWallpaper origin dest name =>
    cases made
    exact Option.map_map ..
  | mergeCollection collection1 collection2 =>
    cases made
    exact Option.map_map ..

end Screen

namespace Manager

theorem lastWallpaper_served (manager : Manager) (idx : Nat) (path : Bytes) (item : CacheItem Bytes) :
    (manager.served idx path item).lastWallpaper = some item.cacheValue := by
  rw [lastWallpaper, served, List.getLast?_concat]
  rfl

/-- The place of what a call returns. -/
theorem servedSpot_of_nextWall {manager next : Manager} {draws : List Int} {sent : Json}
    (called : manager.nextWall draws = some (next, sent)) :
    (manager.servedSpot draws = none ∧ next = manager) ∨
    ∃ cache idx item path, manager.Active cache ∧ cache.list[idx]? = some item ∧
      manager.servedSpot draws =
        some { pos := find manager.cache.cacheVec manager.cache.activeName, idx } ∧
      next = manager.served idx path item ∧
      sent = wallRecord manager.cache.activeName idx path item.cacheValue := by
  rcases nextWall_cases called with
    ⟨absent, same, _⟩ | ⟨cache, idx, item, path, active, found, _, _, taken, same, record⟩
  · have looked := CacheLib.getCacheMut_of_not_mem ⟨manager.cache.activeName, []⟩ absent
    exact .inl ⟨by simp only [servedSpot, looked], same⟩
  · have looked := CacheLib.getCacheMut_of_collection ⟨manager.cache.activeName, []⟩ active
    exact .inr ⟨cache, idx, item, path, active, found, by simp only [servedSpot, looked, taken], same, record⟩

/-- What the search of `mark_favorate` ends at is marked. -/
theorem markFavorate_of_found {manager : Manager} {wall : Bytes} {spot : Spot}
    (record : manager.lastWallpaper = some wall) (found : manager.cache.currentSpot wall = some spot) :
    ∃ marked, manager.cache.setState spot.pos spot.idx .favorate = some (marked, .ok true) ∧
      manager.markFavorate = some { manager with cache := marked } := by
  obtain ⟨cur, last, named⟩ := Option.bind_eq_some_iff.mp record
  obtain ⟨store, place, member, rfl⟩ := CacheLib.currentSpot_eq_some.mp found
  have inside : store.2.findValue wall < store.2.list.length := by
    obtain ⟨_, there, _⟩ := Cache.item_at_findValue member
    exact (List.getElem?_eq_some_iff.mp there).1
  let flagged : CacheLib := { manager.cache with
    cacheVec := manager.cache.cacheVec.modify manager.cache.current.toNat (Prod.map id Cache.begin) }
  have looked : manager.cache.getCurrentMut = some (flagged, store.2.list) := by
    rw [CacheLib.getCurrentMut, place]
    rfl
  have place_ : flagged.cacheVec[manager.cache.current.toNat]? = some (store.1, store.2.begin) := by
    rw [List.getElem?_modify_eq, place]
    rfl
  have marks := CacheLib.setState_of_inside place_ inside .favorate
  -- The iterator has set the flag that the write sets again.
  have once : flagged.cacheVec.modify manager.cache.current.toNat
        (Prod.map id (·.setState (store.2.findValue wall) .favorate)) =
      manager.cache.cacheVec.modify manager.cache.current.toNat
        (Prod.map id (·.setState (store.2.findValue wall) .favorate)) := List.modify_modify_eq ..
  rw [once] at marks
  refine ⟨_, CacheLib.setState_of_inside place inside .favorate, ?_⟩
  unfold markFavorate
  simp only [last, looked, named, Option.bind_eq_bind, Option.bind_some]
  exact congrArg (fun set => set.bind (fun result => some { manager with cache := result.1 })) marks

end Manager

/-! ### The places are right -/

private theorem forall₂_concat_right {α β : Type} {related : α → β → Prop} {left : List α} {front : List β}
    {b : β} (all : List.Forall₂ related left (front ++ [b])) :
    ∃ rest a, left = rest ++ [a] ∧ List.Forall₂ related rest front ∧ related a b := by
  have back := List.forall₂_reverse_iff.mpr all
  rw [List.reverse_concat'] at back
  obtain ⟨a, rest, here, others, same⟩ := List.forall₂_cons_right_iff.mp back
  refine ⟨rest.reverse, a, ?_, List.forall₂_reverse_iff.mp ?_, here⟩
  · rw [← List.reverse_reverse left, same, List.reverse_cons]
  · rw [List.reverse_reverse]
    exact others

/-- A place is that of the wallpaper in a record, unless it is gone. -/
def HoldsRecord (lib : CacheLib) (spot : Option Spot) (record : Json) : Prop :=
  ∀ there, spot = some there → ∃ value loc, recordWallpaper record = some value ∧ lib.HasFile there value loc

section HoldsRecord
variable {lib next : CacheLib} {spot : Option Spot} {record : Json}

theorem HoldsRecord.imp (holds : HoldsRecord lib spot record)
    (kept : ∀ there value loc, lib.HasFile there value loc → next.HasFile there value loc) :
    HoldsRecord next spot record := by
  intro there same
  obtain ⟨value, loc, named, file⟩ := holds there same
  exact ⟨value, loc, named, kept there value loc file⟩

theorem HoldsRecord.carried {call : LibOp} (holds : HoldsRecord lib spot record)
    (performed : lib.perform call = some (next, .ok done)) :
    HoldsRecord next (spot.bind (lib.carried · call)) record := by
  intro there same
  obtain ⟨before, was, kept⟩ := Option.bind_eq_some_iff.mp same
  obtain ⟨value, loc, named, file⟩ := holds before was
  exact ⟨value, loc, named, CacheLib.hasFile_carried performed kept file⟩

end HoldsRecord

namespace Screen

/-- The places are those of the record returned last and of the records in the history. -/
structure Tracks (screen : Screen) : Prop where
  onScreen : screen.shown = none ∨
    ∃ record, screen.returned = some record ∧ HoldsRecord screen.manager.cache screen.shown record
  history : List.Forall₂ (HoldsRecord screen.manager.cache) screen.spots screen.manager.previous

theorem tracks_after {screen : Screen} {call : LibOp} {cache : CacheLib} {result : Expected}
    (tracks : screen.Tracks) (performed : screen.manager.cache.perform call = some (cache, result)) :
    (screen.after call (screen.manager.withCache (cache, result))).Tracks := by
  obtain ⟨onScreen, history⟩ := tracks
  cases result with
  | error failure =>
    have same := CacheLib.sameData_of_error performed
    have kept : ∀ spot record, HoldsRecord screen.manager.cache spot record → HoldsRecord cache spot record :=
      fun _ _ holds => holds.imp (fun _ _ _ file => CacheLib.hasFile_of_sameData same file)
    exact ⟨onScreen.imp_right (fun ⟨record, was, holds⟩ => ⟨record, was, kept _ _ holds⟩), history.imp kept⟩
  | ok done =>
    refine ⟨?_, ?_⟩
    · rcases onScreen with nothing | ⟨record, was, holds⟩
      · exact .inl (congrArg (·.bind (screen.manager.cache.carried · call)) nothing)
      · exact .inr ⟨record, was, holds.carried performed⟩
    · exact List.forall₂_map_left_iff.mpr (history.imp (fun _ _ holds => holds.carried performed))

/-- Whatever is called, the places are followed rightly. -/
theorem tracks_step {screen next : Screen} {op : ScreenOp} (tracks : screen.Tracks)
    (taken : screen.step op = some next) : next.Tracks := by
  cases op with
  | nextWall draws =>
    obtain ⟨⟨manager, sent⟩, called, same⟩ := Option.map_eq_some_iff.mp taken
    rcases Manager.servedSpot_of_nextWall called with
      ⟨unserved, rfl⟩ | ⟨cache, idx, item, path, active, found, served, rfl, rfl⟩
    · simp only [unserved] at same
      exact same ▸ tracks
    · simp only [served] at same
      cases same
      have marked := CacheLib.setState_of_inside active (List.getElem?_eq_some_iff.mp found).1 .used
      have file : screen.manager.cache.HasFile
          { pos := find screen.manager.cache.cacheVec screen.manager.cache.activeName, idx }
          item.cacheValue item.loc :=
        ⟨item, CacheLib.itemAt_eq_some.mpr ⟨_, active, found⟩, rfl, rfl⟩
      have here : HoldsRecord (screen.manager.served idx path item).cache
          (some { pos := find screen.manager.cache.cacheVec screen.manager.cache.activeName, idx })
          (Manager.wallRecord screen.manager.cache.activeName idx path item.cacheValue) := by
        intro there same
        cases same
        exact ⟨item.cacheValue, item.loc, rfl, CacheLib.hasFile_setState file marked⟩
      refine ⟨.inr ⟨_, rfl, here⟩, List.rel_append (tracks.history.imp ?_) (.cons here .nil)⟩
      exact fun _ _ holds => holds.imp (fun _ _ _ file => CacheLib.hasFile_setState file marked)
  | previousWall =>
    rcases List.eq_nil_or_concat' screen.manager.previous with empty | ⟨front, record, split⟩
    · simp only [step, empty] at taken
      cases taken
      exact tracks
    · have history := tracks.history
      rw [split] at history
      obtain ⟨rest, spot, spots, others, here⟩ := forall₂_concat_right history
      have filled : screen.manager.previous.isEmpty = false := by simp [split]
      have last : screen.manager.previous.getLast? = some record := by rw [split, List.getLast?_concat]
      have front_ : screen.manager.previous.dropLast = front := by rw [split, List.dropLast_concat]
      simp only [step, filled, Manager.previousWall, last, front_, spots, List.getLast?_concat,
        List.dropLast_concat] at taken
      cases taken
      exact ⟨.inr ⟨record, rfl, here⟩, others⟩
  | changeActive | renameCollection | removeCollection | removeWallpaper | moveWallpaper | mergeCollection =>
    obtain ⟨result, performed, rfl⟩ := Option.map_eq_some_iff.mp ((step_of_call rfl).symm.trans taken)
    exact tracks_after tracks performed

/-- In every run the wallpaper on screen has the name in the record returned last. -/
theorem tracks_run {manager : Manager} {ops : List ScreenOp} (fresh : manager.previous = []) :
    Throughout step Tracks { manager } ops := by
  have start : Tracks { manager } := by
    refine ⟨.inl rfl, ?_⟩
    rw [fresh]
    exact .nil
  exact throughout_of_kept (fun _ _ _ => tracks_step) start

end Screen

/-! ### When the mark stays on it -/

namespace Manager

/-- The search for the name in the last record ends at the wallpaper on screen after a call
as before it, or there is none to search for: an item served is the first of its name in
the current collection, the record on screen is not taken back, and the calls of the library
spare the search. -/
def KeepsMark (manager : Manager) (op : ScreenOp) : Prop :=
  match op with
  | .nextWall draws => ∀ spot item, manager.servedSpot draws = some spot →
    manager.cache.itemAt spot = some item → manager.cache.currentSpot item.cacheValue = some spot
  | .previousWall => manager.previous = []
  | .changeActive _ | .renameCollection _ _ | .removeCollection _ | .removeWallpaper _ _
  | .moveWallpaper _ _ _ | .mergeCollection _ _ =>
    ∀ call wall, op.call = some call → manager.lastWallpaper = some wall → manager.cache.Spares wall call

theorem keepsMark_of_call {manager : Manager} {op : ScreenOp} {call : LibOp} {wall : Bytes}
    (kept : manager.KeepsMark op) (made : op.call = some call) (record : manager.lastWallpaper = some wall) :
    manager.cache.Spares wall call := by
  cases op with
  | nextWall | previousWall => cases made
  | changeActive | renameCollection | removeCollection | removeWallpaper | moveWallpaper | mergeCollection =>
    exact kept call wall made record

end Manager

namespace Screen

/-- There is nothing on screen and no record, or the search ends at the wallpaper on screen. -/
inductive InView (screen : Screen) : Prop
  | unseen (empty : screen.manager.previous = []) (nothing : screen.shown = none)
  | seen {wall : Bytes} {spot : Spot} (record : screen.manager.lastWallpaper = some wall)
      (shown : screen.shown = some spot) (found : screen.manager.cache.currentSpot wall = some spot)

theorem marksShown_of_inView {screen : Screen} (view : screen.InView) : screen.MarksShown := by
  unfold MarksShown
  cases view with
  | unseen empty nothing =>
    rw [nothing]
    have ignored : screen.manager.markFavorate = some screen.manager := by
      rw [Manager.markFavorate, empty]
      rfl
    exact ⟨screen.manager, ignored, .refl _, rfl, rfl⟩
  | seen record shown found =>
    rw [shown]
    exact Manager.markFavorate_of_found record found

/-- The step lemma for the calls of the library. -/
theorem inView_after {screen : Screen} {call : LibOp} {cache : CacheLib} {result : Expected}
    (view : screen.InView) (performed : screen.manager.cache.perform call = some (cache, result))
    (spares : ∀ wall, screen.manager.lastWallpaper = some wall → screen.manager.cache.Spares wall call) :
    (screen.after call (screen.manager.withCache (cache, result))).InView := by
  cases view with
  | unseen empty nothing =>
    cases result with
    | error failure => exact .unseen empty nothing
    | ok done => exact .unseen empty (congrArg (·.bind (screen.manager.cache.carried · call)) nothing)
  | seen record shown found =>
    cases result with
    | error failure =>
      refine .seen record shown (Eq.trans ?_ found)
      exact CacheLib.currentSpot_of_sameData (CacheLib.sameData_of_error performed)
    | ok done =>
      obtain ⟨spot, carried, ends⟩ := CacheLib.currentSpot_carried performed found (spares _ record)
      refine .seen record ?_ ends
      exact (congrArg (·.bind (screen.manager.cache.carried · call)) shown).trans carried

/-- The step lemma: a wallpaper in view stays in view. -/
theorem inView_step {screen next : Screen} {op : ScreenOp} (view : screen.InView)
    (kept : screen.manager.KeepsMark op) (taken : screen.step op = some next) : next.InView := by
  cases op with
  | nextWall draws =>
    obtain ⟨⟨manager, sent⟩, called, same⟩ := Option.map_eq_some_iff.mp taken
    rcases Manager.servedSpot_of_nextWall called with
      ⟨unserved, rfl⟩ | ⟨cache, idx, item, path, active, found, served, rfl, _⟩
    · simp only [unserved] at same
      exact same ▸ view
    · simp only [served] at same
      cases same
      have there : screen.manager.cache.itemAt
          { pos := find screen.manager.cache.cacheVec screen.manager.cache.activeName, idx } = some item :=
        CacheLib.itemAt_eq_some.mpr ⟨_, active, found⟩
      refine .seen (screen.manager.lastWallpaper_served idx path item) rfl ?_
      have inside := (List.getElem?_eq_some_iff.mp found).1
      have marked := CacheLib.setState_of_inside active inside .used
      exact (CacheLib.currentSpot_setState marked).trans (kept _ _ served there)
  | previousWall =>
    simp only [step, show screen.manager.previous = [] from kept] at taken
    cases taken
    exact view
  | changeActive | renameCollection | removeCollection | removeWallpaper | moveWallpaper | mergeCollection =>
    obtain ⟨result, performed, rfl⟩ := Option.map_eq_some_iff.mp ((step_of_call rfl).symm.trans taken)
    exact inView_after view performed (fun wall record => Manager.keepsMark_of_call kept rfl record)

/-- In a run from a manager without history whose calls keep the mark, `mark_favorate` marks
the wallpaper on screen in every state, and nothing before the first one. -/
theorem mark_favorate_marks_shown {manager : Manager} {ops : List ScreenOp} (fresh : manager.previous = [])
    (kept : Meets step (fun screen op => screen.manager.KeepsMark op) { manager } ops) :
    Throughout step MarksShown { manager } ops := by
  have start : InView { manager } := .unseen fresh rfl
  have views := throughout_of_meets (fun _ _ _ => inView_step) start kept
  exact views.imp (fun _ => marksShown_of_inView)

/-- Two wallpapers one after the other, with the active collection renamed in between. -/
theorem mark_favorate_marks_shown_two : ∃ final, run step
      { manager := Manager.ofItems [⟨ascii "a", .unused, 0⟩, ⟨ascii "b", .unused, 0⟩, ⟨ascii "c", .unused, 0⟩] }
      [.nextWall [1], .renameCollection ⟨ascii "nature", []⟩ ⟨ascii "city", []⟩, .nextWall [2]] = some final ∧
    final.shown = some { pos := 0, idx := 2 } ∧ final.MarksShown := by
  have reached : ∃ final, run step
      { manager := Manager.ofItems [⟨ascii "a", .unused, 0⟩, ⟨ascii "b", .unused, 0⟩, ⟨ascii "c", .unused, 0⟩] }
      [.nextWall [1], .renameCollection ⟨ascii "nature", []⟩ ⟨ascii "city", []⟩, .nextWall [2]] = some final ∧
    final.shown = some { pos := 0, idx := 2 } := ⟨_, rfl, rfl⟩
  obtain ⟨final, reached, shown⟩ := reached
  refine ⟨final, reached, shown, (mark_favorate_marks_shown rfl ?_).last reached⟩
  intro next taken
  refine ⟨?_, ?_⟩
  · intro spot item served found
    cases served
    cases found
    rfl
  · cases taken
    intro next taken
    refine ⟨?_, ?_⟩
    · intro call wall made _
      cases made
      trivial
    · cases taken
      intro next taken
      refine ⟨?_, trivial⟩
      intro spot item served found
      cases served
      cases found
      rfl

/-- One step back takes the record of the wallpaper on screen away, so that it is not marked.
When that wallpaper is removed, the end of the collection is written to. -/
theorem mark_favorate_misses_shown :
    (∃ final, run step { manager := Manager.ofItems [⟨ascii "a", .unused, 0⟩, ⟨ascii "b", .unused, 0⟩] }
        [.nextWall [1], .previousWall] = some final ∧ final.shown = some { pos := 0, idx := 1 } ∧
      final.manager.markFavorate = some final.manager ∧ ¬ final.MarksShown) ∧
    ∃ final, run step { manager := Manager.ofItems [⟨ascii "a", .unused, 0⟩, ⟨ascii "b", .unused, 0⟩] }
        [.nextWall [1], .removeWallpaper ⟨ascii "nature", []⟩ ⟨ascii "b", []⟩] = some final ∧
      final.shown = none ∧ final.manager.markFavorate = none ∧ ¬ final.MarksShown := by
  refine ⟨⟨_, rfl, rfl, rfl, ?_⟩, ⟨_, rfl, rfl, rfl, ?_⟩⟩
  · intro ⟨marked, set, same⟩
    cases set
    cases same
  · intro ⟨next, ends, _⟩
    cases ends

end Screen

end Wallchanger
