import Wallchanger.ChangeLib.ItemInvariant

/-! The active collection is kept twice, as a name and as an index. The runs that keep
both in step are those that take no entry out at or before the active one. -/

namespace Wallchanger

open Foundation

namespace CacheLib

/-- The active name, unless blank, is that of the entry at the active index, and
looking it up by name leads to the same entry. -/
def ActiveInStep (lib : CacheLib) : Prop :=
  lib.activeName ≠ [] → ∃ cache, lib.cacheVec[lib.current.toNat]? = some (lib.activeName, cache) ∧
    find lib.cacheVec lib.activeName = lib.current.toNat ∧
    lib.getCurrent = some cache.list ∧ lib.getCache ⟨lib.activeName, []⟩ = .ok cache.list

theorem activeInStep_iff (lib : CacheLib) : lib.ActiveInStep ↔ lib.directory.Tracked [] := by
  constructor
  · intro inStep named
    obtain ⟨cache, found, position, _⟩ := inStep named
    exact ⟨mem_keys_of_getElem? found, (find_eq_idxOf ..).symm.trans position⟩
  · intro tracked named
    obtain ⟨member, position⟩ : lib.activeName ∈ lib.names ∧
        lib.names.idxOf lib.activeName = lib.current.toNat := tracked named
    obtain ⟨cache, found⟩ := entry_at_find member
    have first : find lib.cacheVec lib.activeName = lib.current.toNat :=
      (find_eq_idxOf ..).trans position
    refine ⟨cache, first ▸ found, first, ?_, ?_⟩
    · rw [getCurrent, ← first, found]
      rfl
    · simp only [getCache, if_pos ((lib.existsCache_iff _).mpr member), found]

/-- A blank active name, or one listed at an index that `u32` holds. -/
def ActiveListed (lib : CacheLib) : Prop :=
  lib.activeName = [] ∨ (lib.activeName ∈ lib.names ∧ lib.names.idxOf lib.activeName < 2 ^ 32)

/-- A library new or just loaded is in step exactly if its active name is listed. -/
theorem activeInStep_start {lib : CacheLib} (start : lib = {} ∨ ∃ file, load file = .ok lib) :
    lib.ActiveInStep ↔ lib.ActiveListed := by
  have index : lib = {} ∨ lib.current =
      if lib.activeName ∈ lib.names then UInt32.ofNat (lib.names.idxOf lib.activeName) else 0 := by
    rcases start with empty | ⟨file, loaded⟩
    · exact .inl empty
    · rcases load_cases loaded with ⟨_, empty⟩ | ⟨_, _, _, _, _, same⟩
      · exact .inl empty
      · exact .inr same
  rw [activeInStep_iff]
  constructor
  · intro tracked
    by_cases blank : lib.activeName = []
    · exact .inl blank
    · obtain ⟨member, position⟩ : lib.activeName ∈ lib.names ∧
          lib.names.idxOf lib.activeName = lib.current.toNat := tracked blank
      exact .inr ⟨member, position ▸ lib.current.toNat_lt⟩
  · rintro (blank | ⟨member, small⟩)
    · exact fun named => absurd blank named
    · rcases index with empty | same
      · subst empty
        cases member
      · rw [if_pos member] at same
        intro _
        refine ⟨member, ?_⟩
        change lib.names.idxOf lib.activeName = lib.current.toNat
        rw [same, UInt32.toNat_ofNat', Nat.mod_eq_of_lt small]

/-- The condition on a step: no entry at or before the active one is taken out,
unless a merge puts the active name back at the very same index. -/
def KeepsActive (lib : CacheLib) (op : LibOp) : Prop := lib.directory.Tracks [] op.change

instance (lib : CacheLib) (op : LibOp) : Decidable (lib.KeepsActive op) :=
  inferInstanceAs (Decidable (lib.directory.Tracks [] op.change))

/-- One step, whatever its arguments. -/
theorem activeInStep_step {lib next : CacheLib} {op : LibOp} (inStep : lib.ActiveInStep)
    (keeps : lib.KeepsActive op) (taken : lib.step op = some next) : next.ActiveInStep := by
  rw [activeInStep_iff, directory_step taken]
  exact Directory.tracked_apply op.change ((activeInStep_iff lib).mp inStep) keeps

/-- Among distinct names only such a step keeps the active collection. -/
theorem activeInStep_step_iff {lib next : CacheLib} {op : LibOp} (distinct : lib.NamesDistinct)
    (terminated : op.Terminated) (inStep : lib.ActiveInStep) (taken : lib.step op = some next) :
    next.ActiveInStep ↔ lib.KeepsActive op := by
  refine ⟨fun after => ?_, fun keeps => activeInStep_step inStep keeps taken⟩
  rw [activeInStep_iff, directory_step taken] at after
  exact Directory.tracks_of_tracked op.change (LibOp.plain_of_terminated terminated) distinct
    ((activeInStep_iff lib).mp inStep) after

/-- The active collection of a run is right in all its states if the run starts
from a listed active name and every step keeps it; for distinct names and views
with a NUL behind them, only then. -/
theorem active_collection_throughout {start : CacheLib} {ops : List LibOp}
    (fresh : start = {} ∨ ∃ file, load file = .ok start) :
    (start.ActiveListed → Meets step KeepsActive start ops → Throughout step ActiveInStep start ops) ∧
      (start.NamesDistinct → (∀ op ∈ ops, op.Terminated) → Throughout step ActiveInStep start ops →
        start.ActiveListed ∧ Meets step KeepsActive start ops) := by
  constructor
  · intro listed meets
    have inStep := (activeInStep_start fresh).mpr listed
    exact throughout_of_meets (fun _ _ _ good keeps taken => activeInStep_step good keeps taken)
      inStep meets
  · intro distinct terminated all
    refine ⟨(activeInStep_start fresh).mp all.first, ?_⟩
    have permitted : Meets step (fun _ op => op.Terminated) start ops :=
      meets_of_forall (fun op member _ => terminated op member) start
    refine (throughout_iff_meets ?_ ?_ distinct all.first permitted).mp all
    · exact fun _ _ _ framed views good taken => activeInStep_step_iff framed views good taken
    · exact fun _ _ _ framed views taken => namesDistinct_step framed views taken

theorem active_collection_throughout_run :
    CacheLib.ActiveListed {} ∧
      Throughout step ActiveInStep {} [.insert (ascii "nature") {}, .insert (ascii "city") {},
        .changeActive ⟨ascii "nature", []⟩, .remove ⟨ascii "city", []⟩] :=
  ⟨.inl rfl, (active_collection_throughout (.inl rfl)).1 (.inl rfl) (by decide)⟩

/-- Removing an entry before the active one leaves the index past the end. -/
theorem remove_before_active :
    ∃ lib, run step {} [.insert (ascii "nature") {}, .insert (ascii "city") {},
        .changeActive ⟨ascii "city", []⟩, .remove ⟨ascii "nature", []⟩] = some lib ∧
      ¬ lib.ActiveInStep ∧ lib.getCurrent = none := by
  refine ⟨_, rfl, fun inStep => ?_, rfl⟩
  obtain ⟨_, found, _⟩ := inStep (by decide)
  cases found

/-! ### Save and reload -/

/-- The index `serialize` reads is in range; and where the active collection exists
and is saved, a reload has the same active name, and its current collection is that one. -/
def ActiveSurvives (lib : CacheLib) : Prop :=
  (lib.cacheVec ≠ [] → lib.current.toNat < lib.cacheVec.length) ∧
    (lib.activeName ∈ lib.names → ∀ out file saved, lib.serialize out file = some saved →
      out.opens = true → out.accepts = true → saved.ending = .completed →
      ∃ cache reloaded, lib.Collection lib.activeName cache ∧
        load saved.file = .ok reloaded ∧ reloaded.activeName = lib.activeName ∧
        reloaded.cacheVec[reloaded.current.toNat]? = some (lib.activeName, cache.reloaded) ∧
        reloaded.getCurrent = some cache.list)

/-- A completed save of a library with collections leaves its document. -/
theorem serialize_written {lib : CacheLib} {out : Output} {file : File} {saved : Saved}
    (nonempty : lib.cacheVec ≠ []) (outcome : lib.serialize out file = some saved)
    (opens : out.opens = true) (accepts : out.accepts = true) (completed : saved.ending = .completed) :
    ∃ store, lib.cacheVec[lib.current.toNat]? = some store ∧
      saved.file = some (.document (libraryDocument lib.cacheVec store.1)) := by
  obtain ⟨_, store, found, same⟩ := (serialize_eq_some nonempty out file saved).mp outcome
  rw [if_pos opens] at same
  subst same
  refine ⟨store, found, ?_⟩
  cases dumps : (libraryDocument lib.cacheVec store.1).dumpable with
  | false => simp [Output.write, dumps] at completed
  | true => simp [Output.write, dumps, accepts]

theorem activeSurvives_of_settled {lib : CacheLib} (settled : lib.directory.Settled)
    (distinct : lib.Everywhere ItemRule.distinctItems) : lib.ActiveSurvives := by
  have ⟨bounded, placed⟩ := settled
  constructor
  · intro nonempty
    have named : lib.names ≠ [] := by simpa [names, keys] using nonempty
    exact Nat.lt_of_lt_of_eq (bounded named) (length_keys lib.cacheVec)
  · intro member out file saved outcome opens accepts completed
    have position : lib.names.idxOf lib.activeName = lib.current.toNat := placed member
    have first : find lib.cacheVec lib.activeName = lib.current.toNat :=
      (find_eq_idxOf ..).trans position
    obtain ⟨cache, active⟩ := collection_of_mem member
    have entry : lib.cacheVec[lib.current.toNat]? = some (lib.activeName, cache) := first ▸ active
    have nonempty : lib.cacheVec ≠ [] := by
      intro empty
      simp [empty] at entry
    obtain ⟨store, found, document⟩ := serialize_written nonempty outcome opens accepts completed
    cases Option.some.inj (found.symm.trans entry)
    have index : (reloaded lib.cacheVec lib.activeName).current = lib.current := by
      change (if lib.activeName ∈ lib.names then _ else _) = _
      rw [if_pos member]
      exact (congrArg UInt32.ofNat position).trans UInt32.ofNat_toNat
    have kept : (reloaded lib.cacheVec lib.activeName).cacheVec[lib.current.toNat]? =
        some (lib.activeName, cache.reloaded) := by
      simp [reloaded, entry]
    have items : cache.reloaded.list = cache.list :=
      cache.reloaded_list_eq_iff.mpr (distinct _ active.mem)
    refine ⟨cache, reloaded lib.cacheVec lib.activeName, active, ?_, rfl, index.symm ▸ kept, ?_⟩
    · rw [document, load_document]
    · rw [getCurrent, index, kept, Option.map_some, items]

/-- The condition on a step: the index stays in range, and it stays that of the active
name as long as this one is listed; and no collection comes to have equal items, of which
a reload would drop the second. -/
def KeepsSettled (lib : CacheLib) (op : LibOp) : Prop :=
  lib.directory.Settles op.change ∧ lib.Keeps ItemRule.distinctItems op

theorem settled_step {lib next : CacheLib} {op : LibOp}
    (settled : lib.directory.Settled ∧ lib.Everywhere ItemRule.distinctItems) (keeps : lib.KeepsSettled op)
    (taken : lib.step op = some next) :
    next.directory.Settled ∧ next.Everywhere ItemRule.distinctItems := by
  refine ⟨?_, (everywhere_step_iff settled.2 taken).mpr keeps.2⟩
  rw [directory_step taken]
  exact Directory.settled_apply op.change settled.1 keeps.1

/-- The active collection survives a save in every state of a run of such steps. -/
theorem active_survives_throughout {ops : List LibOp} (meets : Meets step KeepsSettled {} ops) :
    Throughout step ActiveSurvives {} ops := by
  have start : (directory {}).Settled ∧ Everywhere ItemRule.distinctItems {} :=
    ⟨⟨fun named => absurd rfl named, fun member => by cases member⟩, fun _ member => by cases member⟩
  exact (throughout_of_meets (fun _ _ _ good keeps taken => settled_step good keeps taken)
    start meets).imp (fun _ good => activeSurvives_of_settled good.1 good.2)

/-- Two collections of one wallpaper each are merged under the name of the active one. -/
theorem active_survives_throughout_merged :
    Throughout step ActiveSurvives {} [.insert (ascii "nature") lake,
      .insert (ascii "city") (Cache.insert {} (ascii "tower.png") 8), .changeActive ⟨ascii "nature", []⟩,
      .mergeCache ⟨ascii "nature", []⟩ ⟨ascii "city", []⟩] := by
  let ops : List LibOp := [.insert (ascii "nature") lake,
    .insert (ascii "city") (Cache.insert {} (ascii "tower.png") 8), .changeActive ⟨ascii "nature", []⟩,
    .mergeCache ⟨ascii "nature", []⟩ ⟨ascii "city", []⟩]
  have settles : Meets step (fun lib op => lib.directory.Settles op.change) {} ops := by decide
  have distinct : Meets step (Keeps ItemRule.distinctItems) {} ops := by
    rintro _ ⟨⟩
    refine ⟨fun _ => (by decide : lake.list.Nodup), ?_⟩
    rintro _ ⟨⟩
    refine ⟨fun _ => (by decide : (Cache.insert {} (ascii "tower.png") 8).list.Nodup), ?_⟩
    rintro _ ⟨⟩
    refine ⟨trivial, ?_⟩
    rintro _ ⟨⟩
    refine ⟨fun _ first second left right => ?_, trivial⟩
    cases left
    cases right
    exact (by decide : ∀ item ∈ lake.list, item ∉ (Cache.insert {} (ascii "tower.png") 8).list)
  exact active_survives_throughout (settles.and distinct)

/-- A removal before the active entry: the save reads past the end, so it has no outcome. -/
theorem save_reads_past_end :
    ∃ lib, run step {} [.insert (ascii "nature") {}, .insert (ascii "city") {},
        .changeActive ⟨ascii "city", []⟩, .remove ⟨ascii "nature", []⟩,
        .insertItem (ascii "city") (ascii "tower.png") 1] = some lib ∧
      ¬ lib.ActiveSurvives ∧ ∀ out file, lib.serialize out file = none := by
  refine ⟨_, rfl, fun survives => ?_, fun _ _ => rfl⟩
  exact absurd (survives.1 (by decide)) (by decide)

end CacheLib

end Wallchanger
