import Mathlib.Data.List.Nodup
import Wallchanger.ChangeLib.UserDirs

/-! Files of comments and entries below the home directory, and the folders they set. -/

namespace Wallchanger.LinuxKnownFolders

open Foundation

/-- A line with what follows the mark of a comment, or with what an entry has between
`$HOME/` and the closing quote. -/
inductive DirsLine where
  | comment (text : Bytes)
  | entry (dir : UserDir) (rest : Bytes)
deriving DecidableEq

namespace DirsLine

def text : DirsLine → Bytes
  | comment text => 0x23 :: text
  | entry dir rest => dir.name ++ 0x3D :: (0x22 :: (ascii "$HOME" ++ 0x2F :: (rest ++ [0x22])))

def restOf (dir : UserDir) : DirsLine → Option Bytes
  | comment _ => none
  | entry other rest => if other = dir then some rest else none

end DirsLine

/-- The rest of the first line with an entry. -/
def firstRest (dir : UserDir) (content : List DirsLine) : Option Bytes :=
  content.findSome? (DirsLine.restOf dir)

/-- Every variable that occurs gives its folder by its first line, and the folders set
before stay. -/
def ReadCorrectly (host : Host) (content : List DirsLine) : Prop :=
  ∃ lookup, init host [] = .ok lookup ∧ Extends (baseFolders host) lookup ∧
    ∀ dir rest, firstRest dir content = some rest →
      lookup.lookup dir.folder = some (host.home ++ 0x2F :: rest)

/-! ### One line -/

theorem mem_all (dir : UserDir) : dir ∈ UserDir.all := by
  cases dir <;> simp [UserDir.all]

theorem names_distinct : (UserDir.all.map UserDir.name).Nodup := by decide

theorem name_inj {dir other : UserDir} (same : dir.name = other.name) : dir = other :=
  List.inj_on_of_nodup_map names_distinct (mem_all dir) (mem_all other) same

theorem folder_inj {dir other : UserDir} (same : dir.folder = other.folder) : dir = other := by
  have distinct : (UserDir.all.map UserDir.folder).Nodup := by decide
  exact List.inj_on_of_nodup_map distinct (mem_all dir) (mem_all other) same

/-- The fixed parts of an entry hold none of the marks. -/
theorem fixed_parts_clean (dir : UserDir) (mark : UInt8) (marks : mark ∈ [0x22, 0x23, 0x3D]) :
    mark ∉ dir.name ∧ mark ∉ ascii "$HOME" := by
  have names : ∀ dir ∈ UserDir.all, 0x22 ∉ dir.name ∧ 0x23 ∉ dir.name ∧ 0x3D ∉ dir.name := by decide
  obtain ⟨quote, hash, delimiter⟩ := names dir (mem_all dir)
  simp only [List.mem_cons, List.not_mem_nil, or_false] at marks
  obtain rfl | rfl | rfl := marks
  · exact ⟨quote, by decide⟩
  · exact ⟨hash, by decide⟩
  · exact ⟨delimiter, by decide⟩

theorem assign_name (lookup : Lookup) (dir : UserDir) (second : Bytes) :
    assign lookup dir.name second = lookup.emplace dir.folder second := by
  have compared (other : UserDir) : dir.name = other.name ↔ dir = other := ⟨name_inj, congrArg UserDir.name⟩
  simp only [assign, compared]
  cases dir <;> rfl

theorem substitute_entry {home rest : Bytes} (plain : 0x22 ∉ home) (quoteless : 0x22 ∉ rest) :
    substitute home (0x22 :: (ascii "$HOME" ++ 0x2F :: (rest ++ [0x22]))) = .ok (home ++ 0x2F :: rest) := by
  have place : findSub (ascii "$HOME") (0x22 :: (ascii "$HOME" ++ 0x2F :: (rest ++ [0x22]))) = some 1 := by
    have elsewhere : (ascii "$HOME").isPrefixOf (0x22 :: (ascii "$HOME" ++ 0x2F :: (rest ++ [0x22]))) =
      false := rfl
    rw [findSub, elsewhere, if_neg Bool.false_ne_true, findSub_append]
    rfl
  have opened : (0x22 :: (home ++ 0x2F :: (rest ++ [0x22]))).erase 0x22 =
      home ++ 0x2F :: (rest ++ [0x22]) := List.erase_cons_head _ _
  have closed : (home ++ 0x2F :: (rest ++ [0x22])).erase 0x22 = home ++ 0x2F :: rest := by
    rw [List.erase_append_right _ plain, List.erase_cons_tail (by decide),
      List.erase_append_right _ quoteless, List.erase_cons_head, List.append_nil]
  have last : 0x22 ∈ home ++ 0x2F :: (rest ++ [0x22]) := by simp
  have steps : substitute home (0x22 :: (ascii "$HOME" ++ 0x2F :: (rest ++ [0x22]))) =
      eraseFound 0x22 (0x22 :: (home ++ 0x2F :: (rest ++ [0x22]))) >>= eraseFound 0x22 := by
    rw [substitute, place]
    rfl
  rw [steps]
  refine ok_bind_iff.mpr ⟨_, eraseFound_ok_iff.mpr ⟨List.mem_cons_self, opened⟩, ?_⟩
  exact eraseFound_ok_iff.mpr ⟨last, closed⟩

/-- The mark of a comment stands in an entry if it stands in the rest. -/
theorem mark_mem_entry (dir : UserDir) (rest : Bytes) : 0x23 ∈ (DirsLine.entry dir rest).text ↔ 0x23 ∈ rest := by
  have ⟨inName, inHome⟩ := fixed_parts_clean dir 0x23 (by simp)
  simp [DirsLine.text, inName, inHome]

theorem readLine_entry {lookup : Lookup} (known : lookup.lookup .home = some home) (plain : 0x22 ∉ home)
    (dir : UserDir) {rest : Bytes} (quoteless : 0x22 ∉ rest) (live : 0x23 ∉ rest) (whole : 0x3D ∉ rest) :
    readLine lookup (DirsLine.entry dir rest).text =
      .ok (lookup.emplace dir.folder (home ++ 0x2F :: rest)) := by
  have unmarked := (mark_mem_entry dir rest).not.mpr live
  have ⟨inName, inHome⟩ := fixed_parts_clean dir 0x3D (by simp)
  have two : TwoFields 0x3D (DirsLine.entry dir rest).text dir.name
      (0x22 :: (ascii "$HOME" ++ 0x2F :: (rest ++ [0x22]))) :=
    .ended rfl inName (by simp [inHome, whole])
  rw [readLine_of_twoFields known unmarked two, substitute_entry plain quoteless, Except.map, assign_name]

/-- A delimiter in the rest leaves the closing quote outside the value. -/
theorem readLine_entry_cut {lookup : Lookup} (known : lookup.lookup .home = some home) (plain : 0x22 ∉ home)
    (dir : UserDir) {rest : Bytes} (quoteless : 0x22 ∉ rest) (live : 0x23 ∉ rest) (cut : 0x3D ∈ rest) :
    ¬ ∃ next, readLine lookup (DirsLine.entry dir rest).text = .ok next := by
  have unmarked := (mark_mem_entry dir rest).not.mpr live
  have ⟨inName, inHome⟩ := fixed_parts_clean dir 0x3D (by simp)
  obtain ⟨front, back, same, whole⟩ := List.eq_append_cons_of_mem cut
  have two : TwoFields 0x3D (DirsLine.entry dir rest).text dir.name
      (0x22 :: (ascii "$HOME" ++ 0x2F :: front)) :=
    .delimited (back ++ [0x22]) (by simp [DirsLine.text, same]) inName (by simp [inHome, whole])
  rw [readLine_ok_iff known]
  rintro (marked | ⟨first, value, two', usable⟩)
  · exact unmarked marked
  · obtain ⟨rfl, rfl⟩ := two.unique two'
    have single : (0x22 :: (ascii "$HOME" ++ 0x2F :: front)).count 0x22 = 1 := by
      have opening : 0x22 ∉ ascii "$HOME" ++ 0x2F :: front := by
        have fore : 0x22 ∉ front := fun member => quoteless (same ▸ List.mem_append_left _ member)
        simp [(fixed_parts_clean dir 0x22 (by simp)).2, fore]
      rw [List.count_cons_self, List.count_eq_zero.mpr opening]
    have none_ : home.count 0x22 = 0 := List.count_eq_zero.mpr plain
    have twice := usable.2
    omega

/-! ### The file -/

/-- The lines that are not taken for comments. -/
def live (content : List DirsLine) : List DirsLine := content.filter (fun line => !line.text.contains 0x23)

/-- No entry that is read has a delimiter in its rest. -/
def Whole (content : List DirsLine) : Prop :=
  ∀ dir rest, .entry dir rest ∈ content → 0x23 ∉ rest → 0x3D ∉ rest

theorem whole_of_read {home : Bytes} (plain : 0x22 ∉ home) {content : List DirsLine}
    (quoteless : ∀ dir rest, .entry dir rest ∈ content → 0x22 ∉ rest) {lookup final : Lookup}
    (known : lookup.lookup .home = some home)
    (finished : (content.map DirsLine.text).foldlM readLine lookup = .ok final) : Whole content := by
  intro dir rest member live cut
  have survivable := (readLines_ok_iff known _).mp ⟨final, finished⟩ _ (List.mem_map_of_mem member)
  exact readLine_entry_cut known plain dir (quoteless dir rest member) live cut
    ((readLine_ok_iff known).mpr survivable)

/-- The folder of a variable is the one in its first line that is read. -/
theorem readLines_of_whole {home : Bytes} (plain : 0x22 ∉ home) {content : List DirsLine}
    (quoteless : ∀ dir rest, .entry dir rest ∈ content → 0x22 ∉ rest) (whole : Whole content)
    {lookup : Lookup} (known : lookup.lookup .home = some home) :
    ∃ final, (content.map DirsLine.text).foldlM readLine lookup = .ok final ∧
      ∀ dir : UserDir, final.lookup dir.folder = (lookup.lookup dir.folder).or
        ((firstRest dir (live content)).map (fun rest => home ++ 0x2F :: rest)) := by
  induction content generalizing lookup with
  | nil => exact ⟨lookup, rfl, fun dir => (Option.or_none).symm⟩
  | cons line content ih =>
    have later {next : Lookup} := @ih (fun dir rest member => quoteless dir rest (.tail _ member))
      (fun dir rest member => whole dir rest (.tail _ member)) next
    rw [List.map_cons, List.foldlM_cons]
    by_cases marked : 0x23 ∈ line.text
    · obtain ⟨final, finished, folders⟩ := later known
      rw [readLine_comment marked]
      refine ⟨final, finished, fun dir => ?_⟩
      have skipped : live (line :: content) = live content := List.filter_cons_of_neg (by simpa using marked)
      rw [folders, skipped]
    · have kept : live (line :: content) = line :: live content :=
        List.filter_cons_of_pos (by simpa using marked)
      cases line with
      | comment text => exact absurd List.mem_cons_self marked
      | entry dir rest =>
        have unmarked := (mark_mem_entry dir rest).not.mp marked
        have step := readLine_entry known plain dir (quoteless dir rest List.mem_cons_self) unmarked
          (whole dir rest List.mem_cons_self unmarked)
        have still : (lookup.emplace dir.folder (home ++ 0x2F :: rest)).lookup .home = some home := by
          rw [lookup_emplace, known, Option.some_or]
        obtain ⟨final, finished, folders⟩ := later still
        rw [step]
        refine ⟨final, finished, fun other => ?_⟩
        rw [folders, lookup_emplace, kept, Option.or_assoc]
        congr 1
        simp only [firstRest, List.findSome?_cons, DirsLine.restOf]
        by_cases same : dir = other
        · simp [same]
        · have apart : other.folder ≠ dir.folder := fun equal => same (folder_inj equal).symm
          simp [same, apart]

theorem restOf_eq_some {dir : UserDir} {line : DirsLine} (found : line.restOf dir = some rest) :
    line = .entry dir rest := by
  cases line with
  | comment text => cases found
  | entry other rest =>
    simp only [DirsLine.restOf, Option.ite_none_right_eq_some, Option.some.injEq] at found
    rw [found.1, found.2]

theorem mem_of_firstRest {dir : UserDir} {content : List DirsLine} {rest : Bytes}
    (found : firstRest dir content = some rest) : .entry dir rest ∈ content := by
  obtain ⟨line, member, here⟩ := List.exists_of_findSome?_eq_some found
  exact restOf_eq_some here ▸ member

/-- The first line of a variable is its first line that is read unless it is taken for a
comment. -/
theorem firstRest_live {dir : UserDir} {content : List DirsLine} {rest : Bytes}
    (found : firstRest dir content = some rest) : firstRest dir (live content) = some rest ↔ 0x23 ∉ rest := by
  constructor
  · intro read
    have unmarked := (List.mem_filter.mp (mem_of_firstRest read)).2
    exact (mark_mem_entry dir rest).not.mp (by simpa using unmarked)
  · intro unmarked
    induction content with
    | nil => cases found
    | cons line content ih =>
      simp only [firstRest, List.findSome?_cons] at found
      cases here : line.restOf dir with
      | some first =>
        rw [here] at found
        cases found
        have kept : live (line :: content) = line :: live content := by
          refine List.filter_cons_of_pos ?_
          rw [restOf_eq_some here]
          simpa using (mark_mem_entry dir rest).not.mpr unmarked
        rw [kept, firstRest, List.findSome?_cons, here]
      | none =>
        rw [here] at found
        unfold live
        rw [List.filter_cons]
        split
        · rw [firstRest, List.findSome?_cons, here]
          exact ih found
        · exact ih found

theorem initial_folder (host : Host) (dir : UserDir) : (initial host).lookup dir.folder = none := by
  rw [lookup_initial]
  cases dir <;> rfl

theorem init_entries {host : Host} {bytes : Bytes} (file : userDirs host = some bytes)
    {content : List DirsLine} (same : lines 0x0A bytes = content.map DirsLine.text) :
    init host [] = (content.map DirsLine.text).foldlM readLine (initial host) := by
  rw [init_eq, file]
  exact congrArg (·.foldlM readLine (initial host)) same

/-- The files of comments and entries that are read correctly. -/
theorem readCorrectly_iff {host : Host} (plain : 0x22 ∉ host.home) {content : List DirsLine}
    (quoteless : ∀ dir rest, .entry dir rest ∈ content → 0x22 ∉ rest) {bytes : Bytes}
    (file : userDirs host = some bytes) (same : lines 0x0A bytes = content.map DirsLine.text) :
    ReadCorrectly host content ↔
      Whole content ∧ ∀ dir rest, firstRest dir content = some rest → 0x23 ∉ rest := by
  have opened := init_entries file same
  have known := home_initial host
  constructor
  · intro ⟨lookup, done, _, right⟩
    have finished := opened.symm.trans done
    have whole := whole_of_read plain quoteless known finished
    obtain ⟨final, read, folders⟩ := readLines_of_whole plain quoteless whole known
    cases finished.symm.trans read
    refine ⟨whole, fun dir rest found => ?_⟩
    have folder := (folders dir).symm.trans (right dir rest found)
    rw [initial_folder, Option.none_or] at folder
    obtain ⟨first, read, path⟩ := Option.map_eq_some_iff.mp folder
    have rests := (List.cons.inj (List.append_cancel_left path)).2
    exact (firstRest_live found).mp (rests ▸ read)
  · intro ⟨whole, unmarked⟩
    obtain ⟨final, read, folders⟩ := readLines_of_whole plain quoteless whole known
    have done := opened.trans read
    refine ⟨final, done, fun fld path found => ?_, fun dir rest found => ?_⟩
    · exact extends_init done fld path ((lookup_initial host fld).trans found)
    · have read := (firstRest_live found).mpr (unmarked dir rest found)
      rw [folders, initial_folder, read]
      rfl

/-- A machine with a file of some lines. -/
def withLines (home : Bytes) (content : List DirsLine) : Host where
  home
  currentPath := ascii "/"
  files _ := some ((content.map DirsLine.text).flatMap (· ++ [0x0A]))

/-- The folder after a delimiter takes its closing quote with it. -/
theorem delimiter_not_read : ¬ ReadCorrectly (withLines (ascii "/home/u") [.entry .music (ascii "a=b")])
    [.entry .music (ascii "a=b")] := by
  have clean : ∀ text ∈ [DirsLine.entry .music (ascii "a=b")].map DirsLine.text, 0x0A ∉ text := by decide
  have quoteless : ∀ dir rest, .entry dir rest ∈ [DirsLine.entry .music (ascii "a=b")] → 0x22 ∉ rest := by
    intro dir rest member
    cases List.mem_singleton.mp member
    decide
  intro ⟨lookup, done, _⟩
  have finished := (init_entries rfl (lines_flatMap clean)).symm.trans done
  have whole := whole_of_read (by decide) quoteless (home_initial _) finished
  exact whole .music (ascii "a=b") List.mem_cons_self (by decide) (by decide)

/-- A comment and a folder with a space in its name. -/
theorem readCorrectly_music : ReadCorrectly
    (withLines (ascii "/home/u") [.comment (ascii " folders"), .entry .music (ascii "My Music")])
    [.comment (ascii " folders"), .entry .music (ascii "My Music")] := by
  have clean : ∀ text ∈ [DirsLine.comment (ascii " folders"), .entry .music (ascii "My Music")].map
      DirsLine.text, 0x0A ∉ text := by decide
  have single (dir : UserDir) (rest : Bytes) (member : .entry dir rest ∈
      [DirsLine.comment (ascii " folders"), .entry .music (ascii "My Music")]) :
      rest = ascii "My Music" := by
    cases List.mem_singleton.mp ((List.mem_cons.mp member).resolve_left DirsLine.noConfusion)
    rfl
  refine (readCorrectly_iff (by decide) ?_ rfl (lines_flatMap clean)).mpr ⟨?_, ?_⟩
  · intro dir rest member
    rw [single dir rest member]
    decide
  · intro dir rest member _
    rw [single dir rest member]
    decide
  · intro dir rest found
    rw [single dir rest (mem_of_firstRest found)]
    decide

end Wallchanger.LinuxKnownFolders
