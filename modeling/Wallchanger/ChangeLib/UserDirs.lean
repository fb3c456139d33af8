import Wallchanger.ChangeLib.LinuxKnownFolders

/-! Which files the program survives reading, and what it reads from them. -/

namespace Wallchanger.LinuxKnownFolders

open Foundation

theorem ok_bind_iff {step : Except InitFault α} {rest : α → Except InitFault β} {final : β} :
    (step >>= rest) = .ok final ↔ ∃ next, step = .ok next ∧ rest next = .ok final := by
  cases step with
  | error fault => simp [bind, Except.bind]
  | ok next => simp [bind, Except.bind]

/-! ### The map -/

@[simp] theorem lookup_emplace (lookup : Lookup) (fld other : Folders) (path : Bytes) :
    (lookup.emplace fld path).lookup other =
      (lookup.lookup other).or (if other = fld then some path else none) := by
  unfold Lookup.emplace
  split
  · rename_i known
    by_cases same : other = fld
    · simp [same, known]
    · simp [same]
  · rw [List.lookup_append]
    by_cases same : other = fld
    · simp [same]
    · simp [same, List.lookup_cons, beq_eq_false_iff_ne.mpr same]

theorem lookup_foldl_emplace (entries lookup : Lookup) (fld : Folders) :
    (entries.foldl (fun lookup entry => lookup.emplace entry.1 entry.2) lookup).lookup fld =
      (lookup.lookup fld).or (entries.lookup fld) := by
  induction entries generalizing lookup with
  | nil => rw [List.lookup_nil, Option.or_none]; rfl
  | cons entry rest ih =>
    rw [List.foldl_cons, ih, lookup_emplace, Option.or_assoc]
    congr 1
    by_cases same : fld = entry.1
    · rw [same, if_pos rfl, Option.some_or]
      exact List.lookup_cons_self.symm
    · rw [if_neg same, Option.none_or, List.lookup_cons, beq_eq_false_iff_ne.mpr same]

theorem subscript_of_some {lookup : Lookup} (known : lookup.lookup fld = some path) :
    lookup.subscript fld = (lookup, path) := by
  rw [Lookup.subscript, known]

/-- Whether an entry stands in the map. -/
def Extends (lookup next : Lookup) : Prop :=
  ∀ fld path, lookup.lookup fld = some path → next.lookup fld = some path

theorem extends_assign (lookup : Lookup) (first second : Bytes) : Extends lookup (assign lookup first second) := by
  intro fld path known
  unfold assign
  generalize UserDir.all = dirs
  induction dirs generalizing lookup with
  | nil => exact known
  | cons dir rest ih =>
    refine ih _ ?_
    dsimp only
    split
    · rw [lookup_emplace, known, Option.some_or]
    · exact known

/-! ### One line -/

theorem eraseFound_ok_iff {mark : UInt8} {text next : Bytes} :
    eraseFound mark text = .ok next ↔ mark ∈ text ∧ text.erase mark = next := by
  unfold eraseFound
  by_cases found : mark ∈ text
  · simp [found]
  · simp [found]

theorem eraseFound_twice_iff {mark : UInt8} {text : Bytes} :
    (∃ next, (eraseFound mark text >>= eraseFound mark) = .ok next) ↔ 2 ≤ text.count mark := by
  have marked (text : Bytes) : mark ∈ text ↔ 1 ≤ text.count mark := List.count_pos_iff.symm
  have counted : (text.erase mark).count mark = text.count mark - 1 := List.count_erase_self
  constructor
  · intro ⟨next, both⟩
    obtain ⟨one, first, second⟩ := ok_bind_iff.mp both
    obtain ⟨found, rfl⟩ := eraseFound_ok_iff.mp first
    have again := (marked _).mp (eraseFound_ok_iff.mp second).1
    omega
  · intro twice
    have found := (marked text).mpr (by omega)
    have again := (marked (text.erase mark)).mpr (by omega)
    exact ⟨_, ok_bind_iff.mpr ⟨_, eraseFound_ok_iff.mpr ⟨found, rfl⟩, eraseFound_ok_iff.mpr ⟨again, rfl⟩⟩⟩

/-- What the value of a line needs: the home directory somewhere, and two quotes, be they
those of the home directory. -/
def Substitutable (home value : Bytes) : Prop :=
  ascii "$HOME" <:+: value ∧ 2 ≤ value.count 0x22 + home.count 0x22

theorem substitute_ok_iff {home value : Bytes} :
    (∃ second, substitute home value = .ok second) ↔ Substitutable home value := by
  cases place : findSub (ascii "$HOME") value with
  | none =>
    have absent : ¬ ascii "$HOME" <:+: value := by
      rw [← findSub_isSome_iff, place]
      exact Bool.false_ne_true
    refine iff_of_false ?_ (fun usable => absurd usable.1 absent)
    intro ⟨second, substituted⟩
    rw [substitute, place] at substituted
    cases substituted
  | some pos =>
    have present : ascii "$HOME" <:+: value := findSub_isSome_iff.mp (by rw [place]; rfl)
    obtain ⟨before, after, same, length⟩ := findSub_eq_some place
    have front : value.take pos = before := by rw [same, ← length, List.take_left]
    have back : value.drop (pos + 5) = after := by
      rw [same, ← List.append_assoc]
      exact List.drop_left' (by rw [List.length_append, length]; rfl)
    have counted : (before ++ (home ++ after)).count 0x22 = value.count 0x22 + home.count 0x22 := by
      have plain : (ascii "$HOME").count 0x22 = 0 := rfl
      simp only [same, List.count_append, plain]
      omega
    have steps : substitute home value =
        eraseFound 0x22 (before ++ (home ++ after)) >>= eraseFound 0x22 := by
      rw [substitute, place, ← front, ← back]
      rfl
    rw [steps, eraseFound_twice_iff, counted]
    exact (and_iff_right present).symm

/-- A line the program survives: one with a mark of a comment anywhere, or one whose
second field can be used. -/
def Survivable (home line : Bytes) : Prop :=
  0x23 ∈ line ∨ ∃ first value, TwoFields 0x3D line first value ∧ Substitutable home value

theorem readLine_of_twoFields {lookup : Lookup} (known : lookup.lookup .home = some home)
    (live : 0x23 ∉ line) (two : TwoFields 0x3D line first value) :
    readLine lookup line = (substitute home value).map (assign lookup first) := by
  obtain ⟨others, split⟩ := fields_of_twoFields two
  have read : (!line.contains 0x23) = true := by simpa using live
  rw [readLine, if_pos read, split, subscript_of_some known]
  change (substitute home value >>= fun second => pure (assign lookup first second)) = _
  cases substitute home value <;> rfl

theorem readLine_comment {lookup : Lookup} (comment : 0x23 ∈ line) : readLine lookup line = .ok lookup := by
  rw [readLine, if_neg (by simpa using comment)]
  rfl

theorem readLine_of_short {lookup : Lookup} (live : 0x23 ∉ line) (short : (fields 0x3D line)[1]? = none) :
    readLine lookup line = .error .outOfRange := by
  have read : (!line.contains 0x23) = true := by simpa using live
  rw [readLine, if_pos read]
  match split : fields 0x3D line with
  | [] => rfl
  | [first] => rfl
  | _ :: _ :: _ =>
    rw [split] at short
    cases short

theorem readLine_ok_iff {lookup : Lookup} (known : lookup.lookup .home = some home) :
    (∃ next, readLine lookup line = .ok next) ↔ Survivable home line := by
  by_cases comment : 0x23 ∈ line
  · exact iff_of_true ⟨lookup, readLine_comment comment⟩ (.inl comment)
  rcases twoFields_or 0x3D line with short | ⟨first, value, two⟩
  · refine iff_of_false ?_ ?_
    · rw [readLine_of_short comment short]
      exact fun ⟨_, finished⟩ => nomatch finished
    · rintro (marked | ⟨first, value, two, _⟩)
      · exact comment marked
      · obtain ⟨others, split⟩ := fields_of_twoFields two
        rw [split] at short
        cases short
  · rw [readLine_of_twoFields known comment two]
    constructor
    · intro ⟨next, finished⟩
      cases substituted : substitute home value with
      | error fault => rw [substituted] at finished; cases finished
      | ok second => exact .inr ⟨first, value, two, substitute_ok_iff.mp ⟨second, substituted⟩⟩
    · rintro (marked | ⟨first', value', two', usable⟩)
      · exact absurd marked comment
      · obtain ⟨rfl, rfl⟩ := two.unique two'
        obtain ⟨second, substituted⟩ := substitute_ok_iff.mpr usable
        exact ⟨assign lookup first second, by rw [substituted]; rfl⟩

/-- A line adds folders to the map, and changes none. -/
theorem extends_readLine {lookup next : Lookup} (known : lookup.lookup .home = some home)
    (taken : readLine lookup line = .ok next) : Extends lookup next := by
  by_cases comment : 0x23 ∈ line
  · cases (readLine_comment comment).symm.trans taken
    exact fun _ _ found => found
  rcases twoFields_or 0x3D line with short | ⟨first, value, two⟩
  · exact nomatch (readLine_of_short comment short).symm.trans taken
  · rw [readLine_of_twoFields known comment two] at taken
    cases substituted : substitute home value with
    | error fault => rw [substituted] at taken; cases taken
    | ok second =>
      rw [substituted] at taken
      cases taken
      exact extends_assign lookup first second

/-! ### The file -/

/-- The lines are read through exactly if the program survives each of them. -/
theorem readLines_ok_iff {lookup : Lookup} (known : lookup.lookup .home = some home) (content : List Bytes) :
    (∃ final, content.foldlM readLine lookup = .ok final) ↔ ∀ line ∈ content, Survivable home line := by
  induction content generalizing lookup with
  | nil => exact iff_of_true ⟨lookup, rfl⟩ (fun _ none_ => absurd none_ List.not_mem_nil)
  | cons line rest ih =>
    rw [List.foldlM_cons, List.forall_mem_cons, ← readLine_ok_iff known]
    constructor
    · intro ⟨final, finished⟩
      obtain ⟨next, taken, later⟩ := ok_bind_iff.mp finished
      exact ⟨⟨next, taken⟩, (ih (extends_readLine known taken _ _ known)).mp ⟨final, later⟩⟩
    · intro ⟨⟨next, taken⟩, survivable⟩
      obtain ⟨final, later⟩ := (ih (extends_readLine known taken _ _ known)).mpr survivable
      exact ⟨final, ok_bind_iff.mpr ⟨next, taken, later⟩⟩

theorem extends_readLines {lookup final : Lookup} (known : lookup.lookup .home = some home)
    {content : List Bytes} (finished : content.foldlM readLine lookup = .ok final) : Extends lookup final := by
  induction content generalizing lookup with
  | nil =>
    cases finished
    exact fun _ _ found => found
  | cons line rest ih =>
    rw [List.foldlM_cons] at finished
    obtain ⟨next, taken, later⟩ := ok_bind_iff.mp finished
    have step := extends_readLine known taken
    exact fun fld path found => ih (step _ _ known) later fld path (step fld path found)

/-- The map before the file is read. -/
def initial (host : Host) : Lookup :=
  (baseFolders host).foldl (fun lookup entry => lookup.emplace entry.1 entry.2) []

theorem lookup_initial (host : Host) (fld : Folders) :
    (initial host).lookup fld = (baseFolders host).lookup fld := by
  rw [initial, lookup_foldl_emplace, List.lookup_nil, Option.none_or]

theorem home_initial (host : Host) : (initial host).lookup .home = some host.home := by
  rw [lookup_initial]
  exact List.lookup_cons_self

/-- What the file holds that is read, if there is one. -/
def userDirs (host : Host) : Option Bytes := host.files (host.home ++ ascii "/.config/user-dirs.dirs")

theorem init_eq (host : Host) : init host [] =
    match userDirs host with
    | some content => (lines 0x0A content).foldlM readLine (initial host)
    | none => .ok (initial host) := by
  have opened : (initial host).subscript .home = (initial host, host.home) :=
    subscript_of_some (home_initial host)
  unfold initial at opened ⊢
  simp only [init, opened]
  rfl

/-- The first call of any of the functions comes back with an answer. -/
structure Starts (host : Host) : Prop where
  init : ∃ lookup, init host [] = .ok lookup
  linuxGetPath : ∀ fld, ∃ found, linuxGetPath host [] fld = .ok found
  dataDirectory : ∃ lookup, dataDirectory host [] =
    .ok (lookup, host.home ++ ascii "/.local/share/wallchanger")

theorem init_ok_iff (host : Host) : (∃ lookup, init host [] = .ok lookup) ↔
    ∀ content, userDirs host = some content → ∀ line ∈ lines 0x0A content, Survivable host.home line := by
  rw [init_eq]
  cases userDirs host with
  | none => exact iff_of_true ⟨initial host, rfl⟩ (fun _ none_ => nomatch none_)
  | some content =>
    refine (readLines_ok_iff (home_initial host) (lines 0x0A content)).trans ?_
    simp only [Option.some.injEq, forall_eq']

theorem extends_init {host : Host} {lookup : Lookup} (done : init host [] = .ok lookup) :
    Extends (initial host) lookup := by
  rw [init_eq] at done
  split at done
  · exact extends_readLines (home_initial host) done
  · rw [← Except.ok.inj done]
    exact fun _ _ found => found

/-- The program starts exactly if it survives every line of the file. -/
theorem starts_iff (host : Host) : Starts host ↔
    ∀ content, userDirs host = some content → ∀ line ∈ lines 0x0A content, Survivable host.home line := by
  rw [← init_ok_iff]
  constructor
  · exact Starts.init
  · intro ⟨lookup, done⟩
    have data : lookup.lookup .data = some (host.home ++ ascii "/.local/share") := by
      refine extends_init done _ _ ?_
      rw [lookup_initial]
      rfl
    have path (fld : Folders) : linuxGetPath host [] fld = .ok (lookup.subscript fld) := by
      simp only [linuxGetPath, List.isEmpty_nil, if_true, done]
      rfl
    refine ⟨⟨lookup, done⟩, fun fld => ⟨_, path fld⟩, lookup, ?_⟩
    rw [LinuxKnownFolders.dataDirectory, path, subscript_of_some data]
    change Except.ok (lookup, (host.home ++ ascii "/.local/share") ++ ascii "/wallchanger") = _
    rw [List.append_assoc]
    rfl

/-- An empty line has no fields. -/
theorem blank_line_stops :
    let host : Host := ⟨ascii "/home/u", ascii "/", fun _ => some [0x0A]⟩
    init host [] = .error .outOfRange ∧ ¬ Starts host := by
  have failed : init ⟨ascii "/home/u", ascii "/", fun _ => some [0x0A]⟩ [] = .error .outOfRange := by
    have content : lines 0x0A [0x0A] = ([[]] : List Bytes) := rfl
    rw [init_eq]
    change (lines 0x0A [0x0A]).foldlM readLine (initial _) = _
    rw [content, List.foldlM_cons, readLine_of_short List.not_mem_nil rfl]
    rfl
  exact ⟨failed, fun starts => by obtain ⟨_, done⟩ := starts.init; cases failed.symm.trans done⟩

end Wallchanger.LinuxKnownFolders
