import Wallchanger.ChangeLib.Json

/-! Files and what a save leaves in them. A save opens its file for output, which
empties it, and then writes a document, which may break off anywhere. -/

namespace Wallchanger

/-- The content of a file as the parser sees it: a JSON document, or a text that is
none, such as one whose output was broken off. -/
inductive FileContent where
  | document (value : Json)
  | fragment (text : Bytes)

/-- A file, if it exists. -/
abbrev File := Option FileContent

/-- How the output stream behaves: whether the file opens (and is truncated), whether
it takes all the text, and the text it holds where the output was broken off. -/
structure Output where
  opens : Bool := true
  accepts : Bool := true
  cutOff : Json → Bytes := fun _ => []

/-- A save completes or throws; an exception that meets `noexcept` ends the program. -/
inductive Ending where
  | completed
  | threw
  | terminated
deriving DecidableEq

/-- A file after a save, and how the save ended. -/
structure Saved where
  file : File
  ending : Ending

/-- Output to an opened, truncated file. Output throws at a string that is not UTF-8. -/
def Output.write (out : Output) (value : Json) : Saved where
  file := if value.dumpable && out.accepts then some (.document value)
    else some (.fragment (out.cutOff value))
  ending := if value.dumpable then .completed else .threw

/-- Output by a caller that does not ask whether the file opened: the file stays as it
is where it did not, but a string that is not UTF-8 throws all the same. -/
def Output.emit (out : Output) (value : Json) (file : File) : Saved :=
  if out.opens then out.write value
  else ⟨file, if value.dumpable then .completed else .threw⟩

theorem Output.write_file_complete {out : Output} {value : Json} (dumps : value.dumpable = true)
    (accepts : out.accepts = true) : (out.write value).file = some (.document value) := by
  simp [write, dumps, accepts]

theorem Output.write_file_completed {out : Output} {value : Json} (accepts : out.accepts = true)
    (completed : (out.write value).ending = .completed) :
    (out.write value).file = some (.document value) := by
  cases dumps : value.dumpable with
  | false => simp [write, dumps] at completed
  | true => exact write_file_complete dumps accepts

theorem Output.write_file_broken {out : Output} {value : Json}
    (broken : ¬ (value.dumpable = true ∧ out.accepts = true)) :
    (out.write value).file = some (.fragment (out.cutOff value)) := by
  rw [write, if_neg (by simpa using broken)]

end Wallchanger
