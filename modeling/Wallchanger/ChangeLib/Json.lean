import Wallchanger.ChangeLib.Text

/-! The JSON values the program writes and reads, with the accessors and the
conversions of the JSON library it uses. Strings are byte sequences: only the
output requires them to be UTF-8. -/

namespace Wallchanger

inductive Json where
  | null
  | boolean (value : Bool)
  | number (value : Int)
  | string (value : Bytes)
  | array (elements : List Json)
  | object (fields : List (String × Json))

/-- What failed parsing, access or conversion throws; `missingKey` is the assertion
of `operator[]` on a constant object without the key. -/
inductive JsonError where
  | parseError
  | typeError
  | outOfRange
  | missingKey
deriving DecidableEq

theorem bind_eq_ok {error : Type} {computation : Except error α} {continuation : α → Except error β} :
    computation >>= continuation = .ok result ↔
      ∃ value, computation = .ok value ∧ continuation value = .ok result := by
  cases computation with
  | error thrown =>
    constructor
    · intro absurdity
      cases absurdity
    · rintro ⟨_, absurdity, _⟩
      cases absurdity
  | ok value =>
    constructor
    · intro same
      exact ⟨value, rfl, same⟩
    · rintro ⟨_, same, later⟩
      cases same
      exact later

/-- A text literal's characters. -/
def ascii (text : String) : Bytes := text.toList.map (fun char => UInt8.ofNat char.toNat)

namespace Json

def isNull : Json → Bool
  | .null => true
  | _ => false

/-- `at(key)`. -/
def atKey : Json → String → Except JsonError Json
  | .object fields, key =>
    match fields.lookup key with
    | some value => .ok value
    | none => .error .outOfRange
  | _, _ => .error .typeError

/-- `operator[](key) const`. -/
def subscript : Json → String → Except JsonError Json
  | .object fields, key =>
    match fields.lookup key with
    | some value => .ok value
    | none => .error .missingKey
  | _, _ => .error .typeError

/-- `operator[](key)` on a mutable value, which inserts null for a missing key
and makes an object of a null value. -/
def subscriptMut : Json → String → Except JsonError Json
  | .object fields, key => .ok ((fields.lookup key).getD .null)
  | .null, _ => .ok .null
  | _, _ => .error .typeError

/-- What a range-based loop over a value visits. -/
def elements : Json → List Json
  | .null => []
  | .array elements => elements
  | .object fields => fields.map Prod.snd
  | other => [other]

/-- `at(index)`. -/
def atIndex : Json → Nat → Except JsonError Json
  | .array elements, index =>
    match elements[index]? with
    | some value => .ok value
    | none => .error .outOfRange
  | _, _ => .error .typeError

mutual

/-- The strings of a value, all of which its output has to decode. -/
def strings : Json → List Bytes
  | .string value => [value]
  | .array elements => stringsOfList elements
  | .object fields => stringsOfFields fields
  | _ => []

def stringsOfList : List Json → List Bytes
  | [] => []
  | value :: rest => value.strings ++ stringsOfList rest

def stringsOfFields : List (String × Json) → List Bytes
  | [] => []
  | (_, value) :: rest => value.strings ++ stringsOfFields rest

end

/-- Whether the output of a value completes: no string in it is invalid UTF-8. -/
def dumpable (value : Json) : Bool := value.strings.all validUtf8

theorem stringsOfList_map {α : Type} (items : List α) (encode : α → Json) :
    stringsOfList (items.map encode) = items.flatMap (fun item => (encode item).strings) := by
  induction items with
  | nil => rfl
  | cons item rest ih => simp [stringsOfList, ih]

end Json

/-- `adl_serializer`: the conversions `get` and assignment use for a type. -/
class AdlSerializer (α : Type) where
  toJson : α → Json
  fromJson : Json → Except JsonError α

export AdlSerializer (toJson fromJson)

/-- `std::string`; `std::filesystem::path` converts the same way. -/
instance : AdlSerializer Bytes where
  toJson := .string
  fromJson
    | .string value => .ok value
    | _ => .error .typeError

/-- Numbers and booleans convert to `u32` by a cast. -/
instance : AdlSerializer UInt32 where
  toJson value := .number value.toNat
  fromJson
    | .number value => .ok (UInt32.ofInt value)
    | .boolean value => .ok (if value then 1 else 0)
    | _ => .error .typeError

/-- `std::vector<T>` is written element by element and read from an array only. -/
def vectorToJson {α : Type} [AdlSerializer α] (items : List α) : Json := .array (items.map toJson)

def vectorFromJson {α : Type} [AdlSerializer α] : Json → Except JsonError (List α)
  | .array elements => elements.mapM fromJson
  | _ => .error .typeError

@[simp] theorem u32_fromJson_toJson (value : UInt32) : fromJson (toJson value) = .ok value := by
  have small : ((value.toNat : Int) % 2 ^ 32).toNat = value.toNat := by
    have bound := value.toNat_lt
    omega
  change Except.ok (UInt32.ofNat ((value.toNat : Int) % 2 ^ 32).toNat) = Except.ok value
  rw [small, UInt32.ofNat_toNat]

theorem mapM_ok {α β γ : Type} (items : List α) {encode : α → β} {decode : β → Except JsonError γ}
    {result : α → γ} (each : ∀ item ∈ items, decode (encode item) = .ok (result item)) :
    (items.map encode).mapM decode = .ok (items.map result) := by
  induction items with
  | nil => rfl
  | cons item rest ih =>
    rw [List.map_cons, List.mapM_cons, each item (by simp),
      ih (fun other member => each other (by simp [member]))]
    rfl

theorem mem_of_mapM_ok {α β : Type} {decode : α → Except JsonError β} {items : List α} {results : List β}
    (read : items.mapM decode = .ok results) :
    ∀ result ∈ results, ∃ item ∈ items, decode item = .ok result := by
  induction items generalizing results with
  | nil =>
    cases read
    intro _ member
    cases member
  | cons item rest ih =>
    rw [List.mapM_cons] at read
    obtain ⟨first, here, read⟩ := bind_eq_ok.mp read
    obtain ⟨later, there, read⟩ := bind_eq_ok.mp read
    cases read
    intro result member
    rcases List.mem_cons.mp member with rfl | member
    · exact ⟨item, List.mem_cons_self, here⟩
    · obtain ⟨other, listed, decoded⟩ := ih there result member
      exact ⟨other, List.mem_cons_of_mem _ listed, decoded⟩

/-- What every element keeps, reading all of them keeps. -/
theorem foldlM_ok_preserves {α σ : Type} {read : σ → α → Except JsonError σ} {holds : σ → Prop}
    (keeps : ∀ state item next, holds state → read state item = .ok next → holds next)
    {items : List α} {start final : σ} (begun : holds start)
    (done : items.foldlM read start = .ok final) : holds final := by
  induction items generalizing start with
  | nil =>
    cases done
    exact begun
  | cons item rest ih =>
    rw [List.foldlM_cons] at done
    obtain ⟨next, here, done⟩ := bind_eq_ok.mp done
    exact ih (keeps start item next begun here) done

/-- A list whose elements convert to and fro converts to and fro. -/
theorem vector_fromJson_toJson {α : Type} [AdlSerializer α] {items : List α} {result : α → α}
    (each : ∀ item ∈ items, fromJson (toJson item) = .ok (result item)) :
    vectorFromJson (vectorToJson items) = .ok (items.map result) := mapM_ok items each

theorem vector_dumpable {α : Type} [AdlSerializer α] (items : List α) :
    (vectorToJson items).dumpable = items.all (fun item => (toJson item).dumpable) := by
  rw [vectorToJson, Json.dumpable]
  change (Json.stringsOfList (items.map toJson)).all validUtf8 = _
  rw [Json.stringsOfList_map, List.all_flatMap]
  rfl

end Wallchanger
