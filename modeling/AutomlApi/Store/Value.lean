import Mathlib.Data.String.Basic
import AutomlApi.Library.PyValues

/-! The Python values that resources and job checkpoints are made of: JSON values,
and the objects that `json.dumps` only takes through `_json_default` or not at
all. Dictionaries keep the order their keys were set in, as Python's do. -/

namespace AutomlApi.Store

/-- A Python value. `adapted v` is an object that `_json_default` turns into `v`
(a `datetime`, an `Enum` member); `object` is one that it rejects, with whether
`deepcopy` takes it. Of these objects, those that are `alike` are equal. -/
inductive Value where
  | null
  | bool (b : Bool)
  | int (i : ℤ)
  | float (x : PyFloat)
  | str (s : String)
  | list (items : List Value)
  | dict (fields : List (String × Value))
  | adapted (encoded : Value) (alike : ℕ)
  | object (copyable : Bool) (alike : ℕ)

/-- The fields of a resource, a mapping from names to values. -/
abbrev Fields := Dict String Value

namespace Value

instance : Inhabited Value := ⟨.null⟩

/-- The number that a value is. -/
def number : Value → Option PyFloat
  | .bool b => some (.finite (if b then 1 else 0))
  | .int i => some (.finite i)
  | .float x => some x
  | _ => none

/-- `==` of two numbers, or of two objects. -/
def equalAtoms (a b : Value) : Bool :=
  match a, b with
  | .adapted _ m, .adapted _ n | .object _ m, .object _ n => m == n
  | a, b =>
    match a.number, b.number with
    | some x, some y => x.eq y
    | _, _ => false

/-- The same NaN, which is not equal to itself. -/
def isObject : Value → Value → Bool
  | .float (.nan m), .float (.nan n) => m == n
  | _, _ => false

mutual

/-- Python's `==`, under which numbers of different types can agree, and dictionaries
whatever the order of their keys. -/
def equal : Value → Value → Bool
  | .null, .null => true
  | .str a, .str b => a == b
  | .list as, .list bs => equalItems as bs
  | .dict as, .dict bs => as.length == bs.length && equalFields as bs
  | a, b => equalAtoms a b

def equalItems : List Value → List Value → Bool
  | [], [] => true
  | a :: as, b :: bs => (isObject a b || equal a b) && equalItems as bs
  | _, _ => false

def equalFields : Fields → Fields → Bool
  | [], _ => true
  | (k, a) :: as, bs =>
    (match Dict.get bs k with
    | some b => isObject a b || equal a b
    | none => false) && equalFields as bs

end

/-- Only a text is equal to a text. -/
theorem equal_str {v : Value} {s : String} : v.equal (.str s) = true ↔ v = .str s := by
  cases v <;> simp [equal, equalAtoms, number]

/-- How a container compares its elements. -/
def within (a b : Value) : Bool := isObject a b || equal a b

theorem str_within (s : String) (v : Value) : (Value.str s).within v = (Value.str s).equal v := by cases v <;> rfl

example : (Value.dict [("x", .bool true), ("y", .null)]).equal (.dict [("y", .null), ("x", .int 1)]) := by decide

section Encoding

variable (order : Fields → Fields)

mutual

/-- A value as JSON has it, each dictionary in an order; nothing where an object has no form. -/
def encodeIn : Value → Option Value
  | .null => some .null
  | .bool b => some (.bool b)
  | .int i => some (.int i)
  -- the reader has one NaN
  | .float (.nan _) => some (.float (.nan 0))
  | .float x => some (.float x)
  | .str s => some (.str s)
  | .list items => (encodeItems items).map .list
  | .dict fields => (encodeEntries fields).map fun entries => .dict (order entries)
  | .adapted v _ => encodeIn v
  | .object .. => none

def encodeItems : List Value → Option (List Value)
  | [] => some []
  | v :: vs => (encodeIn v).bind fun w => (encodeItems vs).map (w :: ·)

def encodeEntries : Fields → Option Fields
  | [] => some []
  | (k, v) :: rest => (encodeIn v).bind fun w => (encodeEntries rest).map ((k, w) :: ·)

end

theorem encodeEntries_eq_traverse (fields : Fields) :
    encodeEntries order fields = Dict.traverse (encodeIn order) fields := by
  induction fields with
  | nil => rfl
  | cons p rest ih =>
    rw [encodeEntries, ih]
    rfl

end Encoding

/-- What `json.loads` reads back from the `json.dumps` of a value, with sorted keys;
nothing when `_json_default` raises its `TypeError`. -/
def encode : Value → Option Value := encodeIn Dict.sortKeys

/-- `jsonable_encoder`, which keeps the order of the keys. -/
def jsonable : Value → Option Value := encodeIn id

/-- A resource or a checkpoint, read back. -/
def encodeFields (fields : Fields) : Option Fields := Dict.written encode fields

theorem encode_dict (fields : Fields) : encode (.dict fields) = (encodeFields fields).map .dict := by
  rw [encode, encodeIn, encodeEntries_eq_traverse, encodeFields, Dict.written, Option.map_map]
  rfl

mutual

/-- Whether `deepcopy` takes the value. -/
def copyable : Value → Bool
  | .list items => copyableItems items
  | .dict fields => copyableFields fields
  | .adapted v _ => copyable v
  | .object c _ => c
  | _ => true

def copyableItems : List Value → Bool
  | [] => true
  | v :: vs => copyable v && copyableItems vs

def copyableFields : Fields → Bool
  | [] => true
  | (_, v) :: rest => copyable v && copyableFields rest

end

mutual

/-- Whether `json.dumps` takes the value without `_json_default`. -/
def plain : Value → Bool
  | .list items => plainItems items
  | .dict fields => plainFields fields
  | .adapted .. | .object .. => false
  | _ => true

def plainItems : List Value → Bool
  | [] => true
  | v :: vs => plain v && plainItems vs

def plainFields : Fields → Bool
  | [] => true
  | (_, v) :: rest => plain v && plainFields rest

end

/-- `isinstance(value, str) and value`. -/
def nonEmptyString? : Value → Option String
  | .str s => if s = "" then none else some s
  | _ => none

end Value

end AutomlApi.Store
