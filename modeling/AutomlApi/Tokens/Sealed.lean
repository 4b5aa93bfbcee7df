import AutomlApi.Library.Ascii
import AutomlApi.Tokens.Bearer

/-! Texts that carry a JSON object and its code: what page cursors and download tickets have
in common. The decoder of Base64 passes over what it does not know, and the code is cut off
by its place. -/

namespace AutomlApi.Tokens

/-- A dict that `json.dumps` can write: its keys are strings, each once, and its floats are
finite or one of the names. -/
structure Payload where
  fields : Dict String Json
  keyed : (Json.object fields).Keyed
  readable : (Json.object fields).readable = true

def Payload.json (p : Payload) : Json := .object p.fields

/-- The dict as it is read back, with its keys in order. -/
def Payload.read (p : Payload) : Dict String Json := Json.sortKeys (Json.sortedFields p.fields)

/-- `json.dumps(payload, sort_keys=True).encode("utf-8")`. -/
def Payload.written (p : Payload) : Bytes := p.json.dumpsAscii.map fun c => UInt8.ofNat c.toNat

section Codec

variable (mac : Bytes → Digest)

/-- The payload and its code, in Base64 without padding. -/
def sealed (raw : Bytes) : Text := Base64.bare (Base64.encode (raw ++ (mac raw).1))

/-- What a text carries, if it is in ASCII and `urlsafe_b64decode` reads it with its padding. -/
def combinedOf (text : Text) : Option Bytes :=
  if text.any (128 ≤ ·) then none else Base64.decode false (text ++ Base64.padding text.length)

/-- `combined[:-32]`. -/
def rawOf (combined : Bytes) : Bytes := combined.take (combined.length - 32)

/-- `combined[-32:]`. -/
def suppliedOf (combined : Bytes) : Bytes := combined.drop (combined.length - 32)

/-- The text carries these bytes and their code. -/
def Carries (text : Text) (raw : Bytes) : Prop := combinedOf text = some (raw ++ (mac raw).1)

variable {mac}

theorem combinedOf_sealed (raw : Bytes) : combinedOf (sealed mac raw) = some (raw ++ (mac raw).1) := by
  have hascii : (sealed mac raw).any (128 ≤ ·) = false := by
    refine List.any_eq_false.mpr fun c hc => ?_
    rw [sealed, Base64.bare_encode] at hc
    have hlt := (Base64.ascii_of_symbols (Base64.symbols_stem _) hc).1
    simpa using hlt
  rw [combinedOf, hascii]
  exact Base64.decode_bare_encode false _

variable (mac) in
theorem carries_sealed (raw : Bytes) : Carries mac (sealed mac raw) raw := combinedOf_sealed raw

theorem rawOf_append (raw : Bytes) (code : Digest) : rawOf (raw ++ code.1) = raw := by
  have hlength : (raw ++ code.1).length - 32 = raw.length := by
    rw [List.length_append, code.2]
    omega
  rw [rawOf, hlength, List.take_left]

theorem suppliedOf_append (raw : Bytes) (code : Digest) : suppliedOf (raw ++ code.1) = code.1 := by
  have hlength : (raw ++ code.1).length - 32 = raw.length := by
    rw [List.length_append, code.2]
    omega
  rw [suppliedOf, hlength, List.drop_left]

/-- The code at the end is the one of what is before it exactly if there are such bytes. -/
theorem carries_iff {text : Text} {raw : Bytes} :
    Carries mac text raw ↔ ∃ combined, combinedOf text = some combined ∧ rawOf combined = raw ∧
      suppliedOf combined = (mac (rawOf combined)).1 := by
  constructor
  · intro h
    refine ⟨_, h, rawOf_append raw _, ?_⟩
    rw [rawOf_append, suppliedOf_append]
  · rintro ⟨combined, hcombined, rfl, hsupplied⟩
    rw [Carries, hcombined, ← hsupplied, rawOf, suppliedOf, List.take_append_drop]

end Codec

/-! ### The limits of the interpreter -/

/-- `sys.get_int_max_str_digits()`. -/
def maxDigits : ℕ := 4300

/-- The least number that has more digits than an integer may have in a text. -/
def digitBound : ℕ := 10 ^ maxDigits

mutual

/-- What `json.dumps` raises for a value: a `RecursionError` for a list or an object at a level
that the stack has no room for, a `ValueError` for an integer of over 4300 digits. -/
def refusal : ℕ → Json → Option LoadError
  | _, .scalar (.int i) => if digitBound ≤ i.natAbs then some .value else none
  | _, .scalar _ | _, .str _ => none
  | 0, .list _ | 0, .object _ => some .recursion
  | depth + 1, .list items => refusalItems depth items
  | depth + 1, .object fields => refusalFields depth fields

def refusalItems : ℕ → List Json → Option LoadError
  | _, [] => none
  | depth, j :: rest => refusal depth j <|> refusalItems depth rest

def refusalFields : ℕ → List (String × Json) → Option LoadError
  | _, [] => none
  | depth, (_, j) :: rest => refusal depth j <|> refusalFields depth rest

end

mutual

/-- At most so many levels of lists and objects, and no integer of over 4300 digits. -/
def fits : ℕ → Json → Bool
  | _, .scalar (.int i) => i.natAbs < digitBound
  | _, .scalar _ | _, .str _ => true
  | 0, .list _ | 0, .object _ => false
  | depth + 1, .list items => fitsItems depth items
  | depth + 1, .object fields => fitsFields depth fields

def fitsItems : ℕ → List Json → Bool
  | _, [] => true
  | depth, j :: rest => fits depth j && fitsItems depth rest

def fitsFields : ℕ → List (String × Json) → Bool
  | _, [] => true
  | depth, (_, j) :: rest => fits depth j && fitsFields depth rest

end

theorem refusalFields_eq_none {depth : ℕ} {fields : List (String × Json)} :
    refusalFields depth fields = none ↔ ∀ p ∈ fields, refusal depth p.2 = none := by
  induction fields with
  | nil => simp [refusalFields]
  | cons p fields ih => simp [refusalFields, ih]

mutual

/-- The order of the keys does not matter for whether a value is written. -/
theorem refusal_sorted (depth : ℕ) (j : Json) : refusal depth j.sorted = none ↔ fits depth j := by
  match depth, j with
  | _, .scalar (.int i) => simp [Json.sorted, refusal, fits]
  | _, .scalar (.word _) | _, .scalar (.decimal _) | _, .str _ => simp [Json.sorted, refusal, fits]
  | 0, .list _ | 0, .object _ => simp [Json.sorted, refusal, fits]
  | depth + 1, .list items =>
    rw [Json.sorted, refusal, fits]
    exact refusalItems_sorted depth items
  | depth + 1, .object fields =>
    rw [Json.sorted, refusal, fits, refusalFields_eq_none]
    simp only [(Json.sortKeys_perm _).mem_iff]
    exact refusalFields_eq_none.symm.trans (refusalFields_sorted depth fields)

theorem refusalItems_sorted (depth : ℕ) (items : List Json) :
    refusalItems depth (Json.sortedItems items) = none ↔ fitsItems depth items := by
  match items with
  | [] => simp [Json.sortedItems, refusalItems, fitsItems]
  | j :: rest =>
    rw [Json.sortedItems, refusalItems, fitsItems, Bool.and_eq_true, ← refusal_sorted depth j, ← refusalItems_sorted depth rest]
    simp

theorem refusalFields_sorted (depth : ℕ) (fields : List (String × Json)) :
    refusalFields depth (Json.sortedFields fields) = none ↔ fitsFields depth fields := by
  match fields with
  | [] => simp [Json.sortedFields, refusalFields, fitsFields]
  | (_, j) :: rest =>
    rw [Json.sortedFields, refusalFields, fitsFields, Bool.and_eq_true, ← refusal_sorted depth j, ← refusalFields_sorted depth rest]
    simp

end

/-- The payload is within the limits, where the stack has room for `depth` levels. -/
def Payload.fits (depth : ℕ) (p : Payload) : Bool := Tokens.fits depth p.json

/-! ### What was issued -/

section Issued

variable (mac : Bytes → Digest) (depth : ℕ) (loads : Bytes → Except LoadError Json)

/-- `json.loads` is the reader on what `json.dumps` writes within the limits of the interpreter. -/
def Agrees : Prop := ∀ p : Payload, p.fits depth → ∀ j, Json.loads p.json.dumpsAscii = some j → loads p.written = .ok j

/-- `json.dumps` and the code. -/
def issue (p : Payload) : Except LoadError Text :=
  match refusal depth p.json.sorted with
  | some e => .error e
  | none => .ok (sealed mac p.written)

/-- Nobody but the API has made a code: if the text carries one, then of a payload that was issued. -/
def Unforged (issued : List Payload) (text : Text) : Prop := ∀ raw, Carries mac text raw → ∃ p ∈ issued, raw = p.written

variable {mac depth loads}

theorem issue_of_fits {p : Payload} (h : p.fits depth) : issue mac depth p = .ok (sealed mac p.written) := by
  rw [issue, (refusal_sorted depth p.json).mpr h]

theorem issue_of_not_fits {p : Payload} (h : p.fits depth = false) : ∃ e, issue mac depth p = .error e := by
  unfold issue
  split
  · next e _ => exact ⟨e, rfl⟩
  · next hnone =>
    have hfits : p.fits depth = true := (refusal_sorted depth p.json).mp hnone
    rw [hfits] at h
    cases h

theorem Agrees.loads_written (h : Agrees depth loads) {p : Payload} (hp : p.fits depth) :
    loads p.written = .ok p.json.sorted := h p hp _ (Json.loads_dumpsAscii p.keyed p.readable)

end Issued

/-! ### Fields -/

def isStr (s : String) : Json → Bool
  | .str t => t = s
  | _ => false

theorem isStr_iff {s : String} {j : Json} : isStr s j = true ↔ j = .str s := by
  cases j <;> simp [isStr]

/-- `get`, with `None` for what is not there. -/
def field (fields : Dict String Json) (name : String) : Json := (fields.get name).getD Json.null

theorem sorted_json (p : Payload) : p.json.sorted = .object p.read := by
  rw [Payload.json, Json.sorted, Payload.read]

theorem read_same (p : Payload) : (Json.object p.read).Same p.json := by
  rw [← sorted_json]
  exact Json.sorted_same p.keyed

theorem get_read (p : Payload) (name : String) : p.read.get name = (p.fields.get name).map Json.sorted := by
  have hkeyed := p.keyed
  rw [Json.Keyed] at hkeyed
  have hkeys : ((Json.sortedFields p.fields).map Prod.fst).Nodup := by
    rw [Json.keys_sortedFields]
    exact hkeyed.1
  rw [Payload.read, Dict.get_of_perm hkeys (Json.sortKeys_perm _), Json.sortedFields_eq]
  exact Dict.get_mapValues Json.sorted p.fields name

theorem field_read (p : Payload) (name : String) : field p.read name = (field p.fields name).sorted := by
  rw [field, field, get_read]
  cases p.fields.get name with
  | none =>
    show Json.null = Json.null.sorted
    rw [Json.null, Json.sorted]
  | some j => rfl

/-- A text stays what it is when it is read back. -/
theorem field_read_str {p : Payload} {name s : String} : field p.read name = .str s ↔ field p.fields name = .str s := by
  rw [field_read]
  cases field p.fields name <;> rw [Json.sorted] <;> simp

end AutomlApi.Tokens
