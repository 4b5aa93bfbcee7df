import Mathlib.Tactic.Common

/-! Base64 in its URL-safe alphabet, on texts as lists of code points. The decoder is the
one of `binascii`: it passes over what is not in the alphabet, unless it is strict, and does
not look at the bits that are left over. -/

namespace AutomlApi.Base64

/-- The character of six bits. -/
def symbol (n : ℕ) : ℕ :=
  if n < 26 then 65 + n
  else if n < 52 then 71 + n
  else if n < 62 then n - 4
  else if n = 62 then 45
  else 95

/-- The six bits of a character, in the standard alphabet or in the URL-safe one. -/
def sextet (c : ℕ) : Option ℕ :=
  if 65 ≤ c ∧ c ≤ 90 then some (c - 65)
  else if 97 ≤ c ∧ c ≤ 122 then some (c - 71)
  else if 48 ≤ c ∧ c ≤ 57 then some (c + 4)
  else if c = 43 ∨ c = 45 then some 62
  else if c = 47 ∨ c = 95 then some 63
  else none

/-- The character of padding. -/
def pad : ℕ := 61

/-- `urlsafe_b64encode`. -/
def encode : List UInt8 → List ℕ
  | [] => []
  | [a] => [symbol (a.toNat / 4), symbol (a.toNat % 4 * 16), pad, pad]
  | [a, b] =>
    [symbol (a.toNat / 4), symbol (a.toNat % 4 * 16 + b.toNat / 16), symbol (b.toNat % 16 * 4), pad]
  | a :: b :: c :: rest =>
    symbol (a.toNat / 4) :: symbol (a.toNat % 4 * 16 + b.toNat / 16) :: symbol (b.toNat % 16 * 4 + c.toNat / 64) ::
      symbol (c.toNat % 64) :: encode rest

/-- `rstrip` of the padding. -/
def bare (text : List ℕ) : List ℕ := (text.reverse.dropWhile (· = pad)).reverse

/-- The padding that a text without it gets. -/
def padding (length : ℕ) : List ℕ := List.replicate ((4 - length % 4) % 4) pad

/-- The loop of `a2b_base64`, with the place in the group of four, the bits that are kept,
the padding that was seen there, and whether there was any before. -/
def scan (strict : Bool) : ℕ → ℕ → ℕ → Bool → List ℕ → Option (List UInt8)
  | place, _, _, _, [] => if place = 0 then some [] else none
  | place, kept, pads, started, c :: rest =>
    if c = pad then
      if 2 ≤ place ∧ 4 ≤ place + (pads + 1) then if strict ∧ rest ≠ [] then none else some []
      else scan strict place kept (if 2 ≤ place then pads + 1 else pads) true rest
    else
      match sextet c with
      | none => if strict then none else scan strict place kept pads started rest
      | some n =>
        if strict ∧ started then none
        else if place = 0 then scan strict 1 n 0 started rest
        else if place = 1 then (scan strict 2 (n % 16) 0 started rest).map (UInt8.ofNat (kept * 4 + n / 16) :: ·)
        else if place = 2 then (scan strict 3 (n % 4) 0 started rest).map (UInt8.ofNat (kept * 16 + n / 4) :: ·)
        else (scan strict 0 0 0 started rest).map (UInt8.ofNat (kept * 64 + n) :: ·)

/-- `a2b_base64`. -/
def decode (strict : Bool) (text : List ℕ) : Option (List UInt8) :=
  if strict ∧ text.head? = some pad then none else scan strict 0 0 0 false text

/-! ### The alphabet -/

theorem sextet_symbol {n : ℕ} (h : n < 64) : sextet (symbol n) = some n := by
  have hall : ∀ n < 64, sextet (symbol n) = some n := by decide
  exact hall n h

theorem symbol_ne_pad {n : ℕ} (h : n < 64) : symbol n ≠ pad := by
  have hall : ∀ n < 64, symbol n ≠ pad := by decide
  exact hall n h

theorem scan_symbol {strict : Bool} {place kept n : ℕ} {rest : List ℕ} (h : n < 64) :
    scan strict place kept 0 false (symbol n :: rest) =
      if place = 0 then scan strict 1 n 0 false rest
      else if place = 1 then (scan strict 2 (n % 16) 0 false rest).map (UInt8.ofNat (kept * 4 + n / 16) :: ·)
      else if place = 2 then (scan strict 3 (n % 4) 0 false rest).map (UInt8.ofNat (kept * 16 + n / 4) :: ·)
      else (scan strict 0 0 0 false rest).map (UInt8.ofNat (kept * 64 + n) :: ·) := by
  rw [scan, if_neg (symbol_ne_pad h), sextet_symbol h]
  simp

/-! ### What was encoded -/

theorem first_byte (a : UInt8) {m : ℕ} (hm : m < 16) : UInt8.ofNat (a.toNat / 4 * 4 + (a.toNat % 4 * 16 + m) / 16) = a := by
  have h : a.toNat / 4 * 4 + (a.toNat % 4 * 16 + m) / 16 = a.toNat := by omega
  rw [h, UInt8.ofNat_toNat]

theorem second_byte (n : ℕ) (b : UInt8) {m : ℕ} (hm : m < 4) :
    UInt8.ofNat ((n * 16 + b.toNat / 16) % 16 * 16 + (b.toNat % 16 * 4 + m) / 4) = b := by
  have hb := b.toNat_lt
  have h : (n * 16 + b.toNat / 16) % 16 * 16 + (b.toNat % 16 * 4 + m) / 4 = b.toNat := by omega
  rw [h, UInt8.ofNat_toNat]

theorem third_byte (n : ℕ) (c : UInt8) : UInt8.ofNat ((n * 4 + c.toNat / 64) % 4 * 64 + c.toNat % 64) = c := by
  have hc := c.toNat_lt
  have h : (n * 4 + c.toNat / 64) % 4 * 64 + c.toNat % 64 = c.toNat := by omega
  rw [h, UInt8.ofNat_toNat]

/-- Four characters of the alphabet are three bytes. -/
theorem scan_group (strict : Bool) (a b c : UInt8) (rest : List ℕ) :
    scan strict 0 0 0 false (symbol (a.toNat / 4) :: symbol (a.toNat % 4 * 16 + b.toNat / 16) ::
      symbol (b.toNat % 16 * 4 + c.toNat / 64) :: symbol (c.toNat % 64) :: rest) =
      (scan strict 0 0 0 false rest).map fun bytes => a :: b :: c :: bytes := by
  have ha := a.toNat_lt
  have hb := b.toNat_lt
  have hc := c.toNat_lt
  rw [scan_symbol (by omega), if_pos rfl, scan_symbol (by omega), if_neg (by decide), if_pos rfl, scan_symbol (by omega),
    if_neg (by decide), if_neg (by decide), if_pos rfl, scan_symbol (by omega), if_neg (by decide), if_neg (by decide),
    if_neg (by decide), Option.map_map, Option.map_map, first_byte a (by omega), second_byte _ b (by omega), third_byte]
  rfl

/-- The encoding without its padding. -/
def stem : List UInt8 → List ℕ
  | [] => []
  | [a] => [symbol (a.toNat / 4), symbol (a.toNat % 4 * 16)]
  | [a, b] => [symbol (a.toNat / 4), symbol (a.toNat % 4 * 16 + b.toNat / 16), symbol (b.toNat % 16 * 4)]
  | a :: b :: c :: rest =>
    symbol (a.toNat / 4) :: symbol (a.toNat % 4 * 16 + b.toNat / 16) :: symbol (b.toNat % 16 * 4 + c.toNat / 64) ::
      symbol (c.toNat % 64) :: stem rest

/-- Characters of the URL-safe alphabet. -/
def Symbols (text : List ℕ) : Prop := ∀ c ∈ text, ∃ n < 64, c = symbol n

theorem padding_add_four (n : ℕ) : padding (n + 4) = padding n := by
  have h : (n + 4) % 4 = n % 4 := by omega
  rw [padding, padding, h]

theorem symbols_stem (bytes : List UInt8) : Symbols (stem bytes) := by
  induction bytes using stem.induct with
  | case1 => simp [stem, Symbols]
  | case2 a =>
    have ha := a.toNat_lt
    exact List.forall_mem_cons.mpr ⟨⟨_, by omega, rfl⟩, List.forall_mem_singleton.mpr ⟨_, by omega, rfl⟩⟩
  | case3 a b =>
    have ha := a.toNat_lt
    have hb := b.toNat_lt
    exact List.forall_mem_cons.mpr ⟨⟨_, by omega, rfl⟩, List.forall_mem_cons.mpr ⟨⟨_, by omega, rfl⟩,
      List.forall_mem_singleton.mpr ⟨_, by omega, rfl⟩⟩⟩
  | case4 a b c rest ih =>
    have ha := a.toNat_lt
    have hb := b.toNat_lt
    have hc := c.toNat_lt
    exact List.forall_mem_cons.mpr ⟨⟨_, by omega, rfl⟩, List.forall_mem_cons.mpr ⟨⟨_, by omega, rfl⟩,
      List.forall_mem_cons.mpr ⟨⟨_, by omega, rfl⟩, List.forall_mem_cons.mpr ⟨⟨_, by omega, rfl⟩, ih⟩⟩⟩⟩

theorem length_stem (bytes : List UInt8) : (stem bytes).length = (4 * bytes.length + 2) / 3 := by
  induction bytes using stem.induct with
  | case1 => rfl
  | case2 a => simp [stem]
  | case3 a b => simp [stem]
  | case4 a b c rest ih =>
    simp only [stem, List.length_cons, ih]
    omega

theorem symbol_lt {n : ℕ} (h : n < 64) : symbol n < 128 ∧ symbol n ≠ 46 := by
  have hall : ∀ n < 64, symbol n < 128 ∧ symbol n ≠ 46 := by decide
  exact hall n h

/-- The alphabet is in ASCII, and has no full stop. -/
theorem ascii_of_symbols {text : List ℕ} (h : Symbols text) {c : ℕ} (hc : c ∈ text) : c < 128 ∧ c ≠ 46 := by
  obtain ⟨n, hn, rfl⟩ := h c hc
  exact symbol_lt hn

theorem encode_eq (bytes : List UInt8) : encode bytes = stem bytes ++ padding (stem bytes).length := by
  induction bytes using stem.induct with
  | case1 => rfl
  | case2 a => rfl
  | case3 a b => rfl
  | case4 a b c rest ih =>
    have hlength : (stem (a :: b :: c :: rest)).length = (stem rest).length + 4 := by simp [stem]
    rw [hlength, padding_add_four, encode, ih]
    rfl

theorem ne_pad_of_symbols {text : List ℕ} (h : Symbols text) {c : ℕ} (hc : c ∈ text) : c ≠ pad := by
  obtain ⟨n, hn, rfl⟩ := h c hc
  exact symbol_ne_pad hn

theorem bare_append {text : List ℕ} (h : Symbols text) (n : ℕ) : bare (text ++ List.replicate n pad) = text := by
  unfold bare
  rw [List.reverse_append, List.reverse_replicate, List.dropWhile_append]
  have hpads : (List.replicate n pad).dropWhile (fun c => decide (c = pad)) = [] := by simp
  have hnone : text.reverse.dropWhile (fun c => decide (c = pad)) = text.reverse := by
    cases hreverse : text.reverse with
    | nil => rfl
    | cons c rest =>
      have hc : c ≠ pad := ne_pad_of_symbols h (List.mem_reverse.mp (hreverse ▸ List.mem_cons_self))
      rw [List.dropWhile_cons, if_neg (by simpa using hc)]
  rw [hpads, List.isEmpty_nil, if_pos rfl, hnone, List.reverse_reverse]

theorem bare_encode (bytes : List UInt8) : bare (encode bytes) = stem bytes := by
  rw [encode_eq]
  exact bare_append (symbols_stem bytes) _

theorem scan_stem (strict : Bool) (bytes : List UInt8) :
    scan strict 0 0 0 false (stem bytes ++ padding (stem bytes).length) = some bytes := by
  induction bytes using stem.induct with
  | case1 => rfl
  | case2 a =>
    have ha := a.toNat_lt
    have hpads : padding (stem [a]).length = [pad, pad] := rfl
    rw [hpads, stem, List.cons_append, List.cons_append, List.nil_append, scan_symbol (by omega), if_pos rfl,
      scan_symbol (by omega), if_neg (by decide), if_pos rfl]
    have hbyte := first_byte a (Nat.zero_lt_succ 15)
    rw [Nat.add_zero] at hbyte
    rw [hbyte]
    simp [scan]
  | case3 a b =>
    have ha := a.toNat_lt
    have hb := b.toNat_lt
    have hpads : padding (stem [a, b]).length = [pad] := rfl
    rw [hpads, stem, List.cons_append, List.cons_append, List.cons_append, List.nil_append, scan_symbol (by omega), if_pos rfl,
      scan_symbol (by omega), if_neg (by decide), if_pos rfl, scan_symbol (by omega), if_neg (by decide),
      if_neg (by decide), if_pos rfl, first_byte a (by omega)]
    have hbyte := second_byte (a.toNat % 4) b (Nat.zero_lt_succ 3)
    rw [Nat.add_zero] at hbyte
    rw [hbyte]
    simp [scan]
  | case4 a b c rest ih =>
    have hlength : (stem (a :: b :: c :: rest)).length = (stem rest).length + 4 := by simp [stem]
    rw [hlength, padding_add_four, stem]
    simp only [List.cons_append]
    rw [scan_group, ih]
    rfl

theorem head_ne_pad {text : List ℕ} (h : Symbols text) : (text ++ padding text.length).head? ≠ some pad := by
  cases text with
  | nil => simp [padding]
  | cons c rest =>
    have hc : c ≠ pad := ne_pad_of_symbols h List.mem_cons_self
    simpa using hc

/-- What was encoded and stripped of its padding is read back once the padding is there again. -/
theorem decode_bare_encode (strict : Bool) (bytes : List UInt8) :
    decode strict (bare (encode bytes) ++ padding (bare (encode bytes)).length) = some bytes := by
  rw [bare_encode]
  rw [decode, if_neg (fun h => head_ne_pad (symbols_stem bytes) h.2), scan_stem]

/-! ### What is read -/

/-- A text in the alphabet is read unless one character is left over. -/
theorem isSome_scan (strict : Bool) {text : List ℕ} (h : Symbols text) {place : ℕ} (hplace : place < 4) (kept : ℕ) :
    (scan strict place kept 0 false (text ++ padding (place + text.length))).isSome = true ↔ (place + text.length) % 4 ≠ 1 := by
  induction text generalizing place kept with
  | nil =>
    have hall : ∀ place < 4, (scan strict place kept 0 false (padding place)).isSome = true ↔ place % 4 ≠ 1 := by
      intro place hplace
      have hcases : place = 0 ∨ place = 1 ∨ place = 2 ∨ place = 3 := by omega
      rcases hcases with rfl | rfl | rfl | rfl <;> simp [padding, scan, List.replicate]
    exact hall place hplace
  | cons c rest ih =>
    obtain ⟨⟨n, hn, rfl⟩, hrest⟩ := List.forall_mem_cons.mp h
    have hlength : place + (symbol n :: rest).length = (place + 1) + rest.length := by
      rw [List.length_cons]
      omega
    rw [hlength, List.cons_append, scan_symbol hn]
    split_ifs with hzero hone htwo
    · subst hzero
      exact ih hrest (by decide) n
    · subst hone
      rw [Option.isSome_map]
      exact ih hrest (by decide) _
    · subst htwo
      rw [Option.isSome_map]
      exact ih hrest (by decide) _
    · have hthree : place = 3 := by omega
      subst hthree
      have hpads : padding (3 + 1 + rest.length) = padding (0 + rest.length) := by
        rw [Nat.add_comm 4, padding_add_four, Nat.zero_add]
      have hmod : (3 + 1 + rest.length) % 4 = (0 + rest.length) % 4 := by omega
      rw [Option.isSome_map, hpads, hmod]
      exact ih hrest (by decide) 0

theorem isSome_decode (strict : Bool) {text : List ℕ} (h : Symbols text) :
    (decode strict (text ++ padding text.length)).isSome = true ↔ text.length % 4 ≠ 1 := by
  rw [decode, if_neg (fun hpad => head_ne_pad h hpad.2)]
  have hscan := isSome_scan strict h (Nat.zero_lt_succ 3) 0
  rwa [Nat.zero_add] at hscan

end AutomlApi.Base64
