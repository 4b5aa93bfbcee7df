import AutomlApi.Library.Integers

/-! Texts of Python, which are sequences of code points: a surrogate may stand alone in one,
and then the text has no UTF-8. -/

namespace AutomlApi

abbrev Text := List ℕ

namespace Text

def of (s : String) : Text := s.toList.map Char.toNat

def isSurrogate (c : ℕ) : Bool := 0xD800 ≤ c && c ≤ 0xDFFF

/-- How many bytes a code point takes. -/
def width (c : ℕ) : ℕ := if c < 0x80 then 1 else if c < 0x800 then 2 else if c < 0x10000 then 3 else 4

/-- `len(text.encode("utf-8"))`, where the text has one. -/
def utf8Size (t : Text) : Option ℕ := if t.any isSurrogate then none else some (t.map width).sum

def isSpace (c : ℕ) : Bool := Integers.spaceRanges.any fun r => r.1 ≤ c ∧ c ≤ r.2

/-- `strip()`. -/
def strip (t : Text) : Text := ((t.dropWhile isSpace).reverse.dropWhile isSpace).reverse

/-- `split()`. -/
def split (t : Text) : List Text := (t.splitOnP isSpace).filter (· ≠ [])

/-! ### UTF-8 -/

def isContinuation (b : UInt8) : Bool := 0x80 ≤ b && b < 0xC0

/-- The code point of a lead byte and the bytes that follow it. -/
def codePoint (lead : ℕ) (following : List UInt8) : ℕ := following.foldl (fun c b => c * 64 + b.toNat % 64) lead

/-- `decode("utf-8")`: no form is too long, and there is no surrogate. -/
def ofUtf8 : List UInt8 → Option Text
  | [] => some []
  | a :: rest =>
    if a < 0x80 then (ofUtf8 rest).map (a.toNat :: ·)
    else
      match rest with
      | [] => none
      | b :: rest =>
        if !isContinuation b then none
        else if 0xC2 ≤ a ∧ a < 0xE0 then (ofUtf8 rest).map (codePoint (a.toNat % 32) [b] :: ·)
        else
          match rest with
          | [] => none
          | c :: rest =>
            if !isContinuation c then none
            else if 0xE0 ≤ a ∧ a < 0xF0 then
              let n := codePoint (a.toNat % 16) [b, c]
              if n < 0x800 ∨ isSurrogate n then none else (ofUtf8 rest).map (n :: ·)
            else
              match rest with
              | [] => none
              | d :: rest =>
                if !isContinuation d then none
                else
                  let n := codePoint (a.toNat % 8) [b, c, d]
                  if 0xF0 ≤ a ∧ a < 0xF5 ∧ 0x10000 ≤ n ∧ n < 0x110000 then (ofUtf8 rest).map (n :: ·) else none

theorem width_of_ascii {c : ℕ} (h : c < 128) : width c = 1 := if_pos h

/-- A text in ASCII has as many bytes as code points. -/
theorem utf8Size_of_ascii {t : Text} (h : ∀ c ∈ t, c < 128) : utf8Size t = some t.length := by
  have hnone : t.any isSurrogate = false := by
    refine List.any_eq_false.mpr fun c hc => ?_
    have hlt := h c hc
    simp only [isSurrogate, Bool.and_eq_true, decide_eq_true_eq]
    omega
  have hsum : (t.map width).sum = t.length := by
    induction t with
    | nil => rfl
    | cons c t ih =>
      obtain ⟨hc, ht⟩ := List.forall_mem_cons.mp h
      have hnone' : t.any isSurrogate = false := by
        rw [List.any_cons, Bool.or_eq_false_iff] at hnone
        exact hnone.2
      rw [List.map_cons, List.sum_cons, width_of_ascii hc, ih ht hnone', List.length_cons, Nat.add_comm]
  rw [utf8Size, hnone, hsum]
  rfl

/-- Bytes in ASCII are read as they are. -/
theorem ofUtf8_of_ascii {bytes : List UInt8} (h : ∀ b ∈ bytes, b < 0x80) : ofUtf8 bytes = some (bytes.map UInt8.toNat) := by
  induction bytes with
  | nil => rfl
  | cons b rest ih =>
    obtain ⟨hb, hrest⟩ := List.forall_mem_cons.mp h
    rw [ofUtf8.eq_def]
    simp only [if_pos hb, ih hrest, Option.map_some, List.map_cons]

/-! ### Separators -/

/-- A text splits at its first separator. -/
theorem splitOn_eq_cons {a : ℕ} {t first : Text} {rest : List Text} (hrest : rest ≠ []) :
    t.splitOn a = first :: rest ↔ a ∉ first ∧ ∃ u, t = first ++ a :: u ∧ u.splitOn a = rest := by
  constructor
  · intro h
    induction t generalizing first with
    | nil =>
      rw [List.splitOn_nil] at h
      cases h
      exact absurd rfl hrest
    | cons c t ih =>
      rw [List.splitOn_cons_eq_if_modifyHead] at h
      split at h
      · next hc =>
        cases h
        exact ⟨List.not_mem_nil, t, by rw [beq_iff_eq.mp hc]; rfl, rfl⟩
      · next hc =>
        obtain ⟨g, others, hsplit⟩ := List.exists_cons_of_ne_nil (List.splitOn_ne_nil a t)
        rw [hsplit, List.modifyHead_cons] at h
        cases h
        obtain ⟨hg, u, hu, hothers⟩ := ih hsplit
        refine ⟨?_, u, by rw [hu]; rfl, hothers⟩
        rintro (_ | ⟨_, hmem⟩)
        · exact hc (beq_self_eq_true a)
        · exact hg hmem
  · rintro ⟨hfirst, u, rfl, hrest⟩
    rw [List.splitOn_append_cons_self, List.splitOn_eq_singleton hfirst, hrest]
    rfl

theorem splitOn_eq_singleton {a : ℕ} {t only : Text} : t.splitOn a = [only] ↔ t = only ∧ a ∉ only := by
  constructor
  · intro h
    by_cases ha : a ∈ t
    · obtain ⟨u, w, rfl⟩ := List.append_of_mem ha
      rw [List.splitOn_append_cons_self] at h
      have hlength := congrArg List.length h
      have hu := List.length_pos_of_ne_nil (List.splitOn_ne_nil a u)
      have hw := List.length_pos_of_ne_nil (List.splitOn_ne_nil a w)
      rw [List.length_append, List.length_singleton] at hlength
      omega
    · rw [List.splitOn_eq_singleton ha] at h
      cases h
      exact ⟨rfl, ha⟩
  · rintro ⟨rfl, ha⟩
    exact List.splitOn_eq_singleton ha

end Text

end AutomlApi
