import AutomlApi.Library.Reader

/-! `json.dumps` with `ensure_ascii`, as it writes unless it is told not to: what is not in
ASCII is escaped, and `json.loads` reads the same values. -/

namespace AutomlApi

-- Only the elements of a list are asked, not every character.
attribute [local instance (2000)] List.decidableBAll List.decidableBEx

/-! ### Strings -/

namespace Quoted

/-- `\uXXXX`. -/
def codeUnit (n : ℕ) : List Char :=
  ['\\', 'u', hexDigit (n / 4096), hexDigit (n / 256 % 16), hexDigit (n / 16 % 16), hexDigit (n % 16)]

/-- A character in ASCII: above the printable ones by its code, in two halves where it takes them. -/
def ascii (c : Char) : List Char :=
  if c.toNat < 127 then [c]
  else if c.toNat < 0x10000 then codeUnit c.toNat
  else codeUnit (0xd800 + (c.toNat - 0x10000) / 1024) ++ codeUnit (0xdc00 + (c.toNat - 0x10000) % 1024)

theorem hex?_hexDigit {d : ℕ} (h : d < 16) : hex? (hexDigit d) = some d := by
  have hall : ∀ d < 16, hex? (hexDigit d) = some d := by decide
  exact hall d h

theorem unicode?_codeUnit {n : ℕ} (h : n < 0x10000) :
    unicode? (hexDigit (n / 4096)) (hexDigit (n / 256 % 16)) (hexDigit (n / 16 % 16)) (hexDigit (n % 16)) = some n := by
  have hvalue : ((n / 4096 * 16 + n / 256 % 16) * 16 + n / 16 % 16) * 16 + n % 16 = n := by omega
  rw [unicode?, hex?_hexDigit (by omega), hex?_hexDigit (by omega), hex?_hexDigit (by omega), hex?_hexDigit (by omega)]
  exact congrArg some hvalue

theorem scan_ascii_cons {c : Char} (hc : 127 ≤ c.toNat) (rest : List Char) :
    scan (ascii c ++ rest) = (scan rest).map fun p => (c :: p.1, p.2) := by
  have hvalid := c.valid
  have hrange : c.toNat < 0xd800 ∨ (0xdfff < c.toNat ∧ c.toNat < 0x110000) := hvalid
  unfold ascii
  rw [if_neg (by omega)]
  split
  · next hlt =>
    have hlow : ¬ (0xd800 ≤ c.toNat ∧ c.toNat ≤ 0xdbff) := by omega
    have hback : Char.ofNat c.toNat = c := Char.ofNat_toNat c
    simp [codeUnit, scan, unicode?_codeUnit hlt, hlow, hback, show c.toNat.isValidChar from hvalid]
  · next hge =>
    have hhigh : 0xd800 ≤ 0xd800 + (c.toNat - 0x10000) / 1024 ∧ 0xd800 + (c.toNat - 0x10000) / 1024 ≤ 0xdbff := by omega
    have hlow : 0xdc00 ≤ 0xdc00 + (c.toNat - 0x10000) % 1024 ∧ 0xdc00 + (c.toNat - 0x10000) % 1024 ≤ 0xdfff := by omega
    have hback : 0x10000 + (0xd800 + (c.toNat - 0x10000) / 1024 - 0xd800) * 1024 +
        (0xdc00 + (c.toNat - 0x10000) % 1024 - 0xdc00) = c.toNat := by omega
    rw [codeUnit, codeUnit]
    simp only [List.cons_append, List.nil_append]
    rw [scan]
    simp only [unicode?_codeUnit (show 0xd800 + (c.toNat - 0x10000) / 1024 < 0x10000 by omega),
      unicode?_codeUnit (show 0xdc00 + (c.toNat - 0x10000) % 1024 < 0x10000 by omega), if_pos hhigh, if_pos hlow, hback,
      Char.ofNat_toNat]
    rfl

/-- What is not in ASCII is escaped. -/
theorem ascii_of_le {c : Char} (h : 127 ≤ c.toNat) : ∃ u, ascii c = '\\' :: u := by
  unfold ascii
  rw [if_neg (Nat.not_lt.mpr h)]
  split
  · exact ⟨_, rfl⟩
  · exact ⟨_, rfl⟩

theorem ascii_of_lt {c : Char} (h : c.toNat < 127) : ascii c = [c] := if_pos h

theorem lt_of_mem_ascii {c d : Char} (h : d ∈ ascii c) : d.toNat < 127 := by
  have hhex : ∀ n < 16, (hexDigit n).toNat < 127 := by decide
  have hunit : ∀ n < 0x10000, ∀ e ∈ codeUnit n, e.toNat < 127 := by
    intro n hn e he
    simp only [codeUnit, List.mem_cons, List.not_mem_nil, or_false] at he
    rcases he with rfl | rfl | rfl | rfl | rfl | rfl
    · decide
    · decide
    · exact hhex _ (by omega)
    · exact hhex _ (by omega)
    · exact hhex _ (by omega)
    · exact hhex _ (by omega)
  have hvalid : c.toNat < 0xd800 ∨ (0xdfff < c.toNat ∧ c.toNat < 0x110000) := c.valid
  unfold ascii at h
  split at h
  · next hlt =>
    rw [List.mem_singleton.mp h]
    exact hlt
  · split at h
    · next hlt => exact hunit _ hlt d h
    · rcases List.mem_append.mp h with h | h
      · exact hunit _ (by omega) d h
      · exact hunit _ (by omega) d h

theorem toNat_le {c d : Char} (h : c ≤ d) : c.toNat ≤ d.toNat := UInt32.le_iff_toNat_le.mp h

theorem lt_of_hex? {c : Char} {n : ℕ} (h : hex? c = some n) : c.toNat < 127 := by
  unfold hex? at h
  split_ifs at h with hdigit hlower hupper
  · have hle : c ≤ '9' := by
      rw [Char.isDigit, Bool.and_eq_true, decide_eq_true_eq, decide_eq_true_eq] at hdigit
      exact hdigit.2
    exact Nat.lt_of_le_of_lt (toNat_le hle) (by decide)
  · exact Nat.lt_of_le_of_lt (toNat_le hlower.2) (by decide)
  · exact Nat.lt_of_le_of_lt (toNat_le hupper.2) (by decide)

/-- The digits of a code unit are in ASCII. -/
theorem ascii_unicode? {x y z w : Char} {n : ℕ} (h : unicode? x y z w = some n) (rest : List Char) :
    (x :: y :: z :: w :: rest).flatMap ascii = x :: y :: z :: w :: rest.flatMap ascii := by
  obtain ⟨a, ha, h⟩ := Option.bind_eq_some_iff.mp h
  obtain ⟨b, hb, h⟩ := Option.bind_eq_some_iff.mp h
  obtain ⟨c, hc, h⟩ := Option.bind_eq_some_iff.mp h
  obtain ⟨d, hd, -⟩ := Option.bind_eq_some_iff.mp h
  simp only [List.flatMap_cons, ascii_of_lt (lt_of_hex? ha), ascii_of_lt (lt_of_hex? hb), ascii_of_lt (lt_of_hex? hc),
    ascii_of_lt (lt_of_hex? hd), List.singleton_append]

theorem lt_of_backslash {c d : Char} (h : backslash d = some c) : d.toNat < 127 ∧ d ≠ 'u' := by
  have hall : ∀ p ∈ ('/', '/') :: short, p.2.toNat < 127 ∧ p.2 ≠ 'u' := by decide
  obtain ⟨p, hp, -⟩ := Option.map_eq_some_iff.mp h
  have hd : p.2 = d := by simpa using List.find?_some hp
  rw [← hd]
  exact hall p (List.mem_of_find?_eq_some hp)

theorem ascii_slash (rest : List Char) : ('\\' :: rest).flatMap ascii = '\\' :: rest.flatMap ascii := rfl

theorem ascii_code (rest : List Char) : ('\\' :: 'u' :: rest).flatMap ascii = '\\' :: 'u' :: rest.flatMap ascii := rfl

/-- A string that is read is read in ASCII, too. -/
theorem scan_ascii {cs s rest : List Char} (h : scan cs = some (s, rest)) :
    scan (cs.flatMap ascii) = some (s, rest.flatMap ascii) := by
  fun_induction scan cs generalizing s with
  | case1 | case3 | case4 | case6 | case7 | case9 | case10 | case12 | case13 => cases h
  | case2 rest =>
    cases h
    exact scan.eq_def _
  | case5 x y z w n hn hhigh x' y' z' w' rest' m hm hlow _ ih =>
    obtain ⟨p, hp, heq⟩ := Option.map_eq_some_iff.mp h
    cases heq
    rw [ascii_code, ascii_unicode? hn, ascii_code, ascii_unicode? hm, scan]
    simp only [hn, hm, if_pos hhigh, if_pos hlow, ih hp, Option.map_some]
    rfl
  | case8 x y z w rest' n hn hhigh hvalid _ ih =>
    obtain ⟨p, hp, heq⟩ := Option.map_eq_some_iff.mp h
    cases heq
    rw [ascii_code, ascii_unicode? hn, scan]
    simp only [hn, if_neg hhigh, if_pos hvalid, ih hp, Option.map_some]
    rfl
  | case11 d rest' hcode c hc _ ih =>
    obtain ⟨p, hp, heq⟩ := Option.map_eq_some_iff.mp h
    cases heq
    obtain ⟨hlt, hu⟩ := lt_of_backslash hc
    rw [ascii_slash, List.flatMap_cons, ascii_of_lt hlt, List.singleton_append, scan]
    · simp only [hc, ih hp, Option.map_some]
      rfl
    · exact fun _ _ _ _ _ hd => absurd hd hu
  | case14 c rest' hquote hslash hcontrol ih =>
    obtain ⟨p, hp, heq⟩ := Option.map_eq_some_iff.mp h
    cases heq
    rw [List.flatMap_cons]
    by_cases hc : c.toNat < 127
    · rw [ascii_of_lt hc, List.singleton_append, scan.eq_def]
      simp only [if_neg hquote, if_neg hslash, if_neg hcontrol, ih hp, Option.map_some]
    · rw [scan_ascii_cons (Nat.le_of_not_lt hc), ih hp, Option.map_some]

end Quoted

/-! ### Values -/

namespace Json

open Quoted (ascii ascii_of_lt)

theorem head_ascii {cs r : List Char} {d : Char} (h : cs.flatMap ascii = d :: r) (hd : d ≠ '\\') :
    ∃ r', cs = d :: r' ∧ r = r'.flatMap ascii := by
  cases cs with
  | nil => cases h
  | cons c cs =>
    rw [List.flatMap_cons] at h
    by_cases hc : c.toNat < 127
    · rw [ascii_of_lt hc] at h
      cases h
      exact ⟨cs, rfl, rfl⟩
    · obtain ⟨u, hu⟩ := Quoted.ascii_of_le (Nat.le_of_not_lt hc)
      rw [hu] at h
      cases h
      exact absurd rfl hd

theorem skip_ascii (cs : List Char) : skip (cs.flatMap ascii) = (skip cs).flatMap ascii := by
  induction cs with
  | nil => rfl
  | cons c cs ih =>
    rw [List.flatMap_cons]
    by_cases hc : c.toNat < 127
    · rw [ascii_of_lt hc, List.singleton_append, skip, skip, List.dropWhile_cons, List.dropWhile_cons]
      split
      · exact ih
      · rw [List.flatMap_cons, ascii_of_lt hc]
        rfl
    · have hblank : blank c = false := by
        refine Bool.eq_false_iff.mpr fun h => hc ?_
        have hall : ∀ d ∈ [' ', '\t', '\n', '\r'], d.toNat < 127 := by decide
        exact hall c (by simpa [blank] using h)
      obtain ⟨u, hu⟩ := Quoted.ascii_of_le (Nat.le_of_not_lt hc)
      have hstop : skip (c :: cs) = c :: cs := List.dropWhile_cons_of_neg (by simp [hblank])
      rw [hstop, List.flatMap_cons, hu]
      rfl

/-- The text of a scalar is in ASCII. -/
theorem lt_of_read {t : List Char} {a : Scalar} (h : Scalar.read t = some a) {c : Char} (hc : c ∈ t) : c.toNat < 127 := by
  have hdigit : ∀ {d : Char}, d.isDigit → d.toNat < 127 := by
    intro d hd
    have hle : d ≤ '9' := by
      rw [Char.isDigit, Bool.and_eq_true, decide_eq_true_eq, decide_eq_true_eq] at hd
      exact hd.2
    exact Nat.lt_of_le_of_lt (Quoted.toNat_le hle) (by decide)
  unfold Scalar.read at h
  split at h
  · next w hw =>
    have ht : w.text = t := by simpa using List.find?_some hw
    have hall : ∀ w : Word, ∀ d ∈ w.text, d.toNat < 127 := by
      intro w
      cases w <;> decide
    exact hall w c (ht ▸ hc)
  · split_ifs at h with hwhole hnumeric hfloat
    · have hdigits : ∀ d ∈ Scalar.unsigned t, d.isDigit := by
        rw [Scalar.whole, Scalar.digits, Bool.and_eq_true, Bool.and_eq_true] at hwhole
        exact List.all_eq_true.mp hwhole.1.2
      unfold Scalar.unsigned at hdigits
      split at hdigits
      · rcases List.mem_cons.mp hc with rfl | hc
        · decide
        · exact hdigit (hdigits c hc)
      · exact hdigit (hdigits c hc)
    · rcases hnumeric.1 c hc with hd | hd
      · exact hdigit hd
      · have hall : ∀ d ∈ ['+', '-', '.', 'e'], d.toNat < 127 := by decide
        exact hall c hd

theorem flatMap_ascii_of_lt {t : List Char} (h : ∀ c ∈ t, c.toNat < 127) : t.flatMap ascii = t := by
  induction t with
  | nil => rfl
  | cons c t ih =>
    obtain ⟨hc, ht⟩ := List.forall_mem_cons.mp h
    rw [List.flatMap_cons, ascii_of_lt hc, ih ht]
    rfl

theorem scalar_ascii {cs : List Char} {a : Scalar} (h : Scalar.read (cs.takeWhile plainChar) = some a) :
    (cs.flatMap ascii).takeWhile plainChar = cs.takeWhile plainChar ∧
      (cs.flatMap ascii).dropWhile plainChar = (cs.dropWhile plainChar).flatMap ascii := by
  have hplain : ∀ c ∈ cs.takeWhile plainChar, plainChar c := List.all_eq_true.mp List.all_takeWhile
  have hstop : ((cs.dropWhile plainChar).flatMap ascii).takeWhile plainChar = [] ∧
      ((cs.dropWhile plainChar).flatMap ascii).dropWhile plainChar = (cs.dropWhile plainChar).flatMap ascii := by
    cases hrest : cs.dropWhile plainChar with
    | nil => exact ⟨rfl, rfl⟩
    | cons c rest =>
      have hc : plainChar c = false := by
        have hhead := List.head_dropWhile_not (p := plainChar) (l := cs) (by simp [hrest])
        simpa [hrest] using hhead
      have hlt : c.toNat < 127 := by
        have hall : ∀ d ∈ [' ', '\t', '\n', '\r', ',', ':', ']', '}', '[', '{', '"'], d.toNat < 127 := by decide
        refine hall c ?_
        rw [plainChar, Bool.and_eq_false_iff, Bool.not_eq_false', Bool.not_eq_false'] at hc
        rcases hc with hc | hc
        · simp only [Scalar.delimits, decide_eq_true_eq] at hc
          simp only [List.mem_cons] at hc ⊢
          tauto
        · simp only [blank, decide_eq_true_eq] at hc
          simp only [List.mem_cons] at hc ⊢
          tauto
      rw [List.flatMap_cons, ascii_of_lt hlt]
      exact ⟨List.takeWhile_cons_of_neg (by simp [hc]), List.dropWhile_cons_of_neg (by simp [hc])⟩
  have hsplit : cs.flatMap ascii = cs.takeWhile plainChar ++ (cs.dropWhile plainChar).flatMap ascii := by
    conv_lhs => rw [← List.takeWhile_append_dropWhile (p := plainChar) (l := cs)]
    rw [List.flatMap_append, flatMap_ascii_of_lt fun c hc => lt_of_read h hc]
  rw [hsplit, List.takeWhile_append_of_pos hplain, List.dropWhile_append_of_pos hplain, hstop.1, hstop.2, List.append_nil]
  exact ⟨rfl, rfl⟩

theorem ascii_cons {c : Char} (hc : c.toNat < 127) (cs : List Char) : (c :: cs).flatMap ascii = c :: cs.flatMap ascii := by
  rw [List.flatMap_cons, ascii_of_lt hc]
  rfl

/-- What begins a value in ASCII, where it is not a bracket nor a quote. -/
theorem scalar_head {cs : List Char} (hstring : ∀ rest, cs ≠ '"' :: rest) (hlist : ∀ rest, cs ≠ '[' :: rest)
    (hobject : ∀ rest, cs ≠ '{' :: rest) (n : ℕ) :
    parseValue (n + 1) (cs.flatMap ascii) = (Scalar.read ((cs.flatMap ascii).takeWhile plainChar)).map fun a =>
      (.scalar a, (cs.flatMap ascii).dropWhile plainChar) := by
  have hhead : ∀ {d : Char} {r : List Char}, d ≠ '\\' → (∀ rest, cs ≠ d :: rest) → cs.flatMap ascii ≠ d :: r := by
    intro d r hd hne h
    obtain ⟨r', hr, -⟩ := head_ascii h hd
    exact hne r' hr
  rw [parseValue]
  · exact fun rest => hhead (by decide) hstring
  · exact fun rest => hhead (by decide) hlist
  · exact fun rest => hhead (by decide) hobject

/-- What a parser reads at a depth, it reads in ASCII, too, in no less depth. -/
def Reads {α : Type} (parse : ℕ → List Char → Option (α × List Char)) (n : ℕ) : Prop :=
  ∀ cs a rest, parse n cs = some (a, rest) → ∀ m ≥ n, parse m (cs.flatMap ascii) = some (a, rest.flatMap ascii)

theorem reads_value {n : ℕ} (hitems : Reads parseItems n) (hfields : Reads parseFields n) : Reads parseValue (n + 1) := by
  intro cs j rest h m hm
  obtain ⟨m, rfl⟩ : ∃ k, m = k + 1 := ⟨m - 1, by omega⟩
  have hle : m ≥ n := Nat.le_of_succ_le_succ hm
  rw [parseValue.eq_def] at h
  dsimp only at h
  split at h
  · next t =>
    obtain ⟨p, hp, heq⟩ := Option.map_eq_some_iff.mp h
    cases heq
    rw [ascii_cons (by decide), parseValue, Quoted.scan_ascii hp]
    rfl
  · next t =>
    rw [ascii_cons (by decide), parseValue, skip_ascii]
    split at h
    · next hclose =>
      cases h
      rw [hclose, ascii_cons (by decide)]
      rfl
    · next hopen =>
      obtain ⟨p, hp, heq⟩ := Option.map_eq_some_iff.mp h
      cases heq
      split
      · next hclose =>
        obtain ⟨r', hr, -⟩ := head_ascii hclose (by decide)
        exact absurd hr (hopen r')
      · rw [hitems _ _ _ hp m hle]
        rfl
  · next t =>
    rw [ascii_cons (by decide), parseValue, skip_ascii]
    split at h
    · next hclose =>
      cases h
      rw [hclose, ascii_cons (by decide)]
      rfl
    · next hopen =>
      obtain ⟨p, hp, heq⟩ := Option.map_eq_some_iff.mp h
      cases heq
      split
      · next hclose =>
        obtain ⟨r', hr, -⟩ := head_ascii hclose (by decide)
        exact absurd hr (hopen r')
      · rw [hfields _ _ _ hp m hle]
        rfl
  · next hstring hlist hobject =>
    obtain ⟨a, ha, heq⟩ := Option.map_eq_some_iff.mp h
    cases heq
    obtain ⟨htake, hdrop⟩ := scalar_ascii ha
    rw [scalar_head hstring hlist hobject, htake, hdrop, ha]
    rfl

theorem reads_items {n : ℕ} (hvalue : Reads parseValue n) (hitems : Reads parseItems n) : Reads parseItems (n + 1) := by
  intro cs items rest h m hm
  obtain ⟨m, rfl⟩ : ∃ k, m = k + 1 := ⟨m - 1, by omega⟩
  have hle : m ≥ n := Nat.le_of_succ_le_succ hm
  rw [parseItems] at h ⊢
  split at h
  · cases h
  · next j t hj =>
    rw [hvalue _ _ _ hj m hle]
    dsimp only
    rw [skip_ascii]
    split at h
    · next hclose =>
      cases h
      rw [hclose, ascii_cons (by decide)]
      rfl
    · next hcomma =>
      obtain ⟨p, hp, heq⟩ := Option.map_eq_some_iff.mp h
      cases heq
      rw [hcomma, ascii_cons (by decide)]
      show (parseItems m (skip _)).map _ = _
      rw [skip_ascii, hitems _ _ _ hp m hle]
      rfl
    · cases h

theorem reads_fields {n : ℕ} (hvalue : Reads parseValue n) (hfields : Reads parseFields n) : Reads parseFields (n + 1) := by
  intro cs fields rest h m hm
  obtain ⟨m, rfl⟩ : ∃ k, m = k + 1 := ⟨m - 1, by omega⟩
  have hle : m ≥ n := Nat.le_of_succ_le_succ hm
  rw [parseFields.eq_def] at h
  split at h
  · next n' t heqn =>
    cases heqn
    rw [ascii_cons (by decide), parseFields]
    split at h
    · cases h
    · next k t hk =>
      rw [Quoted.scan_ascii hk]
      dsimp only
      rw [skip_ascii]
      split at h
      · next hcolon =>
        rw [hcolon, ascii_cons (by decide)]
        simp only [skip_ascii]
        split at h
        · cases h
        · next j t hj =>
          rw [hvalue _ _ _ hj m hle]
          dsimp only
          rw [skip_ascii]
          split at h
          · next hclose =>
            cases h
            rw [hclose, ascii_cons (by decide)]
            rfl
          · next hcomma =>
            obtain ⟨p, hp, heq⟩ := Option.map_eq_some_iff.mp h
            cases heq
            rw [hcomma, ascii_cons (by decide)]
            show (parseFields m (skip _)).map _ = _
            rw [skip_ascii, hfields _ _ _ hp m hle]
            rfl
          · cases h
      · cases h
  · cases h

theorem reads_all (n : ℕ) : Reads parseValue n ∧ Reads parseItems n ∧ Reads parseFields n := by
  induction n with
  | zero =>
    have hnone : ∀ cs, parseFields 0 cs = none := fun cs => by rw [parseFields.eq_def]
    refine ⟨fun cs j rest h => ?_, fun cs items rest h => ?_, fun cs fields rest h => ?_⟩
    · cases h
    · cases h
    · rw [hnone] at h
      cases h
  | succ n ih => exact ⟨reads_value ih.2.1 ih.2.2, reads_items ih.1 ih.2.1, reads_fields ih.1 ih.2.2⟩

theorem length_le_ascii (cs : List Char) : cs.length ≤ (cs.flatMap ascii).length := by
  induction cs with
  | nil => exact Nat.zero_le _
  | cons c cs ih =>
    have hc : 0 < (ascii c).length := by
      by_cases hlt : c.toNat < 127
      · rw [ascii_of_lt hlt]
        exact Nat.zero_lt_one
      · obtain ⟨u, hu⟩ := Quoted.ascii_of_le (Nat.le_of_not_lt hlt)
        rw [hu]
        exact Nat.succ_pos _
    rw [List.flatMap_cons, List.length_append, List.length_cons]
    omega

theorem loads_ascii {cs : List Char} {j : Json} (h : loads cs = some j) : loads (cs.flatMap ascii) = some j := by
  have hlength := length_le_ascii cs
  unfold loads at h ⊢
  split at h
  · cases h
  · next k rest hparse =>
    split at h
    · next hskip =>
      cases h
      rw [skip_ascii, (reads_all _).1 _ _ _ hparse _ (by omega)]
      dsimp only
      rw [skip_ascii, hskip]
      rfl
    · cases h

/-! ### The default of `json.dumps` -/

/-- `json.dumps` with `sort_keys`, in ASCII. -/
def dumpsAscii (j : Json) : List Char := j.sorted.text.flatMap ascii

theorem sortKeys_sortKeys (fields : List (String × Json)) : sortKeys (sortKeys fields) = sortKeys fields := by
  refine List.mergeSort_of_pairwise ?_
  simpa using sortKeys_pairwise fields

mutual

theorem sorted_sorted (j : Json) : j.sorted.sorted = j.sorted := by
  match j with
  | .scalar a => rw [sorted, sorted]
  | .str s => rw [sorted, sorted]
  | .list items => rw [sorted, sorted, sortedItems_sortedItems items]
  | .object fields =>
    have hfields : sortedFields (sortKeys (sortedFields fields)) = sortKeys (sortedFields fields) := by
      rw [sortedFields_eq (sortKeys _)]
      refine (List.map_congr_left fun p hp => ?_).trans (List.map_id _)
      rw [sorted_of_mem fields p ((sortKeys_perm _).mem_iff.mp hp)]
      rfl
    rw [sorted, sorted, hfields, sortKeys_sortKeys]

theorem sortedItems_sortedItems (items : List Json) : sortedItems (sortedItems items) = sortedItems items := by
  match items with
  | [] => rw [sortedItems, sortedItems]
  | j :: rest => rw [sortedItems, sortedItems, sorted_sorted j, sortedItems_sortedItems rest]

/-- The values of sorted fields are sorted. -/
theorem sorted_of_mem (fields : List (String × Json)) (p : String × Json) (hp : p ∈ sortedFields fields) : p.2.sorted = p.2 := by
  match fields with
  | [] =>
    rw [sortedFields] at hp
    cases hp
  | (k, j) :: rest =>
    rw [sortedFields] at hp
    rcases List.mem_cons.mp hp with rfl | hp
    · exact sorted_sorted j
    · exact sorted_of_mem rest p hp

end

theorem keys_sortedFields (fields : List (String × Json)) : (sortedFields fields).map Prod.fst = fields.map Prod.fst := by
  rw [sortedFields_eq, List.map_map]
  rfl

theorem readableFields_iff {fields : List (String × Json)} : readableFields fields = true ↔ ∀ p ∈ fields, p.2.readable = true := by
  induction fields with
  | nil => simp [readableFields]
  | cons p fields ih => rw [readableFields, Bool.and_eq_true, ih, List.forall_mem_cons]

mutual

theorem keyed_sorted (j : Json) (h : j.Keyed) : j.sorted.Keyed := by
  match j with
  | .scalar a => rwa [sorted]
  | .str s => rwa [sorted]
  | .list items =>
    rw [Keyed] at h
    rw [sorted, Keyed]
    exact keyedItems_sorted items h
  | .object fields =>
    rw [Keyed] at h
    rw [sorted, Keyed, keyedFields_iff]
    have hkeys : ((sortedFields fields).map Prod.fst).Nodup := by
      rw [keys_sortedFields]
      exact h.1
    exact ⟨((sortKeys_perm _).map Prod.fst).nodup_iff.mpr hkeys, fun p hp =>
      keyed_of_mem fields h.2 p ((sortKeys_perm _).mem_iff.mp hp)⟩

theorem keyedItems_sorted (items : List Json) (h : KeyedItems items) : KeyedItems (sortedItems items) := by
  match items with
  | [] => rwa [sortedItems]
  | j :: rest =>
    rw [KeyedItems] at h
    rw [sortedItems, KeyedItems]
    exact ⟨keyed_sorted j h.1, keyedItems_sorted rest h.2⟩

theorem keyed_of_mem (fields : List (String × Json)) (h : KeyedFields fields) (p : String × Json)
    (hp : p ∈ sortedFields fields) : p.2.Keyed := by
  match fields with
  | [] =>
    rw [sortedFields] at hp
    cases hp
  | (k, j) :: rest =>
    rw [KeyedFields] at h
    rw [sortedFields] at hp
    rcases List.mem_cons.mp hp with rfl | hp
    · exact keyed_sorted j h.1
    · exact keyed_of_mem rest h.2 p hp

end

mutual

theorem readable_sorted (j : Json) (h : j.readable) : j.sorted.readable := by
  match j with
  | .scalar a => rwa [sorted]
  | .str s => rwa [sorted]
  | .list items =>
    rw [readable] at h
    rw [sorted, readable]
    exact readableItems_sorted items h
  | .object fields =>
    rw [readable] at h
    rw [sorted, readable, readableFields_iff]
    exact fun p hp => readable_of_mem fields h p ((sortKeys_perm _).mem_iff.mp hp)

theorem readableItems_sorted (items : List Json) (h : readableItems items) : readableItems (sortedItems items) := by
  match items with
  | [] => rwa [sortedItems]
  | j :: rest =>
    rw [readableItems, Bool.and_eq_true] at h
    rw [sortedItems, readableItems, Bool.and_eq_true]
    exact ⟨readable_sorted j h.1, readableItems_sorted rest h.2⟩

theorem readable_of_mem (fields : List (String × Json)) (h : readableFields fields) (p : String × Json)
    (hp : p ∈ sortedFields fields) : p.2.readable := by
  match fields with
  | [] =>
    rw [sortedFields] at hp
    cases hp
  | (k, j) :: rest =>
    rw [readableFields, Bool.and_eq_true] at h
    rw [sortedFields] at hp
    rcases List.mem_cons.mp hp with rfl | hp
    · exact readable_sorted j h.1
    · exact readable_of_mem rest h.2 p hp

end

/-- Sorting its keys leaves a value the same. -/
theorem sorted_same {j : Json} (h : j.Keyed) : j.sorted.Same j :=
  (sorted_eq_iff _ _ (keyed_sorted j h) h).mp (sorted_sorted j)

/-- What was written is read back, with its keys in order. -/
theorem loads_dumpsAscii {j : Json} (hj : j.Keyed) (hread : j.readable) : loads j.dumpsAscii = some j.sorted :=
  loads_ascii (loads_text (keyed_sorted j hj) (readable_sorted j hread))

end Json

end AutomlApi
