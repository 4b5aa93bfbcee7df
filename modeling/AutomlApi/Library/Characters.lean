import AutomlApi.Library.Reader

/-! The characters of a JSON text. Only a string can put one in it that is not printable
ASCII, and a text that stops at such a character, or goes on there with the end of a
line, is refused by `json.loads`. -/

namespace AutomlApi.Json

-- Only the elements of a list are asked, not every character.
attribute [local instance (2000)] List.decidableBAll List.decidableBEx

open Scalar (delimits)

/-! ### Texts that stop inside a string -/

theorem split_text {a b p q : List Char} {c : Char} (h : a ++ b = p ++ c :: q) :
    (∃ q', a = p ++ c :: q') ∨ ∃ p', p = a ++ p' ∧ b = p' ++ c :: q := by
  rcases List.append_eq_append_iff.mp h with ⟨p', hp, hb⟩ | ⟨q', ha, hq⟩
  · exact .inr ⟨p', hp, hb⟩
  · cases q' with
    | nil => exact .inr ⟨[], by simpa using ha.symm, by simpa using hq.symm⟩
    | cons d q' =>
      rw [List.cons_append] at hq
      obtain ⟨rfl, -⟩ := List.cons.inj hq
      exact .inl ⟨q', ha⟩

/-- What comes where a text stops inside a string: nothing, or the end of a line. -/
def Stops (r : List Char) : Prop := r = [] ∨ ∃ rest, r = '\n' :: rest

variable {c : Char} {p q r : List Char}

theorem scan_stops (hr : Stops r) : Quoted.scan r = none := by
  rcases hr with rfl | ⟨rest, rfl⟩
  · rw [Quoted.scan.eq_def]
  · rw [Quoted.scan.eq_def]
    rfl

/-- A character that is not ASCII stands for itself, and no other one is written with it. -/
theorem escape_of_mem {d : Char} (hc : 128 ≤ c.toNat) (h : c ∈ Quoted.escape d) : Quoted.escape d = [c] ∧ c = d := by
  unfold Quoted.escape at h ⊢
  cases hf : Quoted.short.find? (·.1 = d) with
  | some e =>
    rw [hf] at h
    have hall : ∀ e ∈ Quoted.short, e.2.toNat < 128 := by decide
    have hascii := hall e (List.mem_of_find?_eq_some hf)
    rcases List.mem_cons.mp h with rfl | h
    · exact absurd hc (by decide)
    · rw [List.mem_singleton.mp h] at hc
      omega
  | none =>
    rw [hf] at h
    dsimp only at h ⊢
    by_cases hlt : d.toNat < 32
    · rw [if_pos hlt] at h
      have hhex : ∀ n < 32, (Quoted.hexDigit (n / 16)).toNat < 128 ∧ (Quoted.hexDigit (n % 16)).toNat < 128 := by decide
      obtain ⟨hhigh, hlow⟩ := hhex d.toNat hlt
      simp only [List.mem_cons, List.not_mem_nil, or_false] at h
      rcases h with rfl | rfl | rfl | rfl | rfl | rfl
      all_goals first | exact absurd hc (by decide) | omega
    · rw [if_neg hlt] at h ⊢
      cases List.mem_singleton.mp h
      exact ⟨rfl, rfl⟩

theorem scan_cut (hc : 128 ≤ c.toNat) (hr : Stops r) {l : List Char}
    (h : l.flatMap Quoted.escape ++ ['"'] = p ++ c :: q) : Quoted.scan (p ++ r) = none := by
  induction l generalizing p with
  | nil =>
    have hmem : c ∈ ['"'] := by
      rw [List.flatMap_nil, List.nil_append] at h
      rw [h]
      simp
    cases List.mem_singleton.mp hmem
    exact absurd hc (by decide)
  | cons d l ih =>
    rw [List.flatMap_cons, List.append_assoc] at h
    rcases split_text h with ⟨q', hd⟩ | ⟨p', rfl, hrest⟩
    · obtain ⟨hone, -⟩ := escape_of_mem (d := d) hc (by rw [hd]; simp)
      have hp : p = [] := by
        have hlength := congrArg List.length (hd.symm.trans hone)
        rw [List.length_append, List.length_cons, List.length_singleton] at hlength
        exact List.length_eq_zero_iff.mp (by omega)
      rw [hp]
      exact scan_stops hr
    · rw [List.append_assoc, Quoted.scan_escape, ih hrest, Option.map_none]

theorem key_cut (hc : 128 ≤ c.toNat) (hr : Stops r) {k : String} (h : Quoted.text k = p ++ c :: q) :
    ∃ p', p = '"' :: p' ∧ Quoted.scan (p' ++ r) = none := by
  cases p with
  | nil =>
    cases (List.cons.inj h).1
    exact absurd hc (by decide)
  | cons d p =>
    obtain ⟨rfl, hrest⟩ := List.cons.inj h
    exact ⟨p, rfl, scan_cut hc hr hrest⟩

/-- A text cut later than at its beginning still begins as a text of a value. -/
theorem Begins.cut (h : Begins (p ++ c :: q)) (hc : 128 ≤ c.toNat) (r : List Char) : Begins (p ++ r) := by
  obtain ⟨d, rest, heq, hascii, hd⟩ := h
  cases p with
  | nil =>
    cases (List.cons.inj heq).1
    omega
  | cons e p =>
    obtain ⟨rfl, -⟩ := List.cons.inj heq
    exact ⟨e, p ++ r, rfl, hascii, hd⟩

/-- Where a text goes on with more than the end of a value, that end begins with a delimiter. -/
theorem ends_cut {t : List Char} (ht : ∃ d rest, t = d :: rest ∧ delimits d) (hc : 128 ≤ c.toNat)
    (h : t = p ++ c :: q) (r : List Char) : Ends (p ++ r) ∧ 0 < p.length := by
  obtain ⟨d, rest, rfl, hd⟩ := ht
  cases p with
  | nil =>
    rw [(List.cons.inj h).1] at hd
    have : c = ',' ∨ c = ':' ∨ c = ']' ∨ c = '}' ∨ c = '[' ∨ c = '{' ∨ c = '"' := by simpa [delimits] using hd
    rcases this with rfl | rfl | rfl | rfl | rfl | rfl | rfl <;> exact absurd hc (by decide)
  | cons e p =>
    obtain ⟨rfl, -⟩ := List.cons.inj h
    refine ⟨fun f rest hf => ?_, Nat.succ_pos _⟩
    cases (List.cons.inj hf).1
    exact hd

theorem items_delimited (items : List Json) : ∃ d rest, textItems items = d :: rest ∧ delimits d := by
  cases items <;> rw [textItems] <;> exact ⟨_, _, rfl, rfl⟩

theorem fields_delimited (fields : List (String × Json)) : ∃ d rest, textFields fields = d :: rest ∧ delimits d := by
  cases fields <;> rw [textFields] <;> exact ⟨_, _, rfl, rfl⟩

mutual

/-- A text of a value that stops inside a string is refused. -/
theorem parseValue_cut (j : Json) (n : ℕ) (p q : List Char) (hj : j.Keyed) (hread : j.readable) (hc : 128 ≤ c.toNat)
    (hr : Stops r) (hn : 2 * p.length ≤ n) (h : j.text = p ++ c :: q) : parseValue n (p ++ r) = none := by
  have hmem : c ∈ j.text := by
    rw [h]
    simp
  match j, n with
  | _, 0 => rfl
  | .scalar a, n + 1 =>
    rw [text] at hmem
    have := Scalar.ascii_text hmem
    omega
  | .str s, n + 1 =>
    rw [text] at h
    obtain ⟨p', rfl, hscan⟩ := key_cut hc hr h
    rw [List.cons_append, parseValue, hscan, Option.map_none]
  | .list [], n + 1 | .object [], n + 1 =>
    rw [text] at hmem
    simp only [List.mem_cons, List.not_mem_nil, or_false] at hmem
    rcases hmem with rfl | rfl <;> exact absurd hc (by decide)
  | .list (j :: items), n + 1 =>
    rw [Keyed] at hj
    rw [readable] at hread
    rw [text] at h
    match p with
    | [] =>
      cases (List.cons.inj h).1
      exact absurd hc (by decide)
    | d :: p =>
      obtain ⟨rfl, hrest⟩ := List.cons.inj h
      have hbegins := (hrest ▸ begins_text j (textItems items)).cut hc r
      rw [List.length_cons] at hn
      rw [List.cons_append, parseList n hbegins, parseItems_cut j items n p q hj hread hc hr (by omega) hrest,
        Option.map_none]
  | .object ((k, j) :: fields), n + 1 =>
    rw [Keyed] at hj
    rw [readable] at hread
    rw [text] at h
    match p with
    | [] =>
      cases (List.cons.inj h).1
      exact absurd hc (by decide)
    | d :: p =>
      obtain ⟨rfl, hrest⟩ := List.cons.inj h
      have hbegins := (hrest ▸ begins_key k (':' :: (j.text ++ textFields fields))).cut hc r
      rw [List.length_cons] at hn
      rw [List.cons_append, parseObject n hbegins, parseFields_cut k j fields n p q hj.2 hread hc hr (by omega) hrest,
        Option.map_none]

theorem parseItems_cut (j : Json) (items : List Json) (n : ℕ) (p q : List Char) (hj : KeyedItems (j :: items))
    (hread : readableItems (j :: items)) (hc : 128 ≤ c.toNat) (hr : Stops r) (hn : 2 * p.length + 1 ≤ n)
    (h : j.text ++ textItems items = p ++ c :: q) : parseItems n (p ++ r) = none := by
  rw [KeyedItems] at hj
  rw [readableItems, Bool.and_eq_true] at hread
  match n with
  | 0 => rfl
  | n + 1 =>
    rw [parseItems]
    rcases split_text h with ⟨q', hvalue⟩ | ⟨p', rfl, htail⟩
    · rw [parseValue_cut j n p q' hj.1 hread.1 hc hr (by omega) hvalue]
    · obtain ⟨hends, hpos⟩ := ends_cut (items_delimited items) hc htail r
      rw [List.length_append] at hn
      rw [List.append_assoc, parseValue_text j n _ hj.1 hread.1 (by omega) hends]
      match items with
      | [] =>
        have hmem : c ∈ textItems [] := by
          rw [htail]
          simp
        rw [textItems, List.mem_singleton] at hmem
        cases hmem
        exact absurd hc (by decide)
      | k :: items =>
        rw [textItems] at htail
        match p' with
        | d :: p' =>
          obtain ⟨rfl, hrest⟩ := List.cons.inj htail
          have hbegins := (hrest ▸ begins_text k (textItems items)).cut hc r
          rw [List.length_cons] at hn
          dsimp only
          rw [List.cons_append, skip, List.dropWhile_cons_of_neg (by decide)]
          show (parseItems n (skip (p' ++ r))).map _ = _
          rw [hbegins.skip, parseItems_cut k items n p' q hj.2 hread.2 hc hr (by omega) hrest, Option.map_none]

theorem parseFields_cut (k : String) (j : Json) (fields : List (String × Json)) (n : ℕ) (p q : List Char)
    (hj : KeyedFields ((k, j) :: fields)) (hread : readableFields ((k, j) :: fields)) (hc : 128 ≤ c.toNat)
    (hr : Stops r) (hn : 2 * p.length + 1 ≤ n)
    (h : Quoted.text k ++ ':' :: (j.text ++ textFields fields) = p ++ c :: q) : parseFields n (p ++ r) = none := by
  rw [KeyedFields] at hj
  rw [readableFields, Bool.and_eq_true] at hread
  match n with
  | 0 => rw [parseFields.eq_def]
  | n + 1 =>
    rcases split_text h with ⟨q', hkey⟩ | ⟨p', rfl, hafter⟩
    · obtain ⟨p', rfl, hscan⟩ := key_cut hc hr hkey
      rw [List.cons_append, parseFields, hscan]
    · match p' with
      | [] =>
        cases (List.cons.inj hafter).1
        exact absurd hc (by decide)
      | d :: p' =>
        obtain ⟨rfl, hfield⟩ := List.cons.inj hafter
        have hbegins := (hfield ▸ begins_text j (textFields fields)).cut hc r
        rw [List.length_append, List.length_cons] at hn
        rw [List.append_assoc, List.cons_append, parseFields_key k n hbegins]
        rcases split_text hfield with ⟨q', hvalue⟩ | ⟨p', rfl, htail⟩
        · rw [parseValue_cut j n p' q' hj.1 hread.1 hc hr (by omega) hvalue]
        · obtain ⟨hends, hpos⟩ := ends_cut (fields_delimited fields) hc htail r
          rw [List.length_append] at hn
          rw [List.append_assoc, parseValue_text j n _ hj.1 hread.1 (by omega) hends]
          match fields with
          | [] =>
            have hmem : c ∈ textFields [] := by
              rw [htail]
              simp
            rw [textFields, List.mem_singleton] at hmem
            cases hmem
            exact absurd hc (by decide)
          | (l, i) :: fields =>
            rw [textFields] at htail
            match p' with
            | d :: p' =>
              obtain ⟨rfl, hrest⟩ := List.cons.inj htail
              have hbegins := (hrest ▸ begins_key l (':' :: (i.text ++ textFields fields))).cut hc r
              rw [List.length_cons] at hn
              dsimp only
              rw [List.cons_append, skip, List.dropWhile_cons_of_neg (by decide)]
              show (parseFields n (skip (p' ++ r))).map _ = _
              rw [hbegins.skip, parseFields_cut l i fields n p' q hj.2 hread.2 hc hr (by omega) hrest, Option.map_none]

end

theorem loads_cut {j : Json} (hj : j.Keyed) (hread : j.readable) (hc : 128 ≤ c.toNat) (hr : Stops r)
    (h : j.text = p ++ c :: q) : loads (p ++ r) = none := by
  have hbegins := begins_text j []
  rw [List.append_nil, h] at hbegins
  rw [loads, (hbegins.cut hc r).skip,
    parseValue_cut j _ p q hj hread hc hr (by rw [List.length_append]; omega) h]

/-! ### The characters of a text -/

mutual

/-- The strings of a value, at any depth, and the keys of its objects. -/
def strings : Json → List String
  | .scalar _ => []
  | .str s => [s]
  | .list items => stringsItems items
  | .object fields => stringsFields fields

def stringsItems : List Json → List String
  | [] => []
  | j :: rest => j.strings ++ stringsItems rest

def stringsFields : List (String × Json) → List String
  | [] => []
  | (k, j) :: rest => k :: (j.strings ++ stringsFields rest)

end

/-- A character of a text is of one of its strings, or is printable ASCII. -/
def Written (strings : List String) (d : Char) : Prop :=
  (32 ≤ d.toNat ∧ d.toNat < 128) ∨ 128 ≤ d.toNat ∧ ∃ s ∈ strings, d ∈ s.toList

theorem Written.mono {ss ts : List String} {d : Char} (h : Written ss d) (hsub : ∀ s ∈ ss, s ∈ ts) : Written ts d := by
  rcases h with h | ⟨h, s, hs, hd⟩
  · exact .inl h
  · exact .inr ⟨h, s, hsub s hs, hd⟩

theorem written_key {k : String} {d : Char} (h : d ∈ Quoted.text k) : Written [k] d := by
  have hquote : Written [k] '"' := .inl (by decide)
  rcases List.mem_cons.mp h with rfl | h
  · exact hquote
  rcases List.mem_append.mp h with h | h
  · obtain ⟨e, he, hd⟩ := List.mem_flatMap.mp h
    by_cases hascii : 128 ≤ d.toNat
    · obtain ⟨-, rfl⟩ := escape_of_mem hascii hd
      exact .inr ⟨hascii, k, List.mem_singleton_self k, he⟩
    · refine .inl ⟨?_, Nat.lt_of_not_le hascii⟩
      unfold Quoted.escape at hd
      cases hf : Quoted.short.find? (·.1 = e) with
      | some f =>
        rw [hf] at hd
        have hall : ∀ f ∈ Quoted.short, 32 ≤ f.2.toNat := by decide
        rcases List.mem_cons.mp hd with rfl | hd
        · decide
        · rw [List.mem_singleton.mp hd]
          exact hall f (List.mem_of_find?_eq_some hf)
      | none =>
        rw [hf] at hd
        dsimp only at hd
        split at hd
        · rename_i hlt
          have hhex : ∀ n < 32, 32 ≤ (Quoted.hexDigit (n / 16)).toNat ∧ 32 ≤ (Quoted.hexDigit (n % 16)).toNat := by
            decide
          obtain ⟨hhigh, hlow⟩ := hhex e.toNat hlt
          simp only [List.mem_cons, List.not_mem_nil, or_false] at hd
          rcases hd with rfl | rfl | rfl | rfl | rfl | rfl
          all_goals first | decide | assumption
        · rw [List.mem_singleton.mp hd]
          omega
  · rw [List.mem_singleton.mp h]
    exact hquote

theorem printable_scalar {a : Scalar} {d : Char} (h : d ∈ a.text) : 32 ≤ d.toNat := by
  have hnumeric : ∀ {d : Char}, d.isDigit ∨ d ∈ ['+', '-', '.', 'e'] → 32 ≤ d.toNat := by
    rintro d (hd | hd)
    · simp only [Char.isDigit, Bool.and_eq_true, decide_eq_true_eq] at hd
      have : 48 ≤ d.toNat := hd.1
      omega
    · simp only [List.mem_cons, List.not_mem_nil, or_false] at hd
      rcases hd with rfl | rfl | rfl | rfl <;> decide
  cases a with
  | word w =>
    have hall : ∀ w : Word, ∀ d ∈ w.text, 32 ≤ d.toNat := by
      intro w
      cases w <;> decide
    exact hall w d h
  | int i => exact hnumeric (Scalar.mem_text_int h)
  | decimal e => exact hnumeric (e.numeric d h)

mutual

theorem written_text (j : Json) (d : Char) (h : d ∈ j.text) : Written j.strings d := by
  match j with
  | .scalar a =>
    rw [text] at h
    exact .inl ⟨printable_scalar h, Scalar.ascii_text h⟩
  | .str s =>
    rw [text] at h
    rw [strings]
    exact written_key h
  | .list [] | .object [] =>
    rw [text] at h
    simp only [List.mem_cons, List.not_mem_nil, or_false] at h
    rcases h with rfl | rfl <;> exact .inl (by decide)
  | .list (j :: items) =>
    rw [text] at h
    rw [strings, stringsItems]
    rcases List.mem_cons.mp h with rfl | h
    · exact .inl (by decide)
    rcases List.mem_append.mp h with h | h
    · exact (written_text j d h).mono fun s hs => List.mem_append_left _ hs
    · exact (written_items items d h).mono fun s hs => List.mem_append_right _ hs
  | .object ((k, j) :: fields) =>
    rw [text] at h
    rw [strings, stringsFields]
    rcases List.mem_cons.mp h with rfl | h
    · exact .inl (by decide)
    rcases List.mem_append.mp h with h | h
    · exact (written_key h).mono fun s hs => by simp [List.mem_singleton.mp hs]
    rcases List.mem_cons.mp h with rfl | h
    · exact .inl (by decide)
    rcases List.mem_append.mp h with h | h
    · exact (written_text j d h).mono fun s hs => List.mem_cons_of_mem _ (List.mem_append_left _ hs)
    · exact (written_fields fields d h).mono fun s hs => List.mem_cons_of_mem _ (List.mem_append_right _ hs)

theorem written_items (items : List Json) (d : Char) (h : d ∈ textItems items) : Written (stringsItems items) d := by
  match items with
  | [] =>
    rw [textItems, List.mem_singleton] at h
    exact .inl (by rw [h]; decide)
  | j :: items =>
    rw [textItems] at h
    rw [stringsItems]
    rcases List.mem_cons.mp h with rfl | h
    · exact .inl (by decide)
    rcases List.mem_append.mp h with h | h
    · exact (written_text j d h).mono fun s hs => List.mem_append_left _ hs
    · exact (written_items items d h).mono fun s hs => List.mem_append_right _ hs

theorem written_fields (fields : List (String × Json)) (d : Char) (h : d ∈ textFields fields) :
    Written (stringsFields fields) d := by
  match fields with
  | [] =>
    rw [textFields, List.mem_singleton] at h
    exact .inl (by rw [h]; decide)
  | (k, j) :: fields =>
    rw [textFields] at h
    rw [stringsFields]
    rcases List.mem_cons.mp h with rfl | h
    · exact .inl (by decide)
    rcases List.mem_append.mp h with h | h
    · exact (written_key h).mono fun s hs => by simp [List.mem_singleton.mp hs]
    rcases List.mem_cons.mp h with rfl | h
    · exact .inl (by decide)
    rcases List.mem_append.mp h with h | h
    · exact (written_text j d h).mono fun s hs => List.mem_cons_of_mem _ (List.mem_append_left _ hs)
    · exact (written_fields fields d h).mono fun s hs => List.mem_cons_of_mem _ (List.mem_append_right _ hs)

end

theorem mem_key {k : String} (hc : 128 ≤ c.toNat) (h : c ∈ k.toList) : c ∈ Quoted.text k := by
  refine List.mem_cons_of_mem _ (List.mem_append_left _ (List.mem_flatMap.mpr ⟨c, h, ?_⟩))
  have hshort : Quoted.short.find? (·.1 = c) = none := by
    have hall : ∀ e ∈ Quoted.short, e.1.toNat < 128 := by decide
    refine List.find?_eq_none.mpr fun e he heq => ?_
    have hascii := hall e he
    rw [of_decide_eq_true heq] at hascii
    omega
  rw [Quoted.escape, hshort]
  dsimp only
  rw [if_neg (by omega)]
  exact List.mem_singleton_self c

mutual

/-- A character that is not ASCII is written as it is. -/
theorem mem_text_of_strings (j : Json) (s : String) (hc : 128 ≤ c.toNat) (hs : s ∈ j.strings) (h : c ∈ s.toList) :
    c ∈ j.text := by
  match j with
  | .scalar _ | .list [] | .object [] => cases hs
  | .str t =>
    rw [strings, List.mem_singleton] at hs
    rw [text, ← hs]
    exact mem_key hc h
  | .list (j :: items) =>
    rw [strings, stringsItems] at hs
    rw [text]
    refine List.mem_cons_of_mem _ (List.mem_append.mpr ?_)
    exact (List.mem_append.mp hs).imp (fun hs => mem_text_of_strings j s hc hs h)
      fun hs => mem_items_of_strings items s hc hs h
  | .object ((k, j) :: fields) =>
    rw [strings, stringsFields] at hs
    rw [text]
    refine List.mem_cons_of_mem _ (List.mem_append.mpr ?_)
    rcases List.mem_cons.mp hs with rfl | hs
    · exact .inl (mem_key hc h)
    · refine .inr (List.mem_cons_of_mem _ (List.mem_append.mpr ?_))
      exact (List.mem_append.mp hs).imp (fun hs => mem_text_of_strings j s hc hs h)
        fun hs => mem_fields_of_strings fields s hc hs h

theorem mem_items_of_strings (items : List Json) (s : String) (hc : 128 ≤ c.toNat) (hs : s ∈ stringsItems items)
    (h : c ∈ s.toList) : c ∈ textItems items := by
  match items with
  | [] => cases hs
  | j :: items =>
    rw [stringsItems] at hs
    rw [textItems]
    refine List.mem_cons_of_mem _ (List.mem_append.mpr ?_)
    exact (List.mem_append.mp hs).imp (fun hs => mem_text_of_strings j s hc hs h)
      fun hs => mem_items_of_strings items s hc hs h

theorem mem_fields_of_strings (fields : List (String × Json)) (s : String) (hc : 128 ≤ c.toNat)
    (hs : s ∈ stringsFields fields) (h : c ∈ s.toList) : c ∈ textFields fields := by
  match fields with
  | [] => cases hs
  | (k, j) :: fields =>
    rw [stringsFields] at hs
    rw [textFields]
    refine List.mem_cons_of_mem _ (List.mem_append.mpr ?_)
    rcases List.mem_cons.mp hs with rfl | hs
    · exact .inl (mem_key hc h)
    · refine .inr (List.mem_cons_of_mem _ (List.mem_append.mpr ?_))
      exact (List.mem_append.mp hs).imp (fun hs => mem_text_of_strings j s hc hs h)
        fun hs => mem_fields_of_strings fields s hc hs h

end

end AutomlApi.Json
