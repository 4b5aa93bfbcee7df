import Mathlib.Algebra.Order.Group.Nat
import Mathlib.Data.List.Induction
import Mathlib.Data.Prod.Lex
import AutomlApi.Library.Integers

/-! Addresses of the internet protocol, as numbers and as texts. The text that an address is
written as is read as that address again. -/

namespace AutomlApi

/-! ### Numbers by their digits -/

namespace Positional

def number (base : ℕ) (digits : List ℕ) : ℕ := digits.foldl (fun n d => n * base + d) 0

/-- The last digits of a number, from the left. -/
def digits (base : ℕ) : ℕ → ℕ → List ℕ
  | 0, _ => []
  | width + 1, n => digits base width (n / base) ++ [n % base]

variable {base : ℕ}

theorem number_append_singleton (ds : List ℕ) (d : ℕ) : number base (ds ++ [d]) = number base ds * base + d :=
  List.foldl_concat ..

@[simp] theorem length_digits (width n : ℕ) : (digits base width n).length = width := by
  induction width generalizing n with
  | zero => rfl
  | succ width ih => rw [digits, List.length_append, ih, List.length_singleton]

theorem lt_of_mem_digits (hbase : 0 < base) (width n : ℕ) : ∀ d ∈ digits base width n, d < base := by
  induction width generalizing n with
  | zero => exact fun d hd => absurd hd List.not_mem_nil
  | succ width ih =>
    intro d hd
    rcases List.mem_append.mp hd with hd | hd
    · exact ih _ d hd
    · rw [List.mem_singleton.mp hd]
      exact Nat.mod_lt _ hbase

theorem number_digits {width n : ℕ} (h : n < base ^ width) : number base (digits base width n) = n := by
  induction width generalizing n with
  | zero =>
    have hn : n = 0 := by simpa using h
    rw [hn]
    rfl
  | succ width ih =>
    rw [digits, number_append_singleton, ih (Nat.div_lt_of_lt_mul (by rwa [pow_succ'] at h))]
    exact Nat.div_add_mod' n base

theorem number_lt {ds : List ℕ} (h : ∀ d ∈ ds, d < base) : number base ds < base ^ ds.length := by
  induction ds using List.reverseRecOn with
  | nil => exact Nat.one_pos
  | append_singleton ds d ih =>
    have hds := ih fun d hd => h d (List.mem_append_left _ hd)
    have hd := h d (List.mem_append_right _ List.mem_cons_self)
    rw [number_append_singleton, List.length_append, List.length_singleton, pow_succ]
    calc number base ds * base + d < number base ds * base + base := by omega
      _ = (number base ds + 1) * base := by rw [Nat.add_mul, Nat.one_mul]
      _ ≤ base ^ ds.length * base := Nat.mul_le_mul_right base hds

end Positional

open Positional

inductive Version where
  | v4 | v6
  deriving DecidableEq

def Version.bits : Version → ℕ
  | v4 => 32
  | v6 => 128

structure Address where
  version : Version
  number : ℕ
  lt : number < 2 ^ version.bits
  deriving DecidableEq

namespace Address

/-! ### Dotted quads -/

/-- `_parse_octet`. -/
def octet (cs : List Char) : Option ℕ :=
  if cs = [] ∨ ¬ cs.all Char.isDigit ∨ 3 < cs.length ∨ cs ≠ ['0'] ∧ cs.head? = some '0' then none
  else
    let n := Nat.ofDigitChars 10 cs 0
    if 255 < n then none else some n

/-- `_BaseV4._ip_int_from_string`. -/
def readV4 (cs : List Char) : Option ℕ :=
  let octets := cs.splitOn '.'
  if octets.length ≠ 4 then none else (octets.mapM octet).map (Positional.number 256)

def textV4 (n : ℕ) : List Char := ['.'].intercalate ((digits 256 4 n).map (Nat.toDigits 10))

/-! ### Hextets -/

/-- `_parse_hextet`. -/
def hextet (cs : List Char) : Option ℕ :=
  if cs = [] ∨ 4 < cs.length then none else (cs.mapM Quoted.hex?).map (Positional.number 16)

/-- The parts with an IPv4-style suffix as two hextets. -/
def widened (parts : List (List Char)) : Option (List (List Char)) :=
  match parts.getLast? with
  | none => some parts
  | some last =>
    if '.' ∈ last then
      (readV4 last).map fun n => parts.dropLast ++ [Nat.toDigits 16 (n / 65536 % 65536), Nat.toDigits 16 (n % 65536)]
    else some parts

/-- The places of the parts that hold nothing. -/
def gapsFrom (i : ℕ) : List (List Char) → List ℕ
  | [] => []
  | part :: parts => if part = [] then i :: gapsFrom (i + 1) parts else gapsFrom (i + 1) parts

def gaps (parts : List (List Char)) : List ℕ := gapsFrom 1 parts.tail.dropLast

/-- The parts on one side of the gap; the last one at the end may hold nothing only if it is
the gap's. -/
def beside (parts : List (List Char)) (last : Option (List Char)) : Option (List (List Char)) :=
  if last ≠ some [] then some parts else if parts.length = 1 then some [] else none

/-- `_BaseV6._ip_int_from_string`. -/
def readV6 (cs : List Char) : Option ℕ :=
  if (cs.splitOn ':').length < 3 then none
  else
    (widened (cs.splitOn ':')).bind fun parts =>
      if 9 < parts.length then none
      else
        match gaps parts with
        | [] =>
          if parts.length ≠ 8 ∨ parts.head? = some [] ∨ parts.getLast? = some [] then none
          else (parts.mapM hextet).map (Positional.number 65536)
        | [gap] =>
          (beside (parts.take gap) parts.head?).bind fun high =>
            (beside (parts.drop (gap + 1)) parts.getLast?).bind fun low =>
              if 8 ≤ high.length + low.length then none
              else
                (high.mapM hextet).bind fun hs =>
                  (low.mapM hextet).map fun ls =>
                    Positional.number 65536 (hs ++ List.replicate (8 - (high.length + low.length)) 0 ++ ls)
        | _ => none

/-- The zeros that `_compress_hextets` has come across: the longest sequence of them, and the
one that it is in. -/
structure Zeros where
  best : Option ℕ := none
  bestLength : ℕ := 0
  start : Option ℕ := none
  length : ℕ := 0

def Zeros.next (z : Zeros) (index : ℕ) (hextet : List Char) : Zeros :=
  if hextet = ['0'] then
    let start := z.start.getD index
    if z.bestLength < z.length + 1 then ⟨some start, z.length + 1, some start, z.length + 1⟩
    else { z with start := some start, length := z.length + 1 }
  else { z with start := none, length := 0 }

def zeros (hextets : List (List Char)) : Zeros := hextets.zipIdx.foldl (fun z p => z.next p.2 p.1) {}

/-- `_compress_hextets`. -/
def compress (hextets : List (List Char)) : List (List Char) :=
  let z := zeros hextets
  if 1 < z.bestLength then
    let start := z.best.getD 0
    let stop := start + z.bestLength
    let extended := if stop = hextets.length then hextets ++ [[]] else hextets
    let cut := extended.take start ++ [[]] ++ extended.drop stop
    if start = 0 then [] :: cut else cut
  else hextets

def textV6 (n : ℕ) : List Char := [':'].intercalate (compress ((digits 65536 8 n).map (Nat.toDigits 16)))

/-- `str`. -/
def text (a : Address) : List Char :=
  match a.version with
  | .v4 => textV4 a.number
  | .v6 => textV6 a.number

/-! ### Reading -/

theorem octet_lt {cs : List Char} {n : ℕ} (h : octet cs = some n) : n < 256 := by
  unfold octet at h
  split at h
  · cases h
  · dsimp only at h
    split at h
    · cases h
    · cases h
      omega

theorem lt_of_mapM {α : Type} {f : α → Option ℕ} {b : ℕ} (hf : ∀ {x n}, f x = some n → n < b) {xs : List α} {ns : List ℕ}
    (h : xs.mapM f = some ns) : ns.length = xs.length ∧ ∀ n ∈ ns, n < b := by
  induction xs generalizing ns with
  | nil =>
    cases h
    exact ⟨rfl, fun n hn => absurd hn List.not_mem_nil⟩
  | cons x xs ih =>
    rw [List.mapM_cons] at h
    obtain ⟨n, hn, h⟩ := Option.bind_eq_some_iff.mp h
    obtain ⟨ms, hms, h⟩ := Option.bind_eq_some_iff.mp h
    cases h
    obtain ⟨hlength, hlt⟩ := ih hms
    exact ⟨congrArg Nat.succ hlength, List.forall_mem_cons.mpr ⟨hf hn, hlt⟩⟩

theorem readV4_lt {cs : List Char} {n : ℕ} (h : readV4 cs = some n) : n < 2 ^ 32 := by
  unfold readV4 at h
  dsimp only at h
  split at h
  · cases h
  · rename_i hlength
    obtain ⟨ns, hns, rfl⟩ := Option.map_eq_some_iff.mp h
    obtain ⟨hsame, hlt⟩ := lt_of_mapM octet_lt hns
    have hnumber := number_lt hlt
    rw [hsame, not_not.mp hlength] at hnumber
    exact hnumber

theorem hex?_lt {c : Char} {n : ℕ} (h : Quoted.hex? c = some n) : n < 16 := by
  unfold Quoted.hex? at h
  split at h
  · rename_i hc
    cases h
    have := (Digits.digit_le hc).2
    have h0 : '0'.toNat = 48 := rfl
    omega
  · split at h
    · rename_i hc
      cases h
      have := UInt32.le_iff_toNat_le.mp hc.2
      have hf : c.toNat ≤ 102 := this
      omega
    · split at h
      · rename_i hc
        cases h
        have hf : c.toNat ≤ 70 := UInt32.le_iff_toNat_le.mp hc.2
        omega
      · cases h

theorem hextet_lt {cs : List Char} {n : ℕ} (h : hextet cs = some n) : n < 65536 := by
  unfold hextet at h
  split at h
  · cases h
  · rename_i hcs
    obtain ⟨ns, hns, rfl⟩ := Option.map_eq_some_iff.mp h
    obtain ⟨hsame, hlt⟩ := lt_of_mapM hex?_lt hns
    calc Positional.number 16 ns < 16 ^ ns.length := number_lt hlt
      _ ≤ 16 ^ 4 := Nat.pow_le_pow_right (by decide) (by omega)

theorem readV6_lt {cs : List Char} {n : ℕ} (h : readV6 cs = some n) : n < 2 ^ 128 := by
  have hnumber : ∀ {ns : List ℕ}, ns.length = 8 → (∀ n ∈ ns, n < 65536) → Positional.number 65536 ns < 2 ^ 128 := by
    intro ns hlength hlt
    have := number_lt hlt
    rwa [hlength] at this
  unfold readV6 at h
  split at h
  · cases h
  · obtain ⟨parts, -, h⟩ := Option.bind_eq_some_iff.mp h
    split at h
    · cases h
    · split at h
      · split at h
        · cases h
        · rename_i hparts
          obtain ⟨ns, hns, rfl⟩ := Option.map_eq_some_iff.mp h
          obtain ⟨hsame, hlt⟩ := lt_of_mapM hextet_lt hns
          exact hnumber (by omega) hlt
      · obtain ⟨high, -, h⟩ := Option.bind_eq_some_iff.mp h
        obtain ⟨low, -, h⟩ := Option.bind_eq_some_iff.mp h
        split at h
        · cases h
        · obtain ⟨hs, hhs, h⟩ := Option.bind_eq_some_iff.mp h
          obtain ⟨ls, hls, rfl⟩ := Option.map_eq_some_iff.mp h
          obtain ⟨hhigh, hhslt⟩ := lt_of_mapM hextet_lt hhs
          obtain ⟨hlow, hlslt⟩ := lt_of_mapM hextet_lt hls
          refine hnumber ?_ fun n hn => ?_
          · simp only [List.length_append, List.length_replicate]
            omega
          · rcases List.mem_append.mp hn with hn | hn
            · rcases List.mem_append.mp hn with hn | hn
              · exact hhslt n hn
              · rw [List.eq_of_mem_replicate hn]
                decide
            · exact hlslt n hn
      · cases h

/-- `IPv6Address`. A scope may follow the address; it is no part of the number. -/
def readScoped (cs : List Char) : Option ℕ :=
  let scope := cs.dropWhile (· ≠ '%')
  if '/' ∈ cs ∨ scope = ['%'] ∨ '%' ∈ scope.tail then none else readV6 (cs.takeWhile (· ≠ '%'))

theorem readScoped_lt {cs : List Char} {n : ℕ} (h : readScoped cs = some n) : n < 2 ^ 128 := by
  unfold readScoped at h
  dsimp only at h
  split at h
  · cases h
  · exact readV6_lt h

/-- `ip_address`. -/
def read (cs : List Char) : Option Address :=
  match h : readV4 cs with
  | some n => some ⟨.v4, n, readV4_lt h⟩
  | none =>
    match h : readScoped cs with
    | some n => some ⟨.v6, n, readScoped_lt h⟩
    | none => none

/-! ### What is written is read -/

theorem octet_toDigits {n : ℕ} (h : n < 256) : octet (Nat.toDigits 10 n) = some n := by
  have hdigits : (Nat.toDigits 10 n).all Char.isDigit := List.all_eq_true.mpr fun c hc =>
    Nat.isDigit_of_mem_toDigits (by decide) (by decide) hc
  have hlength : (Nat.toDigits 10 n).length ≤ 3 :=
    (Nat.length_toDigits_le_iff (by decide) (by decide)).mpr (by omega)
  have hhead : ¬ (Nat.toDigits 10 n ≠ ['0'] ∧ (Nat.toDigits 10 n).head? = some '0') := by
    rintro ⟨hne, hzero⟩
    rcases Nat.eq_zero_or_pos n with rfl | hn
    · exact hne rfl
    · exact Scalar.head_toDigits hn hzero
  have hnumber := Nat.ofDigitChars_toDigits (b := 10) (n := n) (by decide) (by decide)
  unfold octet
  rw [if_neg]
  · dsimp only
    rw [hnumber, if_neg (by omega)]
  · rintro (hnil | hall | hlong | hzero)
    · exact Nat.toDigits_ne_nil hnil
    · exact hall hdigits
    · omega
    · exact hhead hzero

theorem mapM_map {α : Type} {f : α → Option ℕ} {g : ℕ → α} {ns : List ℕ} (h : ∀ n ∈ ns, f (g n) = some n) :
    (ns.map g).mapM f = some ns := by
  induction ns with
  | nil => rfl
  | cons n ns ih =>
    rw [List.map_cons, List.mapM_cons, h n List.mem_cons_self, ih fun n hn => h n (List.mem_cons_of_mem _ hn)]
    rfl

theorem not_mem_toDigits {n : ℕ} {c : Char} (hc : c.isDigit = false) : c ∉ Nat.toDigits 10 n := fun hmem =>
  absurd (Nat.isDigit_of_mem_toDigits (by decide) (by decide) hmem) (by simp [hc])

theorem readV4_textV4 {n : ℕ} (h : n < 2 ^ 32) : readV4 (textV4 n) = some n := by
  have hsplit : (textV4 n).splitOn '.' = (digits 256 4 n).map (Nat.toDigits 10) := by
    refine List.splitOn_intercalate '.' (fun l hl => ?_) (fun hnil => ?_)
    · obtain ⟨d, -, rfl⟩ := List.mem_map.mp hl
      exact not_mem_toDigits rfl
    · have := congrArg List.length hnil
      simp at this
  have hoctets : ((digits 256 4 n).map (Nat.toDigits 10)).mapM octet = some (digits 256 4 n) :=
    mapM_map fun d hd => octet_toDigits (lt_of_mem_digits (by decide) 4 n d hd)
  unfold readV4
  dsimp only
  rw [hsplit, if_neg (by simp), hoctets, Option.map_some, number_digits (by simpa using h)]

theorem hex?_digitChar {d : ℕ} (h : d < 16) : Quoted.hex? (Nat.digitChar d) = some d :=
  (by decide : ∀ d < 16, Quoted.hex? (Nat.digitChar d) = some d) d h

theorem exists_of_mem_toDigits {n : ℕ} {c : Char} (h : c ∈ Nat.toDigits 16 n) : ∃ d < 16, c = Nat.digitChar d := by
  induction n using Nat.strong_induction_on with
  | _ n ih =>
    rw [Nat.toDigits_eq_if (by decide)] at h
    split at h
    · rename_i hn
      exact ⟨n, hn, List.mem_singleton.mp h⟩
    · rcases List.mem_append.mp h with h | h
      · exact ih (n / 16) (by omega) h
      · exact ⟨n % 16, Nat.mod_lt n (by decide), List.mem_singleton.mp h⟩

theorem mapM_toDigits (n : ℕ) :
    ((Nat.toDigits 16 n).mapM Quoted.hex?).map (Positional.number 16) = some n := by
  induction n using Nat.strong_induction_on with
  | _ n ih =>
    rw [Nat.toDigits_eq_if (by decide)]
    split
    · rename_i hn
      simp [hex?_digitChar hn, Positional.number]
    · obtain ⟨ds, hds, hnumber⟩ := Option.map_eq_some_iff.mp (ih (n / 16) (by omega))
      have hlast := hex?_digitChar (Nat.mod_lt n (show 0 < 16 by decide))
      simp only [List.mapM_append, hds, List.mapM_cons, hlast, List.mapM_nil, Option.pure_def, Option.bind_eq_bind,
        Option.bind_some, Option.map_some, number_append_singleton, hnumber]
      exact congrArg some (Nat.div_add_mod' n 16)

theorem hextet_toDigits {n : ℕ} (h : n < 65536) : hextet (Nat.toDigits 16 n) = some n := by
  have hlength : (Nat.toDigits 16 n).length ≤ 4 :=
    (Nat.length_toDigits_le_iff (by decide) (by decide)).mpr (by omega)
  unfold hextet
  rw [if_neg, mapM_toDigits]
  rintro (hnil | hlong)
  · exact Nat.toDigits_ne_nil hnil
  · omega

theorem eq_zero_of_toDigits {n : ℕ} (hn : n < 65536) (h : Nat.toDigits 16 n = ['0']) : n = 0 := by
  have hread := hextet_toDigits hn
  rw [h] at hread
  exact (Option.some.inj hread).symm

/-! ### The longest sequence of zeros -/

/-- What has been found in the hextets so far. -/
structure Zeros.Found (z : Zeros) (hextets : List (List Char)) : Prop where
  run : ∃ before, hextets = before ++ List.replicate z.length ['0'] ∧
    z.start = if z.length = 0 then none else some before.length
  best : 0 < z.bestLength → ∃ before after, hextets = before ++ List.replicate z.bestLength ['0'] ++ after ∧
    z.best = some before.length

theorem Zeros.Found.next {z : Zeros} {hextets : List (List Char)} (h : z.Found hextets) (hextet : List Char) :
    (z.next hextets.length hextet).Found (hextets ++ [hextet]) := by
  have hkept : 0 < z.bestLength → ∃ before after,
      hextets ++ [hextet] = before ++ List.replicate z.bestLength ['0'] ++ after ∧ z.best = some before.length := by
    intro hpos
    obtain ⟨before, after, heq, hbest⟩ := h.best hpos
    exact ⟨before, after ++ [hextet], by rw [heq, List.append_assoc _ after], hbest⟩
  unfold Zeros.next
  split
  · rename_i hzero
    subst hzero
    obtain ⟨before, heq, hstart⟩ := h.run
    have hgrown : hextets ++ [['0']] = before ++ List.replicate (z.length + 1) ['0'] := by
      rw [heq, List.append_assoc, ← List.replicate_succ']
    have hat : z.start.getD hextets.length = before.length := by
      rw [hstart]
      split
      · rename_i hnone
        rw [heq, hnone]
        simp
      · rfl
    dsimp only
    split
    · exact ⟨⟨before, hgrown, by simp [hat]⟩, fun _ => ⟨before, [], by simpa using hgrown, by rw [hat]⟩⟩
    · exact ⟨⟨before, hgrown, by simp [hat]⟩, hkept⟩
  · exact ⟨⟨hextets ++ [hextet], by simp, rfl⟩, hkept⟩

theorem found_zeros (hextets : List (List Char)) : (zeros hextets).Found hextets := by
  induction hextets using List.reverseRecOn with
  | nil => exact ⟨⟨[], rfl, rfl⟩, fun h => absurd h (lt_irrefl 0)⟩
  | append_singleton hextets hextet ih =>
    have hnext := ih.next hextet
    unfold zeros at hnext ⊢
    rwa [List.zipIdx_append, List.foldl_append, List.zipIdx_singleton, Nat.zero_add]

/-- The parts on one side of the zeros that are left out, one that holds nothing where there are none. -/
def side (hextets : List (List Char)) : List (List Char) := if hextets = [] then [[]] else hextets

theorem compress_cases (hextets : List (List Char)) :
    compress hextets = hextets ∨ ∃ before after k, 1 < k ∧
      hextets = before ++ List.replicate k ['0'] ++ after ∧ compress hextets = side before ++ [[]] ++ side after := by
  unfold compress
  dsimp only
  split
  · rename_i hlong
    obtain ⟨before, after, heq, hbest⟩ := (found_zeros hextets).best (by omega)
    refine .inr ⟨before, after, _, hlong, heq, ?_⟩
    generalize (zeros hextets).bestLength = k at *
    rw [hbest, Option.getD_some]
    have hstop : before.length + k = hextets.length ↔ after = [] := by
      rw [heq]
      simp [List.length_eq_zero_iff]
    have hcut : (if before.length + k = hextets.length then hextets ++ [[]] else hextets) =
        before ++ (List.replicate k ['0'] ++ side after) := by
      unfold side
      rw [← List.append_assoc]
      split
      · rename_i hend
        rw [if_pos (hstop.mp hend), heq, hstop.mp hend, List.append_nil]
      · rename_i hend
        rw [if_neg fun h => hend (hstop.mpr h), heq]
    rw [hcut, List.take_left, ← List.drop_drop, List.drop_left, List.drop_left' (List.length_replicate ..)]
    unfold side
    rcases before with _ | ⟨part, before⟩
    · rfl
    · rfl
  · exact .inl rfl

/-! ### Reading what is compressed -/

theorem gapsFrom_append (i : ℕ) (parts parts' : List (List Char)) :
    gapsFrom i (parts ++ parts') = gapsFrom i parts ++ gapsFrom (i + parts.length) parts' := by
  induction parts generalizing i with
  | nil => rfl
  | cons part parts ih =>
    rw [List.cons_append, gapsFrom, gapsFrom, ih, List.length_cons, Nat.add_right_comm, Nat.add_assoc]
    split <;> rfl

theorem gapsFrom_eq_nil (i : ℕ) {parts : List (List Char)} (h : [] ∉ parts) : gapsFrom i parts = [] := by
  induction parts generalizing i with
  | nil => rfl
  | cons part parts ih =>
    rw [List.mem_cons, not_or] at h
    rw [gapsFrom, if_neg fun hnil => h.1 hnil.symm, ih _ h.2]

theorem side_ne_nil (hextets : List (List Char)) : side hextets ≠ [] := by
  unfold side
  split
  · simp
  · assumption

theorem gaps_side {before after : List (List Char)} (hbefore : [] ∉ before) (hafter : [] ∉ after) :
    gaps (side before ++ [[]] ++ side after) = [(side before).length] := by
  obtain ⟨part, rest, hpart⟩ := List.exists_cons_of_ne_nil (side_ne_nil before)
  have hrest : [] ∉ rest := by
    unfold side at hpart
    split at hpart
    · simp [(List.cons.inj hpart).2.symm]
    · exact fun h => hbefore (hpart ▸ List.mem_cons_of_mem _ h)
  have hlast : [] ∉ (side after).dropLast := by
    unfold side
    split
    · simp
    · exact fun h => hafter ((List.dropLast_sublist after).subset h)
  unfold gaps
  rw [hpart, List.append_assoc, List.cons_append, List.tail_cons,
    List.dropLast_append_of_ne_nil (by simp), List.dropLast_append_of_ne_nil (side_ne_nil after), gapsFrom_append,
    gapsFrom_eq_nil _ hrest, List.cons_append, List.nil_append, gapsFrom, if_pos rfl, List.nil_append,
    gapsFrom_eq_nil _ hlast, List.length_cons, Nat.add_comm]

theorem beside_side {hextets : List (List Char)} {last : Option (List Char)} (h : [] ∉ hextets)
    (hlast : ∀ part, last = some part → part ∈ side hextets) (hsome : last.isSome) :
    beside (side hextets) last = some hextets := by
  obtain ⟨part, rfl⟩ := Option.isSome_iff_exists.mp hsome
  have hmem := hlast part rfl
  unfold beside side at *
  split at hmem
  · rename_i hnil
    rw [List.mem_singleton.mp hmem, if_pos hnil, hnil]
    rfl
  · rename_i hne
    have hpart : part ≠ [] := fun hpart => h (hpart ▸ hmem)
    rw [if_neg hne, if_pos fun heq => hpart (Option.some.inj heq)]

theorem length_side (hextets : List (List Char)) : (side hextets).length = max 1 hextets.length := by
  unfold side
  split
  · rename_i hnil
    rw [hnil]
    rfl
  · rename_i hne
    have := List.length_pos_iff.mpr hne
    omega

theorem mem_compress {hextets : List (List Char)} {part : List Char} (h : part ∈ compress hextets) :
    part = [] ∨ part ∈ hextets := by
  have hside : ∀ {l}, part ∈ side l → part = [] ∨ part ∈ l := fun {l} h => by
    unfold side at h
    split at h
    · exact .inl (List.mem_singleton.mp h)
    · exact .inr h
  rcases compress_cases hextets with heq | ⟨before, after, k, -, hhextets, heq⟩
  · exact .inr (heq ▸ h)
  · rw [heq] at h
    rcases List.mem_append.mp h with h | h
    · rcases List.mem_append.mp h with h | h
      · refine (hside h).imp_right fun h => ?_
        rw [hhextets, List.append_assoc]
        exact List.mem_append_left _ h
      · exact .inl (List.mem_singleton.mp h)
    · refine (hside h).imp_right fun h => ?_
      rw [hhextets]
      exact List.mem_append_right _ h

theorem widened_eq_self {parts : List (List Char)} (h : ∀ part ∈ parts, '.' ∉ part) : widened parts = some parts := by
  unfold widened
  split
  · rfl
  · rename_i last hlast
    rw [if_neg (h last (List.mem_of_getLast? hlast))]

/-- The parts of a text in which zeros are left out. -/
theorem read_cut {before after : List (List Char)} {hs ls : List ℕ} (hbefore : [] ∉ before) (hafter : [] ∉ after)
    (hshort : before.length + after.length < 8) (hhigh : before.mapM hextet = some hs)
    (hlow : after.mapM hextet = some ls) {text : List Char}
    (hsplit : text.splitOn ':' = side before ++ [[]] ++ side after)
    (hwide : widened (side before ++ [[]] ++ side after) = some (side before ++ [[]] ++ side after)) :
    readV6 text = some (Positional.number 65536
      (hs ++ List.replicate (8 - (before.length + after.length)) 0 ++ ls)) := by
  have hlength : (side before ++ [[]] ++ side after).length = max 1 before.length + 1 + max 1 after.length := by
    simp only [List.length_append, List.length_singleton, length_side]
  have hhead : (side before ++ [[]] ++ side after).head? = (side before).head? := by
    rw [List.append_assoc, List.head?_append_of_ne_nil _ (side_ne_nil before)]
  have hlast : (side before ++ [[]] ++ side after).getLast? = (side after).getLast? :=
    List.getLast?_append_of_ne_nil _ (side_ne_nil after)
  have htake : (side before ++ [[]] ++ side after).take (side before).length = side before := by
    rw [List.append_assoc, List.take_left]
  have hdrop : (side before ++ [[]] ++ side after).drop ((side before).length + 1) = side after :=
    List.drop_left' (by simp)
  have hhighside : beside (side before) (side before).head? = some before :=
    beside_side hbefore (fun part h => List.mem_of_head? h) (List.isSome_head?.mpr (side_ne_nil before))
  have hlowside : beside (side after) (side after).getLast? = some after :=
    beside_side hafter (fun part h => List.mem_of_getLast? h) (List.getLast?_isSome.mpr (side_ne_nil after))
  unfold readV6
  rw [hsplit, if_neg (by omega), hwide, Option.bind_some, if_neg (by omega), gaps_side hbefore hafter]
  dsimp only
  rw [htake, hdrop, hhead, hlast, hhighside, hlowside, Option.bind_some, Option.bind_some, if_neg (by omega), hhigh, hlow]
  rfl

/-- The parts that an address is written as are read as its number. -/
theorem readV6_compress {ns : List ℕ} (hlength : ns.length = 8) (hlt : ∀ n ∈ ns, n < 65536) :
    readV6 ([':'].intercalate (compress (ns.map (Nat.toDigits 16)))) = some (Positional.number 65536 ns) := by
  have hread : ∀ {ms : List ℕ}, (∀ m ∈ ms, m ∈ ns) → (ms.map (Nat.toDigits 16)).mapM hextet = some ms := fun hms =>
    mapM_map fun m hm => hextet_toDigits (hlt m (hms m hm))
  have hnil : ∀ {ms : List ℕ}, [] ∉ ms.map (Nat.toDigits 16) := fun h => by
    obtain ⟨m, -, hm⟩ := List.mem_map.mp h
    exact Nat.toDigits_ne_nil hm
  have hfree : ∀ c, (∀ d < 16, c ≠ Nat.digitChar d) → ∀ part ∈ compress (ns.map (Nat.toDigits 16)), c ∉ part := by
    intro c hc part hpart hmem
    rcases mem_compress hpart with rfl | hpart
    · cases hmem
    · obtain ⟨n, -, rfl⟩ := List.mem_map.mp hpart
      obtain ⟨d, hd, heq⟩ := exists_of_mem_toDigits hmem
      exact hc d hd heq
  have hwide := widened_eq_self (hfree '.' (by decide))
  have hsplit : ([':'].intercalate (compress (ns.map (Nat.toDigits 16)))).splitOn ':' =
      compress (ns.map (Nat.toDigits 16)) := by
    refine List.splitOn_intercalate ':' (hfree ':' (by decide)) fun hempty => ?_
    rcases compress_cases (ns.map (Nat.toDigits 16)) with heq | ⟨before, after, k, -, -, heq⟩
    · have := congrArg List.length (heq.symm.trans hempty)
      simp [hlength] at this
    · simp [heq] at hempty
  rcases compress_cases (ns.map (Nat.toDigits 16)) with heq | ⟨before, after, k, hk, hns, heq⟩
  · rw [heq] at hsplit hwide
    have hgaps : gaps (ns.map (Nat.toDigits 16)) = [] :=
      gapsFrom_eq_nil _ fun h => hnil (List.mem_of_mem_tail ((List.dropLast_sublist _).subset h))
    unfold readV6
    rw [heq, hsplit, if_neg (by simp [hlength]), hwide, Option.bind_some, if_neg (by simp [hlength]), hgaps]
    dsimp only
    rw [if_neg, hread fun m hm => hm]
    · rfl
    · rintro (h | h | h)
      · exact h (by rw [List.length_map, hlength])
      · exact hnil (List.mem_of_head? h)
      · exact hnil (List.mem_of_getLast? h)
  · obtain ⟨front, low, rfl, hfront, rfl⟩ := List.map_eq_append_iff.mp hns
    obtain ⟨high, middle, rfl, rfl, hmiddle⟩ := List.map_eq_append_iff.mp hfront
    have hzeros : middle = List.replicate k 0 := by
      refine List.eq_replicate_iff.mpr ⟨?_, fun m hm => ?_⟩
      · rw [← List.length_map (f := Nat.toDigits 16), hmiddle, List.length_replicate]
      · refine eq_zero_of_toDigits (hlt m (by simp [hm])) (List.eq_of_mem_replicate (n := k) ?_)
        rw [← hmiddle]
        exact List.mem_map_of_mem hm
    subst hzeros
    simp only [List.length_append, List.length_replicate] at hlength
    rw [heq] at hsplit hwide ⊢
    rw [read_cut hnil hnil (by simp only [List.length_map]; omega) (hread fun m hm => by simp [hm])
      (hread fun m hm => by simp [hm]) hsplit hwide, List.length_map, List.length_map]
    congr 5
    omega

theorem readV6_textV6 {n : ℕ} (h : n < 2 ^ 128) : readV6 (textV6 n) = some n := by
  unfold textV6
  rw [readV6_compress (length_digits 8 n) (lt_of_mem_digits (by decide) 8 n), number_digits (by simpa using h)]

theorem mem_intersperse {α : Type} {x sep : α} {xs : List α} (h : x ∈ xs.intersperse sep) : x = sep ∨ x ∈ xs := by
  induction xs with
  | nil => cases h
  | cons y xs ih =>
    cases xs with
    | nil => exact .inr h
    | cons z xs =>
      rw [List.intersperse_cons_cons, List.mem_cons, List.mem_cons] at h
      rcases h with rfl | rfl | h
      · exact .inr List.mem_cons_self
      · exact .inl rfl
      · exact (ih h).imp_right fun h => List.mem_cons_of_mem y h

theorem notMem_textV6 {n : ℕ} {c : Char} (hcolon : c ≠ ':') (hc : ∀ d < 16, c ≠ Nat.digitChar d) : c ∉ textV6 n := by
  intro hmem
  obtain ⟨part, hpart, hmem⟩ := List.mem_flatten.mp hmem
  rcases mem_intersperse hpart with rfl | hpart
  · exact hcolon (List.mem_singleton.mp hmem)
  · rcases mem_compress hpart with rfl | hpart
    · cases hmem
    · obtain ⟨m, -, rfl⟩ := List.mem_map.mp hpart
      obtain ⟨d, hd, heq⟩ := exists_of_mem_toDigits hmem
      exact hc d hd heq

theorem readV4_textV6 (n : ℕ) : readV4 (textV6 n) = none := by
  unfold readV4
  dsimp only
  rw [List.splitOn_eq_singleton (notMem_textV6 (by decide) (by decide)), if_pos (by simp)]

theorem readScoped_textV6 {n : ℕ} (h : n < 2 ^ 128) : readScoped (textV6 n) = some n := by
  have hscope : ∀ c ∈ textV6 n, (decide (c ≠ '%')) = true := fun c hc =>
    decide_eq_true fun heq => notMem_textV6 (by decide) (by decide) (heq ▸ hc)
  unfold readScoped
  dsimp only
  rw [List.dropWhile_eq_nil_iff.mpr hscope, List.takeWhile_eq_self_iff.mpr hscope, if_neg, readV6_textV6 h]
  rintro (hslash | hpercent | hpercent)
  · exact notMem_textV6 (by decide) (by decide) hslash
  · cases hpercent
  · cases hpercent

/-- The text of an address is read as the address. -/
theorem read_text (a : Address) : read a.text = some a := by
  obtain ⟨version, n, hn⟩ := a
  unfold read text
  cases version with
  | v4 =>
    have hread := readV4_textV4 hn
    dsimp only
    split
    · rename_i m hm
      cases hread.symm.trans hm
      rfl
    · rename_i hnone
      rw [hread] at hnone
      cases hnone
  | v6 =>
    have hread := readScoped_textV6 hn
    dsimp only
    split
    · rename_i m hm
      rw [readV4_textV6] at hm
      cases hm
    · split
      · rename_i m hm
        cases hread.symm.trans hm
        rfl
      · rename_i hnone
        rw [hread] at hnone
        cases hnone

/-! ### The order of addresses -/

/-- `(address.version, int(address))`. -/
def key (a : Address) : ℕ ×ₗ ℕ := toLex (if a.version = .v4 then 4 else 6, a.number)

theorem key_injective : Function.Injective key := by
  rintro ⟨v, n, hn⟩ ⟨w, m, hm⟩ h
  obtain ⟨hversion, hnumber⟩ := Prod.mk.inj (toLex_inj.mp h)
  dsimp only at hversion hnumber
  subst hnumber
  cases v <;> cases w <;> simp_all

instance : LinearOrder Address := LinearOrder.lift' key key_injective

end Address

/-! ### Networks -/

/-- `ip_network`: the addresses in it agree with its own in the first bits. -/
structure Network where
  version : Version
  address : ℕ
  prefixLength : ℕ
  deriving DecidableEq

/-- `__contains__`. -/
def Network.contains (network : Network) (a : Address) : Bool :=
  a.version = network.version ∧
    a.number >>> (network.version.bits - network.prefixLength) =
      network.address >>> (network.version.bits - network.prefixLength)

end AutomlApi
