import AutomlApi.Tokens.Cursors

/-! Download tickets, which are signed like cursors and expire; and what holds of both. -/

namespace AutomlApi.Tokens

/-- What comes out of `verify_download_token`: `InvalidTicketError`, `ExpiredTicketError`, or the
one exception that it does not catch. -/
inductive TicketError where
  | invalid | expired | recursion
  deriving DecidableEq

/-- `value == 1`. -/
def isOne : Json → Bool
  | .scalar (.int i) => i = 1
  | .scalar (.word w) => w = .true
  | .scalar (.decimal d) => d.text = ['1', '.', '0']
  | _ => false

/-- The integer of a value, where `isinstance(value, int)`. -/
def intOf : Json → Option ℤ
  | .scalar (.int i) => some i
  | .scalar (.word .true) => some 1
  | .scalar (.word .false) => some 0
  | _ => none

section Verify

variable (mac : Bytes → Digest) (loads : Bytes → Except LoadError Json)

/-- What an authentic payload says, at a time in whole seconds. -/
def ticketOf (now : ℤ) (raw : Bytes) : Except TicketError (Dict String Json) :=
  match loads raw with
  | .ok (.object fields) =>
    if ¬ isOne (field fields "v") then .error .invalid
    else
      match intOf (field fields "exp") with
      | none => .error .invalid
      | some exp => if exp < now then .error .expired else .ok fields
  | .error .recursion => .error .recursion
  | _ => .error .invalid

/-- `verify_download_token`. -/
def verifyDownloadToken (now : ℤ) (token : Text) : Except TicketError (Dict String Json) :=
  match combinedOf token with
  | none => .error .invalid
  | some combined =>
    if combined.length ≤ 32 then .error .invalid
    else if suppliedOf combined ≠ (mac (rawOf combined)).1 then .error .invalid
    else ticketOf loads now (rawOf combined)

end Verify

/-- The arguments of `create_download_token`, and the id that it makes. -/
structure Ticket where
  ticketId : String
  artifactId : String
  tenantId : String
  etag : String
  expiresAt : ℤ

def Ticket.payload (t : Ticket) : Payload where
  fields := [("v", .int 1), ("ticket_id", .str t.ticketId), ("artifact_id", .str t.artifactId),
    ("tenant_id", .str t.tenantId), ("etag", .str t.etag), ("exp", .int t.expiresAt)]
  keyed := by
    rw [Json.Keyed, Json.keyedFields_iff]
    exact ⟨by simp, by simp [Json.keyed_int, Json.keyed_str]⟩
  readable := by simp [Json.readable, Json.readableFields, Json.int, Scalar.readable]

/-! ### What is read -/

variable {mac : Bytes → Digest} {depth : ℕ} {loads : Bytes → Except LoadError Json}

theorem written_ne_nil (p : Payload) : p.written ≠ [] := by
  have hne : p.json.sorted.text ≠ [] := by
    have hbegins := (Json.begins_text p.json.sorted []).ne_nil
    rwa [List.append_nil] at hbegins
  have hlength := Json.length_le_ascii p.json.sorted.text
  have hpos := List.length_pos_of_ne_nil hne
  refine List.ne_nil_of_length_pos ?_
  rw [Payload.written, List.length_map, Json.dumpsAscii]
  omega

theorem verifyDownloadToken_of_carries {token : Text} {raw : Bytes} (h : Carries mac token raw) (hne : raw ≠ []) (now : ℤ) :
    verifyDownloadToken mac loads now token = ticketOf loads now raw := by
  have hlength : ¬ (raw ++ (mac raw).1).length ≤ 32 := by
    have hpos := List.length_pos_of_ne_nil hne
    rw [List.length_append, (mac raw).2]
    omega
  rw [verifyDownloadToken, h]
  show (if _ then _ else if _ then _ else _) = _
  rw [if_neg hlength, rawOf_append, suppliedOf_append, if_neg (not_not.mpr rfl)]

theorem verifyDownloadToken_of_not {token : Text} (h : ∀ raw, Carries mac token raw → raw = []) (now : ℤ) :
    verifyDownloadToken mac loads now token = .error .invalid := by
  unfold verifyDownloadToken
  split
  · rfl
  · next combined hcombined =>
    split
    · rfl
    · next hlong =>
      refine if_pos fun hsupplied => ?_
      have hraw := h _ (carries_iff.mpr ⟨combined, hcombined, rfl, hsupplied⟩)
      have hlength := congrArg List.length hraw
      rw [rawOf, List.length_take, List.length_nil] at hlength
      omega

/-- What a ticket has to say to be valid at a time. -/
def Stands (now : ℤ) (fields : Dict String Json) : Prop :=
  isOne (field fields "v") = true ∧ ∃ exp, intOf (field fields "exp") = some exp ∧ now ≤ exp

theorem ticketOf_eq_ok {now : ℤ} {raw : Bytes} {fields : Dict String Json} :
    ticketOf loads now raw = .ok fields ↔ loads raw = .ok (.object fields) ∧ Stands now fields := by
  unfold ticketOf Stands
  constructor
  · intro h
    split at h
    · next read hloads =>
      split at h
      · cases h
      · next hone =>
        split at h
        · cases h
        · next exp hexp =>
          split at h
          · cases h
          · next hlt =>
            cases h
            exact ⟨hloads, not_not.mp hone, exp, hexp, Int.not_lt.mp hlt⟩
    · cases h
    · cases h
  · rintro ⟨hloads, hone, exp, hexp, hle⟩
    rw [hloads]
    show (if _ then _ else _) = _
    rw [if_neg (not_not.mpr hone), hexp]
    exact if_neg (Int.not_lt.mpr hle)

theorem ticketOf_eq_error {now : ℤ} {raw : Bytes} {e : TicketError} (h : ticketOf loads now raw = .error e) :
    e = .invalid ∨ e = .expired ∨ e = .recursion ∧ loads raw = .error .recursion := by
  unfold ticketOf at h
  split at h
  · split at h
    · cases h
      exact .inl rfl
    · split at h
      · cases h
        exact .inl rfl
      · split at h
        · cases h
          exact .inr (.inl rfl)
        · cases h
  · next hloads =>
    cases h
    exact .inr (.inr ⟨rfl, hloads⟩)
  · cases h
    exact .inl rfl

theorem verifyDownloadToken_eq_ok {now : ℤ} {token : Text} {fields : Dict String Json}
    (h : verifyDownloadToken mac loads now token = .ok fields) :
    ∃ raw, Carries mac token raw ∧ loads raw = .ok (.object fields) ∧ Stands now fields := by
  by_cases hcarries : ∃ raw, Carries mac token raw ∧ raw ≠ []
  · obtain ⟨raw, hraw, hne⟩ := hcarries
    rw [verifyDownloadToken_of_carries hraw hne] at h
    exact ⟨raw, hraw, ticketOf_eq_ok.mp h⟩
  · rw [verifyDownloadToken_of_not fun raw hraw => not_not.mp fun hne => hcarries ⟨raw, hraw, hne⟩] at h
    cases h

theorem verifyDownloadToken_eq_error {now : ℤ} {token : Text} {e : TicketError}
    (h : verifyDownloadToken mac loads now token = .error e) :
    e = .invalid ∨ e = .expired ∨ e = .recursion ∧ ∃ raw, Carries mac token raw ∧ loads raw = .error .recursion := by
  by_cases hcarries : ∃ raw, Carries mac token raw ∧ raw ≠ []
  · obtain ⟨raw, hraw, hne⟩ := hcarries
    rw [verifyDownloadToken_of_carries hraw hne] at h
    rcases ticketOf_eq_error h with he | he | ⟨he, hloads⟩
    · exact .inl he
    · exact .inr (.inl he)
    · exact .inr (.inr ⟨he, raw, hraw, hloads⟩)
  · rw [verifyDownloadToken_of_not fun raw hraw => not_not.mp fun hne => hcarries ⟨raw, hraw, hne⟩] at h
    cases h
    exact .inl rfl

/-! ### What was issued -/

theorem Ticket.field_v (t : Ticket) : isOne (field t.payload.read "v") = true := by
  have hfield : field t.payload.fields "v" = .int 1 := rfl
  rw [field_read, hfield, Json.int, Json.sorted]
  rfl

theorem Ticket.field_exp (t : Ticket) : intOf (field t.payload.read "exp") = some t.expiresAt := by
  have hfield : field t.payload.fields "exp" = .int t.expiresAt := rfl
  rw [field_read, hfield, Json.int, Json.sorted]
  rfl

/-- A ticket is valid until it expires. -/
theorem verifyDownloadToken_written (h : Agrees depth loads) {t : Ticket} (ht : t.payload.fits depth) {token : Text}
    (htoken : Carries mac token t.payload.written) (now : ℤ) :
    verifyDownloadToken mac loads now token = if t.expiresAt < now then .error .expired else .ok t.payload.read := by
  have hloads := h.loads_written ht
  rw [sorted_json] at hloads
  rw [verifyDownloadToken_of_carries htoken (written_ne_nil _), ticketOf, hloads]
  show (if _ then _ else _) = _
  rw [if_neg (not_not.mpr t.field_v), t.field_exp]

variable (mac depth loads) in
/-- Tickets come back as they went out until they expire, and no other ones do. -/
structure TicketsHold : Prop where
  /-- A ticket is created, and is verified until it expires. -/
  round : ∀ t : Ticket, t.payload.fits depth → ∃ token, issue mac depth t.payload = .ok token ∧ ∀ now,
    (now ≤ t.expiresAt → ∃ fields, verifyDownloadToken mac loads now token = .ok fields ∧ (Json.object fields).Same t.payload.json) ∧
      (t.expiresAt < now → verifyDownloadToken mac loads now token = .error .expired)
  /-- What is verified is a payload before its code, and has not expired. -/
  authentic : ∀ now token fields, verifyDownloadToken mac loads now token = .ok fields →
    ∃ raw, combinedOf token = some (raw ++ (mac raw).1) ∧ loads raw = .ok (.object fields) ∧ Stands now fields
  /-- Any other text is invalid or has expired, unless somebody else has made a code. -/
  refused : ∀ now token e, verifyDownloadToken mac loads now token = .error e →
    e = .invalid ∨ e = .expired ∨ e = .recursion ∧ ∃ raw, Carries mac token raw ∧ loads raw = .error .recursion
  /-- Where nobody else makes codes, a text is a ticket that was issued, or it is invalid or has expired. -/
  issued : ∀ (issued : List Ticket) token, (∀ t ∈ issued, t.payload.fits depth) →
    Unforged mac (issued.map Ticket.payload) token → ∀ now,
      (∃ t ∈ issued, now ≤ t.expiresAt ∧
        ∃ fields, verifyDownloadToken mac loads now token = .ok fields ∧ (Json.object fields).Same t.payload.json) ∨
      verifyDownloadToken mac loads now token = .error .invalid ∨ verifyDownloadToken mac loads now token = .error .expired

theorem tickets_hold (h : Agrees depth loads) : TicketsHold mac depth loads where
  round t ht := by
    refine ⟨_, issue_of_fits ht, fun now => ?_⟩
    have hverify := verifyDownloadToken_written h ht (carries_sealed mac t.payload.written) now
    constructor
    · intro hle
      rw [if_neg (Int.not_lt.mpr hle)] at hverify
      exact ⟨_, hverify, read_same t.payload⟩
    · intro hlt
      rw [hverify, if_pos hlt]
  authentic now token fields hverify := verifyDownloadToken_eq_ok hverify
  refused now token e hverify := verifyDownloadToken_eq_error hverify
  issued issued token hfits hunforged now := by
    by_cases hcarries : ∃ raw, Carries mac token raw
    · obtain ⟨raw, hraw⟩ := hcarries
      obtain ⟨p, hp, rfl⟩ := hunforged raw hraw
      obtain ⟨t, ht, rfl⟩ := List.mem_map.mp hp
      have hverify := verifyDownloadToken_written h (hfits t ht) hraw now
      split at hverify
      · exact .inr (.inr hverify)
      · next hlt => exact .inl ⟨t, ht, Int.not_lt.mp hlt, _, hverify, read_same t.payload⟩
    · exact .inr (.inl (verifyDownloadToken_of_not (fun raw hraw => absurd ⟨raw, hraw⟩ hcarries) now))

/-- Signed cursors and download tickets go out and come back within the limits of the interpreter, whatever
the two secrets are, and nothing else is taken for one. -/
theorem signed_hold (cursorMac ticketMac : Bytes → Digest) (depth : ℕ) (loads : Bytes → Except LoadError Json)
    (h : Agrees depth loads) : CursorsHold cursorMac depth loads ∧ TicketsHold ticketMac depth loads :=
  ⟨cursors_hold h, tickets_hold h⟩

/-- The reader, of bytes in ASCII. -/
def readAscii (bytes : Bytes) : Except LoadError Json :=
  match Json.loads (bytes.map fun b => Char.ofNat b.toNat) with
  | some j => .ok j
  | none => .error .decode

theorem agrees_readAscii (depth : ℕ) : Agrees depth readAscii := by
  intro p _ j hj
  have hback : p.written.map (fun b => Char.ofNat b.toNat) = p.json.dumpsAscii := by
    rw [Payload.written, List.map_map]
    refine (List.map_congr_left fun c hc => ?_).trans (List.map_id _)
    obtain ⟨d, -, hd⟩ := List.mem_flatMap.mp hc
    have hlt : c.toNat < UInt8.size := (Quoted.lt_of_mem_ascii hd).trans (by decide)
    rw [Function.comp_apply, UInt8.toNat_ofNat_of_lt' hlt, Char.ofNat_toNat]
    rfl
  rw [readAscii, hback, hj]

def zeroMac (_ : Bytes) : Digest := .blank

/-- Of a ticket with the expiry 0, where the stack has room for one level. -/
theorem signed_hold_read :
    (∃ token, issue zeroMac 1 (Ticket.payload ⟨"tkt_1", "artifact_1", "tenant_1", "etag", 0⟩) = .ok token ∧
      verifyDownloadToken zeroMac readAscii 1 token = .error .expired) ∧
    CursorsHold zeroMac 1 readAscii := by
  obtain ⟨hcursors, htickets⟩ := signed_hold zeroMac zeroMac 1 readAscii (agrees_readAscii 1)
  have hone : 1 < digitBound := Nat.one_lt_pow (by decide : maxDigits ≠ 0) (by decide)
  have hzero : 0 < digitBound := Nat.zero_lt_of_lt hone
  obtain ⟨token, hissue, hverify⟩ := htickets.round ⟨"tkt_1", "artifact_1", "tenant_1", "etag", 0⟩ (by
    simp [Payload.fits, Payload.json, Ticket.payload, fits, fitsFields, Json.int, hone, hzero])
  exact ⟨⟨token, hissue, (hverify 1).2 (by decide)⟩, hcursors⟩

/-! ### Beyond the limits -/

/-- `{"seq": j}`. -/
def Payload.seq (j : Json) (hkeyed : j.Keyed) (hreadable : j.readable = true) : Payload where
  fields := [("seq", j)]
  keyed := by
    rw [Json.Keyed, Json.keyedFields_iff]
    exact ⟨by simp, by simpa using hkeyed⟩
  readable := by simp [Json.readable, Json.readableFields, hreadable]

/-- So many lists around `null`. -/
def nested : ℕ → Json
  | 0 => .null
  | n + 1 => .list [nested n]

theorem keyed_nested (n : ℕ) : (nested n).Keyed := by
  induction n with
  | zero => simp [nested, Json.null, Json.Keyed]
  | succ n ih => simp [nested, Json.Keyed, Json.KeyedItems, ih]

theorem readable_nested (n : ℕ) : (nested n).readable = true := by
  induction n with
  | zero => simp [nested, Json.null, Json.readable, Scalar.readable]
  | succ n ih => simp [nested, Json.readable, Json.readableItems, ih]

theorem not_fits_nested (n : ℕ) : fits n (nested (n + 1)) = false := by
  induction n with
  | zero => simp [nested, fits]
  | succ n ih =>
    rw [nested, fits, fitsItems, ih]
    rfl

theorem not_fits_int (depth : ℕ) : fits depth (.int digitBound) = false := by
  rw [Json.int, fits, Int.natAbs_natCast]
  exact decide_eq_false (Nat.lt_irrefl _)

theorem readable_int (i : ℤ) : (Json.int i).readable = true := by
  simp [Json.int, Json.readable, Scalar.readable]

/-- With room for a thousand levels, neither an integer of 4301 digits nor a thousand nested lists go out. -/
theorem beyond_the_limits :
    ¬ Returns zeroMac 1000 readAscii (.seq (.int digitBound) (Json.keyed_int _) (readable_int _)) ∧
      ¬ Returns zeroMac 1000 readAscii (.seq (nested 1000) (keyed_nested _) (readable_nested _)) := by
  have hrefused : ∀ p : Payload, p.fits 1000 = false → ¬ Returns zeroMac 1000 readAscii p := by
    rintro p hp ⟨cursor, hissue, -⟩
    obtain ⟨e, he⟩ : ∃ e, issue zeroMac 1000 p = .error e := issue_of_not_fits hp
    rw [he] at hissue
    cases hissue
  refine ⟨hrefused _ ?_, hrefused _ ?_⟩
  · simp only [Payload.fits, Payload.json, Payload.seq, fits, fitsFields, not_fits_int, Bool.false_and]
  · simp [Payload.fits, Payload.json, Payload.seq, fits, fitsFields, not_fits_nested]

end AutomlApi.Tokens
