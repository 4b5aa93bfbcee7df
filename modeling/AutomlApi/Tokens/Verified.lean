import AutomlApi.Tokens.Exact

/-! The verifier is exact, and raises `TokenVerificationError` for every other token but
those that trouble its decoders. -/

namespace AutomlApi.Tokens

section Verify

variable {F : Type} [Seconds F] (loads : Text → Except LoadError (Value F)) (mac : Bytes → Bytes → Digest)
  (v : HS256JWTVerifier) (token : Text) (timestamp : F)

/-- The token is valid, and says this of its bearer. -/
def Valid (r : VerifiedToken) : Prop :=
  ∃ s header payload key, Split token s ∧ IsObject loads s.header header ∧ IsObject loads s.payload payload ∧
    Plain header ∧ Selects v header key ∧ Signs mac key.2 s ∧ Lives v payload timestamp ∧ Started v payload timestamp ∧
    Expected v payload ∧ IsIdentity v key.1 payload r

/-- The times of the payload are integers that are too large for a float, as far as they are looked at. -/
def Overflows (payload : Fields F) : Prop :=
  Huge (Value.field payload "exp") ∨ (Lives v payload timestamp ∧ Huge (Value.field payload "nbf"))

/-- The token has a surrogate on its own, or `json.loads` raises on one of its segments what is no
`JSONDecodeError`, or the times of an authentic token overflow. -/
def Troubled : Prop :=
  (token ≠ [] ∧ token.utf8Size = none) ∨
    ∃ s, Split token s ∧ (Bursts loads s.header ∨
      ∃ header, IsObject loads s.header header ∧ (Bursts loads s.payload ∨
        ∃ payload key, IsObject loads s.payload payload ∧ Plain header ∧ Selects v header key ∧ Signs mac key.2 s ∧
          Overflows v timestamp payload))

variable {loads mac v token timestamp}

theorem verify_eq_ok {r : VerifiedToken} :
    verify loads mac v token timestamp = .ok r ↔ Valid loads mac v token timestamp r := by
  unfold verify Valid
  constructor
  · intro h
    obtain ⟨s, hs, h⟩ := except_bind_eq_ok h
    obtain ⟨header, hheader, h⟩ := except_bind_eq_ok h
    obtain ⟨payload, hpayload, h⟩ := except_bind_eq_ok h
    obtain ⟨_, hplain, h⟩ := except_bind_eq_ok h
    obtain ⟨key, hkey, h⟩ := except_bind_eq_ok h
    obtain ⟨_, hsigns, h⟩ := except_bind_eq_ok h
    obtain ⟨_, htimes, h⟩ := except_bind_eq_ok h
    obtain ⟨_, hparties, h⟩ := except_bind_eq_ok h
    obtain ⟨hlives, hstarted⟩ := checkTimes_eq_ok.mp htimes
    exact ⟨s, header, payload, key, segmentsOf_eq_ok.mp hs, decodeJsonObject_eq_ok.mp hheader,
      decodeJsonObject_eq_ok.mp hpayload, checkHeader_eq_ok.mp hplain, selectKey_eq_ok.mp hkey,
      checkSignature_eq_ok.mp hsigns, hlives, hstarted, checkParties_eq_ok.mp hparties, identityOf_eq_ok.mp h⟩
  · rintro ⟨s, header, payload, key, hs, hheader, hpayload, hplain, hkey, hsigns, hlives, hstarted, hparties, hidentity⟩
    rw [segmentsOf_eq_ok.mpr hs, except_ok_bind, decodeJsonObject_eq_ok.mpr hheader, except_ok_bind,
      decodeJsonObject_eq_ok.mpr hpayload, except_ok_bind, checkHeader_eq_ok.mpr hplain, except_ok_bind,
      selectKey_eq_ok.mpr hkey, except_ok_bind, checkSignature_eq_ok.mpr hsigns, except_ok_bind,
      checkTimes_eq_ok.mpr ⟨hlives, hstarted⟩, except_ok_bind, checkParties_eq_ok.mpr hparties, except_ok_bind]
    exact identityOf_eq_ok.mpr hidentity

theorem clean_verify : Clean (verify loads mac v token timestamp) ↔ ¬ Troubled loads mac v token timestamp := by
  -- what is raised after the signature was checked comes from the times
  have htimes : ∀ (key : Text × Bytes) (payload : Fields F), Clean (do
      checkTimes v payload timestamp
      checkParties v payload
      identityOf v key.1 payload) ↔ ¬ Overflows v timestamp payload := by
    intro key payload
    rw [clean_bind, clean_checkTimes, and_iff_left]
    · rfl
    · exact fun _ _ => (clean_checkParties v payload).bind fun _ => clean_identityOf v key.1 payload
  have hheader : ∀ (s : Segments) (header payload : Fields F), Clean (do
      checkHeader header
      let key ← selectKey v header
      checkSignature mac key.2 s
      checkTimes v payload timestamp
      checkParties v payload
      identityOf v key.1 payload) ↔
        ∀ key, Plain header → Selects v header key → Signs mac key.2 s → ¬ Overflows v timestamp payload := by
    intro s header payload
    simp only [clean_bind (m := checkHeader header), clean_bind (m := selectKey v header),
      clean_bind (m := checkSignature mac _ s), htimes, clean_checkHeader, clean_selectKey, clean_checkSignature, true_and]
    constructor
    · intro h key hplain hkey hsigns
      exact h () (checkHeader_eq_ok.mpr hplain) key (selectKey_eq_ok.mpr hkey) () (checkSignature_eq_ok.mpr hsigns)
    · intro h _ hplain key hkey _ hsigns
      exact h key (checkHeader_eq_ok.mp hplain) (selectKey_eq_ok.mp hkey) (checkSignature_eq_ok.mp hsigns)
  unfold verify Troubled
  rw [clean_bind, clean_segmentsOf, not_or]
  refine and_congr_right fun _ => ?_
  push Not
  refine forall_congr' fun s => ?_
  rw [segmentsOf_eq_ok]
  refine forall_congr' fun _ => ?_
  rw [clean_bind, clean_decodeJsonObject]
  refine and_congr_right fun _ => forall_congr' fun header => ?_
  rw [decodeJsonObject_eq_ok]
  refine forall_congr' fun _ => ?_
  rw [clean_bind, clean_decodeJsonObject]
  refine and_congr_right fun _ => forall_congr' fun payload => ?_
  rw [decodeJsonObject_eq_ok, hheader]
  constructor
  · intro h key hpayload hplain hkey hsigns
    exact h hpayload key hplain hkey hsigns
  · intro h hpayload key hplain hkey hsigns
    exact h key hpayload hplain hkey hsigns

variable (loads mac v token timestamp) in
/-- The verifier returns for the tokens that are valid, and raises `TokenVerificationError` for every other
one, unless the token is one that troubles its decoders. -/
theorem verify_exact_iff :
    (((∀ r, verify loads mac v token timestamp = .ok r ↔ Valid loads mac v token timestamp r) ∧
      ((∀ r, ¬ Valid loads mac v token timestamp r) →
        ∃ message, verify loads mac v token timestamp = .error (.token message))) ↔
      ¬ Troubled loads mac v token timestamp) := by
  rw [and_iff_right fun _ => verify_eq_ok, ← clean_verify]
  constructor
  · intro h e he
    have hinvalid : ∀ r, ¬ Valid loads mac v token timestamp r := by
      intro r hr
      rw [verify_eq_ok.mpr hr] at he
      cases he
    obtain ⟨message, hmessage⟩ := h hinvalid
    rw [hmessage] at he
    cases he
    exact ⟨message, rfl⟩
  · intro h hinvalid
    cases hverify : verify loads mac v token timestamp with
    | ok r => exact absurd (verify_eq_ok.mp hverify) (hinvalid r)
    | error e =>
      obtain ⟨message, rfl⟩ := h e hverify
      exact ⟨message, rfl⟩

end Verify

/-! ### A header with too many digits -/

/-- A token with these bytes for its header. -/
def headed (bytes : Bytes) : Text := Base64.bare (Base64.encode bytes) ++ dot :: (Text.of "e30" ++ dot :: Text.of "AA")

theorem split_headed {bytes : Bytes} (h : bytes ≠ []) (hle : bytes.length ≤ 40000) :
    Split (headed bytes) ⟨Base64.bare (Base64.encode bytes), Text.of "e30", Text.of "AA"⟩ := by
  have hstem : Base64.bare (Base64.encode bytes) = Base64.stem bytes := Base64.bare_encode bytes
  have hlength := Base64.length_stem bytes
  have hsymbols := Base64.symbols_stem bytes
  have hpos := List.length_pos_of_ne_nil h
  have hheader : Base64.bare (Base64.encode bytes) ≠ [] ∧ dot ∉ Base64.bare (Base64.encode bytes) := by
    rw [hstem]
    exact ⟨List.ne_nil_of_length_pos (by omega), fun h => (Base64.ascii_of_symbols hsymbols h).2 rfl⟩
  have hempty : Text.of "e30" ≠ [] ∧ dot ∉ Text.of "e30" := by decide
  have hzero : Text.of "AA" ≠ [] ∧ dot ∉ Text.of "AA" := by decide
  have hascii : ∀ c ∈ headed bytes, c < 128 := by
    intro c hc
    rw [headed, hstem, List.mem_append] at hc
    rcases hc with hc | hc
    · exact (Base64.ascii_of_symbols hsymbols hc).1
    · have hrest : ∀ c ∈ dot :: (Text.of "e30" ++ dot :: Text.of "AA"), c < 128 := by decide
      exact hrest c hc
  have hrest : (dot :: (Text.of "e30" ++ dot :: Text.of "AA")).length = 7 := by decide
  refine ⟨rfl, hheader, hempty, hzero, _, Text.utf8Size_of_ascii hascii, ?_⟩
  rw [headed, hstem, List.length_append, hlength, hrest]
  omega

theorem decodes_encoded {bytes : Bytes} (h : bytes ≠ []) : Decodes (Base64.bare (Base64.encode bytes)) bytes := by
  have hdecode := Base64.decode_bare_encode true bytes
  have hsymbols := Base64.symbols_stem bytes
  have hpos := List.length_pos_of_ne_nil h
  have hlength := Base64.length_stem bytes
  rw [← Base64.bare_encode] at hsymbols hlength
  refine ⟨⟨List.ne_nil_of_length_pos (by omega), hsymbols, ?_⟩, hdecode⟩
  refine (Base64.isSome_decode true hsymbols).mp ?_
  rw [hdecode]
  rfl

/-- `json.loads`, of numbers. -/
def loadsNumber (text : Text) : Except LoadError (Value ℤ) :=
  if 4300 < text.length then .error .value
  else if text ≠ [] ∧ ∀ c ∈ text, 48 ≤ c ∧ c ≤ 57 then .ok (.int (text.foldl (fun n c => 10 * n + (c - 48 : ℕ)) 0))
  else .error .decode

@[reducible] def wholeSeconds : Seconds ℤ where
  ofInt i := if i.natAbs < 2 ^ 1024 then some i else none
  isFinite _ := true
  add x n := x + n
  le x y := x ≤ y
  lt x y := x < y

def verifier : HS256JWTVerifier where
  issuer := Text.of "automl"
  audiences := [Text.of "api"]
  keys := [(Text.of "k1", List.replicate 32 7)]
  leewaySeconds := 30
  audience := by decide
  key := by decide
  keyed := by decide
  named := by decide
  secret := by decide
  leeway := by decide

def blankMac (_ _ : Bytes) : Digest := .blank

theorem troubled_headed {bytes : Bytes} (hdigits : ∀ b ∈ bytes, b < 0x80) (hmany : 4300 < bytes.length)
    (hle : bytes.length ≤ 40000) : @Troubled ℤ wholeSeconds loadsNumber blankMac verifier (headed bytes) 0 := by
  have hne : bytes ≠ [] := List.ne_nil_of_length_pos (by omega)
  have hreads : Reads (Base64.bare (Base64.encode bytes)) (bytes.map UInt8.toNat) :=
    ⟨bytes, decodes_encoded hne, Text.ofUtf8_of_ascii hdigits⟩
  refine .inr ⟨_, split_headed hne hle, .inl ⟨_, .value, hreads, ?_, by decide⟩⟩
  rw [loadsNumber, List.length_map, if_pos hmany]

/-- The number of 4301 ones for a header: nobody has signed the token, and the verifier raises what is no
`TokenVerificationError`. -/
theorem not_verify_exact :
    ¬ ((∀ r, @verify ℤ wholeSeconds loadsNumber blankMac verifier (headed (List.replicate 4301 49)) 0 = .ok r ↔
          @Valid ℤ wholeSeconds loadsNumber blankMac verifier (headed (List.replicate 4301 49)) 0 r) ∧
        ((∀ r, ¬ @Valid ℤ wholeSeconds loadsNumber blankMac verifier (headed (List.replicate 4301 49)) 0 r) →
          ∃ message, @verify ℤ wholeSeconds loadsNumber blankMac verifier (headed (List.replicate 4301 49)) 0 =
            .error (.token message))) := by
  have hdigits : ∀ b ∈ List.replicate 4301 (49 : UInt8), b < 0x80 := fun b hb => by
    rw [List.eq_of_mem_replicate hb]
    decide
  have htroubled := troubled_headed hdigits (by rw [List.length_replicate]; decide)
    (by rw [List.length_replicate]; decide)
  rintro ⟨hok, hinvalid⟩
  refine (@clean_verify ℤ wholeSeconds _ _ _ _ _).mp (fun e he => ?_) htroubled
  obtain ⟨message, hmessage⟩ := hinvalid fun r hr => by
    rw [(hok r).mpr hr] at he
    cases he
  rw [hmessage] at he
  cases he
  exact ⟨message, rfl⟩

end AutomlApi.Tokens
