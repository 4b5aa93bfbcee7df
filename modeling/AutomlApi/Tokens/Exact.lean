import AutomlApi.Tokens.Bearer

/-! The verifier returns for the tokens that are valid, and of the exceptions that it raises
for the others all but a few are `TokenVerificationError`. -/

namespace AutomlApi.Tokens

/-! ### Exceptions -/

section Clean

variable {α β : Type}

/-- Nothing else is raised than `TokenVerificationError`. -/
def Clean (m : Except Raised α) : Prop := ∀ e, m = .error e → ∃ message, e = .token message

theorem clean_ok (a : α) : Clean (.ok a : Except Raised α) := fun e h => by cases h

theorem clean_token (message : String) : Clean (.error (.token message) : Except Raised α) := fun e h => by
  cases h
  exact ⟨message, rfl⟩

theorem clean_invalid : Clean (invalid : Except Raised α) := clean_token _

theorem clean_refuse (message : String) (c : Prop) [Decidable c] : Clean (refuse (.token message) c) := by
  unfold refuse
  split
  · exact clean_token message
  · exact clean_ok ()

theorem clean_bind {m : Except Raised α} {k : α → Except Raised β} :
    Clean (m >>= k) ↔ Clean m ∧ ∀ a, m = .ok a → Clean (k a) := by
  cases m with
  | error e =>
    constructor
    · intro h
      refine ⟨fun e' he => ?_, fun a ha => by cases ha⟩
      cases he
      exact h e rfl
    · rintro ⟨h, -⟩ e' he
      cases he
      exact h e rfl
  | ok a =>
    constructor
    · intro h
      refine ⟨clean_ok a, fun a' ha => ?_⟩
      cases ha
      exact h
    · rintro ⟨-, h⟩
      exact h a rfl

theorem Clean.bind {m : Except Raised α} {k : α → Except Raised β} (hm : Clean m) (hk : ∀ a, Clean (k a)) :
    Clean (m >>= k) := clean_bind.mpr ⟨hm, fun a _ => hk a⟩

end Clean

/-! ### Segments -/

/-- Base64url without padding. -/
def IsSegment (t : Text) : Prop := t ≠ [] ∧ Base64.Symbols t ∧ t.length % 4 ≠ 1

/-- The bytes of a segment. -/
def Decodes (t : Text) (bytes : Bytes) : Prop :=
  IsSegment t ∧ Base64.decode true (t ++ Base64.padding t.length) = some bytes

/-- The token is three segments between dots, in at most 64 KiB. -/
structure Split (token : Text) (s : Segments) : Prop where
  text : token = s.header ++ dot :: (s.payload ++ dot :: s.signature)
  header : s.header ≠ [] ∧ dot ∉ s.header
  payload : s.payload ≠ [] ∧ dot ∉ s.payload
  signature : s.signature ≠ [] ∧ dot ∉ s.signature
  size : ∃ n, token.utf8Size = some n ∧ n ≤ 64 * 1024

theorem symbol_iff (c : ℕ) : ((65 ≤ c && c ≤ 90) || (97 ≤ c && c ≤ 122) || (48 ≤ c && c ≤ 57) || c = 95 || c = 45) = true ↔
    ∃ n < 64, c = Base64.symbol n := by
  constructor
  · intro h
    simp only [Bool.or_eq_true, Bool.and_eq_true, decide_eq_true_eq] at h
    rcases h with (((h | h) | h) | rfl) | rfl
    · exact ⟨c - 65, by omega, by unfold Base64.symbol; split_ifs <;> omega⟩
    · exact ⟨c - 71, by omega, by unfold Base64.symbol; split_ifs <;> omega⟩
    · exact ⟨c + 4, by omega, by unfold Base64.symbol; split_ifs <;> omega⟩
    · exact ⟨63, by decide, rfl⟩
    · exact ⟨62, by decide, rfl⟩
  · rintro ⟨n, hn, rfl⟩
    have hall : ∀ n < 64, ((65 ≤ Base64.symbol n && Base64.symbol n ≤ 90) || (97 ≤ Base64.symbol n && Base64.symbol n ≤ 122) ||
        (48 ≤ Base64.symbol n && Base64.symbol n ≤ 57) || Base64.symbol n = 95 || Base64.symbol n = 45) = true := by decide
    exact hall n hn

theorem isBase64url_iff (t : Text) : isBase64url t = true ↔ t ≠ [] ∧ Base64.Symbols t := by
  unfold isBase64url Base64.Symbols
  rw [Bool.and_eq_true, List.all_eq_true, decide_eq_true_eq]
  simp only [symbol_iff]

theorem decodeBase64url_eq_ok {t : Text} {bytes : Bytes} : decodeBase64url t = .ok bytes ↔ Decodes t bytes := by
  unfold decodeBase64url Decodes IsSegment
  split
  · next h =>
    obtain ⟨hne, hsymbols⟩ := (isBase64url_iff t).mp h
    have hsome := Base64.isSome_decode true hsymbols
    cases hdecode : Base64.decode true (t ++ Base64.padding t.length) with
    | none =>
      constructor
      · intro h
        cases h
      · rintro ⟨-, h⟩
        cases h
    | some decoded =>
      rw [hdecode] at hsome
      have hlength : t.length % 4 ≠ 1 := hsome.mp rfl
      constructor
      · intro h
        cases h
        exact ⟨⟨hne, hsymbols, hlength⟩, rfl⟩
      · rintro ⟨-, h⟩
        cases h
        rfl
  · next h =>
    constructor
    · intro h
      cases h
    · rintro ⟨⟨hne, hsymbols, -⟩, -⟩
      exact absurd ((isBase64url_iff t).mpr ⟨hne, hsymbols⟩) h

theorem clean_decodeBase64url (t : Text) : Clean (decodeBase64url t) := by
  unfold decodeBase64url
  split
  · split
    · exact clean_invalid
    · exact clean_ok _
  · exact clean_invalid

theorem segmentsOf_eq_ok {token : Text} {s : Segments} : segmentsOf token = .ok s ↔ Split token s := by
  have hsplit : ∀ h p g : Text, token.splitOn dot = [h, p, g] ↔
      token = h ++ dot :: (p ++ dot :: g) ∧ dot ∉ h ∧ dot ∉ p ∧ dot ∉ g := by
    intro h p g
    rw [Text.splitOn_eq_cons (by simp)]
    constructor
    · rintro ⟨hh, u, rfl, hu⟩
      obtain ⟨hp, w, rfl, hw⟩ := (Text.splitOn_eq_cons (by simp)).mp hu
      obtain ⟨rfl, hg⟩ := Text.splitOn_eq_singleton.mp hw
      exact ⟨rfl, hh, hp, hg⟩
    · rintro ⟨htoken, hh, hp, hg⟩
      exact ⟨hh, _, htoken, (Text.splitOn_eq_cons (by simp)).mpr ⟨hp, _, rfl, Text.splitOn_eq_singleton.mpr ⟨rfl, hg⟩⟩⟩
  constructor
  · intro h
    unfold segmentsOf at h
    split at h
    · cases h
    split at h
    · cases h
    · next size hsize =>
      split at h
      · cases h
      · next hle =>
        split at h
        · next hd p g hparts =>
          obtain ⟨htoken, hh, hp, hg⟩ := (hsplit hd p g).mp hparts
          split at h
          · cases h
          · next hne =>
            cases h
            push Not at hne
            exact ⟨htoken, ⟨hne.1, hh⟩, ⟨hne.2.1, hp⟩, ⟨hne.2.2, hg⟩, size, hsize, Nat.le_of_not_lt hle⟩
        · cases h
  · rintro ⟨htoken, hh, hp, hg, n, hn, hle⟩
    have hparts := (hsplit s.header s.payload s.signature).mpr ⟨htoken, hh.2, hp.2, hg.2⟩
    have hne : token ≠ [] := by
      rw [htoken]
      simp
    unfold segmentsOf
    rw [if_neg hne, hn]
    dsimp only
    rw [if_neg (Nat.not_lt.mpr hle), hparts]
    exact if_neg (by simp [hh.1, hp.1, hg.1])

theorem clean_segmentsOf {token : Text} : Clean (segmentsOf token) ↔ ¬ (token ≠ [] ∧ token.utf8Size = none) := by
  unfold segmentsOf
  split
  · next h => exact iff_of_true clean_invalid fun hbad => hbad.1 h
  · next hne =>
    split
    · next hnone =>
      refine iff_of_false (fun h => ?_) (not_not.mpr ⟨hne, hnone⟩)
      obtain ⟨message, hmessage⟩ := h _ rfl
      cases hmessage
    · next size hsize =>
      refine iff_of_true ?_ fun hbad => by
        rw [hsize] at hbad
        cases hbad.2
      split
      · exact clean_invalid
      · split
        · split
          · exact clean_invalid
          · exact clean_ok _
        · exact clean_invalid

section Verify

variable {F : Type} (loads : Text → Except LoadError (Value F)) (mac : Bytes → Bytes → Digest)

/-! ### JSON objects -/

/-- The text of a segment. -/
def Reads (t text : Text) : Prop := ∃ bytes, Decodes t bytes ∧ Text.ofUtf8 bytes = some text

def IsObject (t : Text) (fields : Fields F) : Prop := ∃ text, Reads t text ∧ loads text = .ok (.object fields)

/-- `json.loads` raises on the segment what is no `JSONDecodeError`. -/
def Bursts (t : Text) : Prop := ∃ text e, Reads t text ∧ loads text = .error e ∧ e ≠ .decode

variable {loads mac}

theorem decodeJsonObject_eq_ok {t : Text} {fields : Fields F} :
    decodeJsonObject loads t = .ok fields ↔ IsObject loads t fields := by
  unfold decodeJsonObject IsObject Reads
  constructor
  · intro h
    obtain ⟨bytes, hbytes, h⟩ := except_bind_eq_ok h
    split at h
    · cases h
    · next text htext =>
      split at h
      · cases h
      · cases h
      · cases h
      · next hloads =>
        cases h
        exact ⟨text, ⟨bytes, decodeBase64url_eq_ok.mp hbytes, htext⟩, hloads⟩
      · cases h
  · rintro ⟨text, ⟨bytes, hbytes, htext⟩, hloads⟩
    rw [decodeBase64url_eq_ok.mpr hbytes]
    simp only [Except.bind, htext, hloads]

theorem clean_decodeJsonObject (t : Text) : Clean (decodeJsonObject loads t) ↔ ¬ Bursts loads t := by
  have hbind : Clean (decodeJsonObject loads t) ↔ _ := clean_bind
  rw [hbind]
  constructor
  · rintro ⟨-, h⟩ ⟨text, e, ⟨bytes, hbytes, htext⟩, hloads, he⟩
    have hraised := h bytes (decodeBase64url_eq_ok.mpr hbytes)
    simp only [htext, hloads] at hraised
    cases e with
    | decode => exact he rfl
    | value =>
      obtain ⟨message, hmessage⟩ := hraised _ rfl
      cases hmessage
    | recursion =>
      obtain ⟨message, hmessage⟩ := hraised _ rfl
      cases hmessage
  · intro h
    refine ⟨clean_decodeBase64url t, fun bytes hbytes => ?_⟩
    have hreads : ∀ text, Text.ofUtf8 bytes = some text → Reads t text := fun text htext =>
      ⟨bytes, decodeBase64url_eq_ok.mp hbytes, htext⟩
    split
    · exact clean_invalid
    · next text htext =>
      split
      · exact clean_invalid
      · next hloads => exact absurd ⟨text, _, hreads text htext, hloads, by decide⟩ h
      · next hloads => exact absurd ⟨text, _, hreads text htext, hloads, by decide⟩ h
      · exact clean_ok _
      · exact clean_token _

/-! ### The header and the signature -/

/-- The header names the algorithm, and nothing critical. -/
def Plain (header : Fields F) : Prop :=
  (Value.field header "alg").isStr (Text.of "HS256") = true ∧ header.has (Text.of "crit") = false

/-- The key of a token: the one that its id names, or the only one. -/
def Selects (v : HS256JWTVerifier) (header : Fields F) (key : Text × Bytes) : Prop :=
  (Value.field header "kid" = .null ∧ v.keys = [key]) ∨ (Value.field header "kid" = .str key.1 ∧ v.keys.get key.1 = some key.2)

variable (mac) in
/-- The signature is the code of the first two segments. -/
def Signs (signingKey : Bytes) (s : Segments) : Prop := Decodes s.signature (mac signingKey (signingInput s)).1

theorem checkHeader_eq_ok {header : Fields F} : checkHeader header = .ok () ↔ Plain header := by
  unfold checkHeader Plain
  constructor
  · intro h
    obtain ⟨halg, h⟩ := refuse_bind_eq_ok h
    exact ⟨not_not.mp halg, by simpa using refuse_eq_ok.mp h⟩
  · rintro ⟨halg, hcrit⟩
    rw [refuse, if_neg (not_not.mpr halg), except_ok_bind]
    exact refuse_eq_ok.mpr (by simp [hcrit])

theorem clean_checkHeader (header : Fields F) : Clean (checkHeader header) :=
  (clean_refuse _ _).bind fun _ => clean_refuse _ _

theorem selectKey_eq_ok {v : HS256JWTVerifier} {header : Fields F} {key : Text × Bytes} :
    selectKey v header = .ok key ↔ Selects v header key := by
  unfold selectKey Selects
  cases Value.field header "kid" with
  | null =>
    dsimp only
    split
    · next only hkeys => simp [hkeys, eq_comm]
    · next hkeys =>
      refine iff_of_false (fun h => by cases h) ?_
      rintro (⟨-, h⟩ | ⟨h, -⟩)
      · exact hkeys key h
      · cases h
  | str keyId =>
    dsimp only
    split
    · next hnone =>
      refine iff_of_false (fun h => by cases h) ?_
      rintro (⟨h, -⟩ | ⟨h, hget⟩)
      · cases h
      · cases h
        rw [hnone] at hget
        cases hget
    · next signingKey hsome =>
      constructor
      · intro h
        cases h
        exact .inr ⟨rfl, hsome⟩
      · rintro (⟨h, -⟩ | ⟨h, hget⟩)
        · cases h
        · cases h
          rw [hsome] at hget
          cases hget
          rfl
  | _ =>
    refine iff_of_false (fun h => by cases h) ?_
    rintro (⟨h, -⟩ | ⟨h, -⟩) <;> cases h

theorem clean_selectKey (v : HS256JWTVerifier) (header : Fields F) : Clean (selectKey v header) := by
  unfold selectKey
  split
  · split
    · exact clean_ok _
    · exact clean_token _
  · split
    · exact clean_token _
    · exact clean_ok _
  · exact clean_token _

theorem checkSignature_eq_ok {signingKey : Bytes} {s : Segments} :
    checkSignature mac signingKey s = .ok () ↔ Signs mac signingKey s := by
  unfold checkSignature Signs
  constructor
  · intro h
    obtain ⟨signature, hsignature, h⟩ := except_bind_eq_ok h
    obtain ⟨-, h⟩ := refuse_bind_eq_ok h
    rw [← not_not.mp (refuse_eq_ok.mp h)]
    exact decodeBase64url_eq_ok.mp hsignature
  · intro h
    have hlength : (mac signingKey (signingInput s)).1.length = 32 := (mac signingKey (signingInput s)).2
    rw [decodeBase64url_eq_ok.mpr h, except_ok_bind, refuse, if_neg (not_not.mpr hlength), except_ok_bind]
    exact refuse_eq_ok.mpr (not_not.mpr rfl)

theorem clean_checkSignature (signingKey : Bytes) (s : Segments) : Clean (checkSignature mac signingKey s) :=
  (clean_decodeBase64url _).bind fun _ => (clean_refuse _ _).bind fun _ => clean_refuse _ _

/-! ### Claims -/

/-- A text without white space around it. -/
def IsNonempty (value : Value F) (t : Text) : Prop := value = .str t ∧ t ≠ [] ∧ t = t.strip

/-- One audience, or a list of some. -/
def IsAudiences (value : Value F) (audiences : List Text) : Prop :=
  (∃ t, IsNonempty value t ∧ audiences = [t]) ∨
    ∃ items, value = .list items ∧ audiences ≠ [] ∧ List.Forall₂ IsNonempty items audiences

/-- The token is from the issuer, and for one of the audiences. -/
def Expected (v : HS256JWTVerifier) (payload : Fields F) : Prop :=
  (Value.field payload "iss").isStr v.issuer = true ∧
    ∃ audiences, IsAudiences (Value.field payload "aud") audiences ∧ ∃ a ∈ v.audiences, a ∈ audiences

def IsIdentifier (value : Value F) (t : Text) : Prop := IsNonempty value t ∧ t.length ≤ 256 ∧ ∀ c ∈ t, 32 ≤ c

/-- No scopes, those of a text, or those of a list. -/
def IsClaimSet (value : Value F) (scopes : Finset Text) : Prop :=
  ∃ l : List Text, (∀ t ∈ l, isScope t = true) ∧ scopes = l.toFinset ∧
    ((value = .null ∧ l = []) ∨ (∃ t, value = .str t ∧ l = t.split) ∨ value = .list (l.map .str))

/-- The claims of identity are well formed, and this is what they say. -/
structure IsIdentity (v : HS256JWTVerifier) (keyId : Text) (payload : Fields F) (r : VerifiedToken) : Prop where
  subject : IsIdentifier (Value.field payload "sub") r.subject
  tenantId : IsIdentifier (Value.field payload "tenant_id") r.tenantId ∧ isTenantId r.tenantId = true
  scopes : ∃ scope, IsClaimSet (Value.field payload "scope") scope ∧
    ∃ scopes, IsClaimSet (Value.field payload "scopes") scopes ∧ r.scopes = scope ∪ scopes
  roles : ∃ role, IsClaimSet (Value.field payload "role") role ∧
    ∃ roles, IsClaimSet (Value.field payload "roles") roles ∧ r.roles = role ∪ roles
  actorType : IsIdentifier ((payload.get (Text.of "actor_type")).getD (.str (Text.of "service"))) r.actorType ∧
    r.actorType ∈ [Text.of "human", Text.of "agent", Text.of "service"]
  issuer : r.issuer = v.issuer
  keyId : r.keyId = keyId

theorem mapM_eq_some {α β : Type} {f : α → Option β} {l : List α} {l' : List β} :
    l.mapM f = some l' ↔ List.Forall₂ (fun a b => f a = some b) l l' := by
  induction l generalizing l' with
  | nil => simp [eq_comm]
  | cons a l ih =>
    rw [List.mapM_cons]
    constructor
    · intro h
      obtain ⟨b, hb, h⟩ := Option.bind_eq_some_iff.mp h
      obtain ⟨rest, hrest, h⟩ := Option.bind_eq_some_iff.mp h
      cases h
      exact .cons hb (ih.mp hrest)
    · intro h
      cases h with
      | cons hb hrest =>
        rw [hb, ih.mpr hrest]
        rfl

theorem nonemptyString_eq_some {value : Value F} {t : Text} : nonemptyString value = some t ↔ IsNonempty value t := by
  unfold nonemptyString IsNonempty
  cases value with
  | str u =>
    dsimp only
    constructor
    · intro h
      split at h
      · cases h
      · next hgood =>
        cases h
        push Not at hgood
        exact ⟨rfl, hgood⟩
    · rintro ⟨h, hne, hstrip⟩
      cases h
      exact if_neg (by simp [hne, ← hstrip])
  | _ => simp

theorem audienceClaim_eq_ok {value : Value F} {audiences : List Text} :
    audienceClaim value = .ok audiences ↔ IsAudiences value audiences := by
  unfold audienceClaim IsAudiences
  cases value with
  | str u =>
    dsimp only
    cases hu : nonemptyString (Value.str u : Value F) with
    | none =>
      refine iff_of_false (fun h => by cases h) ?_
      rintro (⟨t, ht, -⟩ | ⟨items, h, -⟩)
      · rw [nonemptyString_eq_some.mpr ht] at hu
        cases hu
      · cases h
    | some w =>
      constructor
      · intro h
        cases h
        exact .inl ⟨w, nonemptyString_eq_some.mp hu, rfl⟩
      · rintro (⟨t, ht, rfl⟩ | ⟨items, h, -⟩)
        · rw [nonemptyString_eq_some.mpr ht] at hu
          cases hu
          rfl
        · cases h
  | list items =>
    have hitems : ∀ l, items.mapM nonemptyString = some l ↔ List.Forall₂ IsNonempty items l := by
      intro l
      rw [mapM_eq_some]
      simp only [nonemptyString_eq_some]
    dsimp only
    constructor
    · intro h
      split at h
      · next t rest hl =>
        cases h
        exact .inr ⟨items, rfl, by simp, (hitems _).mp hl⟩
      · cases h
    · rintro (⟨t, ⟨h, -⟩, -⟩ | ⟨others, h, hne, hall⟩)
      · cases h
      · cases h
        rw [(hitems _).mpr hall]
        cases audiences with
        | nil => exact absurd rfl hne
        | cons t rest => rfl
  | _ =>
    refine iff_of_false (fun h => by cases h) ?_
    rintro (⟨t, ⟨h, -⟩, -⟩ | ⟨items, h, -⟩) <;> cases h

theorem clean_audienceClaim (value : Value F) : Clean (audienceClaim value) := by
  unfold audienceClaim
  dsimp only
  split
  · exact clean_ok _
  · exact clean_token _

theorem checkParties_eq_ok {v : HS256JWTVerifier} {payload : Fields F} :
    checkParties v payload = .ok () ↔ Expected v payload := by
  unfold checkParties Expected
  constructor
  · intro h
    obtain ⟨hissuer, h⟩ := refuse_bind_eq_ok h
    obtain ⟨audiences, haudiences, h⟩ := except_bind_eq_ok h
    have hshared := refuse_eq_ok.mp h
    push Not at hshared
    exact ⟨not_not.mp hissuer, audiences, audienceClaim_eq_ok.mp haudiences, hshared⟩
  · rintro ⟨hissuer, audiences, haudiences, a, ha, hmem⟩
    rw [refuse, if_neg (not_not.mpr hissuer), except_ok_bind, audienceClaim_eq_ok.mpr haudiences, except_ok_bind]
    exact refuse_eq_ok.mpr fun hdisjoint => hdisjoint a ha hmem

theorem clean_checkParties (v : HS256JWTVerifier) (payload : Fields F) : Clean (checkParties v payload) :=
  (clean_refuse _ _).bind fun _ => (clean_audienceClaim _).bind fun _ => clean_refuse _ _

theorem identifierClaim_eq_ok {value : Value F} {name : String} {t : Text} :
    identifierClaim value name = .ok t ↔ IsIdentifier value t := by
  unfold identifierClaim IsIdentifier
  constructor
  · intro h
    split at h
    · cases h
    · next u hu =>
      split at h
      · cases h
      · next hgood =>
        cases h
        push Not at hgood
        exact ⟨nonemptyString_eq_some.mp hu, hgood⟩
  · rintro ⟨ht, hlength, hcontrol⟩
    rw [nonemptyString_eq_some.mpr ht]
    refine if_neg ?_
    rintro (hlong | ⟨c, hc, hlt⟩)
    · omega
    · exact absurd (hcontrol c hc) (Nat.not_le.mpr hlt)

theorem clean_identifierClaim (value : Value F) (name : String) : Clean (identifierClaim value name) := by
  unfold identifierClaim
  split
  · exact clean_token _
  · split
    · exact clean_token _
    · exact clean_ok _

theorem tenantIdClaim_eq_ok {value : Value F} {t : Text} :
    tenantIdClaim value = .ok t ↔ IsIdentifier value t ∧ isTenantId t = true := by
  unfold tenantIdClaim
  constructor
  · intro h
    obtain ⟨u, hu, h⟩ := except_bind_eq_ok h
    split at h
    · next htenant =>
      cases h
      exact ⟨identifierClaim_eq_ok.mp hu, htenant⟩
    · cases h
  · rintro ⟨ht, htenant⟩
    rw [identifierClaim_eq_ok.mpr ht]
    exact if_pos htenant

theorem clean_tenantIdClaim (value : Value F) : Clean (tenantIdClaim value) := by
  refine Clean.bind (clean_identifierClaim value "tenant_id") fun t => ?_
  split
  · exact clean_ok _
  · exact clean_token _

theorem actorTypeClaim_eq_ok {value : Value F} {t : Text} :
    actorTypeClaim value = .ok t ↔ IsIdentifier value t ∧ t ∈ [Text.of "human", Text.of "agent", Text.of "service"] := by
  unfold actorTypeClaim
  constructor
  · intro h
    obtain ⟨u, hu, h⟩ := except_bind_eq_ok h
    split at h
    · next hactor =>
      cases h
      exact ⟨identifierClaim_eq_ok.mp hu, hactor⟩
    · cases h
  · rintro ⟨ht, hactor⟩
    rw [identifierClaim_eq_ok.mpr ht]
    exact if_pos hactor

theorem clean_actorTypeClaim (value : Value F) : Clean (actorTypeClaim value) := by
  refine Clean.bind (clean_identifierClaim value "actor_type") fun t => ?_
  split
  · exact clean_ok _
  · exact clean_token _

theorem normalizeScope_eq_some {value : Value F} {t : Text} :
    normalizeScope value = some t ↔ value = .str t ∧ isScope t = true := by
  unfold normalizeScope
  cases value with
  | str u =>
    dsimp only
    split
    · next h =>
      constructor
      · intro heq
        cases heq
        exact ⟨rfl, h⟩
      · rintro ⟨heq, -⟩
        cases heq
        rfl
    · next h =>
      refine iff_of_false (fun heq => by cases heq) ?_
      rintro ⟨heq, ht⟩
      cases heq
      exact h ht
  | _ => simp

/-- The items that are scopes. -/
theorem mapM_normalizeScope {items : List (Value F)} {l : List Text} :
    items.mapM normalizeScope = some l ↔ items = l.map .str ∧ ∀ t ∈ l, isScope t = true := by
  rw [mapM_eq_some]
  simp only [normalizeScope_eq_some]
  induction items generalizing l with
  | nil =>
    constructor
    · intro h
      cases h
      exact ⟨rfl, by simp⟩
    · rintro ⟨h, -⟩
      rw [List.map_eq_nil_iff.mp h.symm]
      exact .nil
  | cons value items ih =>
    constructor
    · intro h
      cases h with
      | cons hvalue hrest =>
        obtain ⟨hitems, hscopes⟩ := ih.mp hrest
        exact ⟨by rw [hvalue.1, hitems, List.map_cons], List.forall_mem_cons.mpr ⟨hvalue.2, hscopes⟩⟩
    · rintro ⟨heq, hscopes⟩
      cases l with
      | nil => cases heq
      | cons t rest =>
        obtain ⟨ht, hrest⟩ := List.forall_mem_cons.mp hscopes
        rw [List.map_cons] at heq
        cases heq
        exact .cons ⟨rfl, ht⟩ (ih.mpr ⟨rfl, hrest⟩)

theorem claimItems_eq_some {value : Value F} {l : List Text} : claimItems value = some l ↔
    (∀ t ∈ l, isScope t = true) ∧
      ((value = .null ∧ l = []) ∨ (∃ t, value = .str t ∧ l = t.split) ∨ value = .list (l.map .str)) := by
  have hinjective : Function.Injective (Value.str : Text → Value F) := fun a b h => by
    cases h
    rfl
  unfold claimItems
  cases value with
  | null =>
    constructor
    · intro h
      cases h
      exact ⟨by simp, .inl ⟨rfl, rfl⟩⟩
    · rintro ⟨-, ⟨-, rfl⟩ | ⟨t, h, -⟩ | h⟩
      · rfl
      · cases h
      · cases h
  | str u =>
    dsimp only
    rw [mapM_normalizeScope, (List.map_injective_iff.mpr hinjective).eq_iff]
    constructor
    · rintro ⟨rfl, hscopes⟩
      exact ⟨hscopes, .inr (.inl ⟨u, rfl, rfl⟩)⟩
    · rintro ⟨hscopes, ⟨h, -⟩ | ⟨t, h, rfl⟩ | h⟩
      · cases h
      · cases h
        exact ⟨rfl, hscopes⟩
      · cases h
  | list items =>
    dsimp only
    rw [mapM_normalizeScope]
    constructor
    · rintro ⟨rfl, hscopes⟩
      exact ⟨hscopes, .inr (.inr rfl)⟩
    · rintro ⟨hscopes, ⟨h, -⟩ | ⟨t, h, -⟩ | h⟩
      · cases h
      · cases h
      · cases h
        exact ⟨rfl, hscopes⟩
  | _ =>
    refine iff_of_false (fun h => by cases h) ?_
    rintro ⟨-, ⟨h, -⟩ | ⟨t, h, -⟩ | h⟩ <;> cases h

theorem claimSet_eq_ok {value : Value F} {name : String} {scopes : Finset Text} :
    claimSet value name = .ok scopes ↔ IsClaimSet value scopes := by
  unfold claimSet IsClaimSet
  constructor
  · intro h
    split at h
    · cases h
    · next l hl =>
      cases h
      obtain ⟨hscopes, hitems⟩ := claimItems_eq_some.mp hl
      exact ⟨l, hscopes, rfl, hitems⟩
  · rintro ⟨l, hscopes, rfl, hitems⟩
    rw [claimItems_eq_some.mpr ⟨hscopes, hitems⟩]

theorem clean_claimSet (value : Value F) (name : String) : Clean (claimSet value name) := by
  unfold claimSet
  split
  · exact clean_token _
  · exact clean_ok _

theorem identityOf_eq_ok {v : HS256JWTVerifier} {keyId : Text} {payload : Fields F} {r : VerifiedToken} :
    identityOf v keyId payload = .ok r ↔ IsIdentity v keyId payload r := by
  unfold identityOf
  constructor
  · intro h
    obtain ⟨subject, hsubject, h⟩ := except_bind_eq_ok h
    obtain ⟨tenantId, htenantId, h⟩ := except_bind_eq_ok h
    obtain ⟨scope, hscope, h⟩ := except_bind_eq_ok h
    obtain ⟨scopes, hscopes, h⟩ := except_bind_eq_ok h
    obtain ⟨role, hrole, h⟩ := except_bind_eq_ok h
    obtain ⟨roles, hroles, h⟩ := except_bind_eq_ok h
    obtain ⟨actorType, hactorType, h⟩ := except_bind_eq_ok h
    cases h
    exact ⟨identifierClaim_eq_ok.mp hsubject, tenantIdClaim_eq_ok.mp htenantId,
      ⟨scope, claimSet_eq_ok.mp hscope, scopes, claimSet_eq_ok.mp hscopes, rfl⟩,
      ⟨role, claimSet_eq_ok.mp hrole, roles, claimSet_eq_ok.mp hroles, rfl⟩, actorTypeClaim_eq_ok.mp hactorType, rfl, rfl⟩
  · rintro ⟨hsubject, htenantId, ⟨scope, hscope, scopes, hscopes, hallScopes⟩, ⟨role, hrole, roles, hroles, hallRoles⟩,
      hactorType, hissuer, hkeyId⟩
    rw [identifierClaim_eq_ok.mpr hsubject, except_ok_bind, tenantIdClaim_eq_ok.mpr htenantId, except_ok_bind,
      claimSet_eq_ok.mpr hscope, except_ok_bind, claimSet_eq_ok.mpr hscopes, except_ok_bind, claimSet_eq_ok.mpr hrole,
      except_ok_bind, claimSet_eq_ok.mpr hroles, except_ok_bind, actorTypeClaim_eq_ok.mpr hactorType, except_ok_bind,
      ← hallScopes, ← hallRoles, ← hissuer, ← hkeyId]
    rfl

theorem clean_identityOf (v : HS256JWTVerifier) (keyId : Text) (payload : Fields F) : Clean (identityOf v keyId payload) :=
  (clean_identifierClaim _ _).bind fun _ => (clean_tenantIdClaim _).bind fun _ => (clean_claimSet _ _).bind fun _ =>
    (clean_claimSet _ _).bind fun _ => (clean_claimSet _ _).bind fun _ => (clean_claimSet _ _).bind fun _ =>
      (clean_actorTypeClaim _).bind fun _ => clean_ok _

/-! ### Times -/

variable [Seconds F]

/-- The claim is a number that is finite as a float. -/
def IsDate (value : Value F) (x : F) : Prop :=
  ((∃ i, value = .int i ∧ Seconds.ofInt i = some x) ∨ value = .float x) ∧ Seconds.isFinite x = true

/-- An integer that is too large for a float. -/
def Huge (value : Value F) : Prop := ∃ i, value = .int i ∧ (Seconds.ofInt i : Option F) = none

/-- The token has not expired. -/
def Lives (v : HS256JWTVerifier) (payload : Fields F) (timestamp : F) : Prop :=
  ∃ e, IsDate (Value.field payload "exp") e ∧ Seconds.le (Seconds.add e v.leewaySeconds) timestamp = false

/-- The token is active, where it says from when. -/
def Started (v : HS256JWTVerifier) (payload : Fields F) (timestamp : F) : Prop :=
  Value.field payload "nbf" = .null ∨
    ∃ n, IsDate (Value.field payload "nbf") n ∧ Seconds.lt (Seconds.add timestamp v.leewaySeconds) n = false

theorem finite_eq_ok {name : String} {x : F} {date : Option F} :
    finite name x = .ok date ↔ date = some x ∧ Seconds.isFinite x = true := by
  unfold finite
  split
  · next h =>
    constructor
    · intro hdate
      cases hdate
      exact ⟨rfl, h⟩
    · rintro ⟨rfl, -⟩
      rfl
  · next h => exact iff_of_false (fun hdate => by cases hdate) fun hdate => h hdate.2

theorem numericDate_eq_ok {value : Value F} {name : String} {required : Bool} {date : Option F} :
    numericDate value name required = .ok date ↔
      (value = .null ∧ required = false ∧ date = none) ∨ ∃ x, IsDate value x ∧ date = some x := by
  unfold numericDate IsDate
  cases value with
  | null =>
    dsimp only
    constructor
    · intro h
      split at h
      · cases h
      · next hrequired =>
        cases h
        exact .inl ⟨rfl, by simpa using hrequired, rfl⟩
    · rintro (⟨-, rfl, rfl⟩ | ⟨x, ⟨⟨i, h, -⟩ | h, -⟩, -⟩)
      · rfl
      · cases h
      · cases h
  | int i =>
    dsimp only
    cases hi : (Seconds.ofInt i : Option F) with
    | none => simp [hi]
    | some x =>
      dsimp only
      rw [finite_eq_ok]
      constructor
      · rintro ⟨rfl, hx⟩
        exact .inr ⟨x, ⟨.inl ⟨i, rfl, hi⟩, hx⟩, rfl⟩
      · rintro (⟨h, -⟩ | ⟨y, ⟨⟨j, hj, hy⟩ | h, hfinite⟩, rfl⟩)
        · cases h
        · cases hj
          rw [hi] at hy
          cases hy
          exact ⟨rfl, hfinite⟩
        · cases h
  | float x =>
    dsimp only
    rw [finite_eq_ok]
    constructor
    · rintro ⟨rfl, hx⟩
      exact .inr ⟨x, ⟨.inr rfl, hx⟩, rfl⟩
    · rintro (⟨h, -⟩ | ⟨y, ⟨⟨j, hj, -⟩ | h, hfinite⟩, rfl⟩)
      · cases h
      · cases hj
      · cases h
        exact ⟨rfl, hfinite⟩
  | _ => simp

theorem clean_numericDate {value : Value F} {name : String} {required : Bool} :
    Clean (numericDate value name required) ↔ ¬ Huge value := by
  have hfinite : ∀ x : F, Clean (finite name x) := by
    intro x
    unfold finite
    split
    · exact clean_ok _
    · exact clean_token _
  unfold numericDate Huge
  cases value with
  | null =>
    refine iff_of_true ?_ (by simp)
    dsimp only
    split
    · exact clean_token _
    · exact clean_ok _
  | int i =>
    dsimp only
    cases hi : (Seconds.ofInt i : Option F) with
    | none =>
      refine iff_of_false (fun h => ?_) (not_not.mpr ⟨i, rfl, hi⟩)
      obtain ⟨message, hmessage⟩ := h _ rfl
      cases hmessage
    | some x =>
      refine iff_of_true (hfinite x) ?_
      rintro ⟨j, hj, hnone⟩
      cases hj
      rw [hi] at hnone
      cases hnone
  | float x => exact iff_of_true (hfinite x) (by simp)
  | _ => exact iff_of_true (clean_token _) (by simp)

theorem checkTimes_eq_ok {v : HS256JWTVerifier} {payload : Fields F} {timestamp : F} :
    checkTimes v payload timestamp = .ok () ↔ Lives v payload timestamp ∧ Started v payload timestamp := by
  unfold checkTimes Lives Started
  constructor
  · intro h
    obtain ⟨expiration, hexpiration, h⟩ := except_bind_eq_ok h
    obtain ⟨hlives, h⟩ := refuse_bind_eq_ok h
    obtain ⟨notBefore, hnotBefore, h⟩ := except_bind_eq_ok h
    have hstarted := refuse_eq_ok.mp h
    rcases numericDate_eq_ok.mp hexpiration with ⟨-, hrequired, -⟩ | ⟨e, he, rfl⟩
    · cases hrequired
    refine ⟨⟨e, he, Bool.eq_false_iff.mpr fun hle => hlives ⟨e, rfl, hle⟩⟩, ?_⟩
    rcases numericDate_eq_ok.mp hnotBefore with ⟨hnull, -, -⟩ | ⟨n, hn, rfl⟩
    · exact .inl hnull
    · exact .inr ⟨n, hn, Bool.eq_false_iff.mpr fun hlt => hstarted ⟨n, rfl, hlt⟩⟩
  · rintro ⟨⟨e, he, hle⟩, hstarted⟩
    have hexpiration : numericDate (Value.field payload "exp") "exp" true = .ok (some e) :=
      numericDate_eq_ok.mpr (.inr ⟨e, he, rfl⟩)
    have hlives : ¬ ∃ x ∈ some e, Seconds.le (Seconds.add x v.leewaySeconds) timestamp = true := by
      rintro ⟨x, hx, h⟩
      cases hx
      rw [hle] at h
      cases h
    rw [hexpiration, except_ok_bind, refuse, if_neg hlives, except_ok_bind]
    rcases hstarted with hnull | ⟨n, hn, hlt⟩
    · have hnotBefore : numericDate (Value.field payload "nbf") "nbf" false = .ok none :=
        numericDate_eq_ok.mpr (.inl ⟨hnull, rfl, rfl⟩)
      rw [hnotBefore, except_ok_bind]
      exact refuse_eq_ok.mpr (by simp)
    · have hnotBefore : numericDate (Value.field payload "nbf") "nbf" false = .ok (some n) :=
        numericDate_eq_ok.mpr (.inr ⟨n, hn, rfl⟩)
      rw [hnotBefore, except_ok_bind]
      refine refuse_eq_ok.mpr ?_
      rintro ⟨x, hx, h⟩
      cases hx
      rw [hlt] at h
      cases h

theorem clean_checkTimes {v : HS256JWTVerifier} {payload : Fields F} {timestamp : F} :
    Clean (checkTimes v payload timestamp) ↔
      ¬ (Huge (Value.field payload "exp") ∨ (Lives v payload timestamp ∧ Huge (Value.field payload "nbf"))) := by
  have hchain : Clean (checkTimes v payload timestamp) ↔ ¬ Huge (Value.field payload "exp") ∧
      ∀ e, numericDate (Value.field payload "exp") "exp" true = .ok e →
        ¬ (∃ x ∈ e, Seconds.le (Seconds.add x v.leewaySeconds) timestamp = true) → ¬ Huge (Value.field payload "nbf") := by
    unfold checkTimes
    rw [clean_bind, clean_numericDate]
    refine and_congr_right fun _ => forall₂_congr fun e _ => ?_
    rw [clean_bind]
    simp only [clean_refuse, true_and]
    constructor
    · intro h hlives
      have hrest := h () (refuse_eq_ok.mpr hlives)
      rw [clean_bind, clean_numericDate] at hrest
      exact hrest.1
    · intro h u hu
      exact clean_bind.mpr ⟨clean_numericDate.mpr (h (refuse_eq_ok.mp hu)), fun _ _ => clean_refuse _ _⟩
  rw [hchain, not_or, not_and]
  refine and_congr_right fun _ => ?_
  constructor
  · rintro h ⟨e, he, hle⟩
    refine h (some e) (numericDate_eq_ok.mpr (.inr ⟨e, he, rfl⟩)) ?_
    rintro ⟨x, hx, hexpired⟩
    cases hx
    rw [hle] at hexpired
    cases hexpired
  · intro h date hdate hlives
    rcases numericDate_eq_ok.mp hdate with ⟨-, hrequired, -⟩ | ⟨e, he, rfl⟩
    · cases hrequired
    · exact h ⟨e, he, Bool.eq_false_iff.mpr fun hle => hlives ⟨e, rfl, hle⟩⟩

end Verify

end AutomlApi.Tokens
