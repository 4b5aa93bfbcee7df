import AutomlApi.Library.Base64
import AutomlApi.Library.Checked
import AutomlApi.Library.Dict
import AutomlApi.Library.Texts
import Mathlib.Data.Finset.Dedup
import Mathlib.Data.Finset.Lattice.Basic

/-! Bearer tokens: the strict verifier of JSON web tokens that are signed with HS256. -/

namespace AutomlApi.Tokens

/-- The values of JSON texts. -/
inductive Value (F : Type) where
  | null
  | bool (b : Bool)
  | int (i : ℤ)
  | float (x : F)
  | str (t : Text)
  | list (items : List (Value F))
  | object (fields : List (Text × Value F))

abbrev Fields (F : Type) := Dict Text (Value F)

/-- `get`, with `None` for what is not there. -/
def Value.field {F : Type} (fields : Fields F) (name : String) : Value F := (fields.get (Text.of name)).getD .null

def Value.isStr {F : Type} (t : Text) : Value F → Bool
  | .str s => s = t
  | _ => false

/-- The exceptions of `json.loads`: `JSONDecodeError`, another `ValueError` for an integer
with too many digits, and `RecursionError`. -/
inductive LoadError where
  | decode | value | recursion
  deriving DecidableEq

/-- The exceptions of `verify`; the first is `TokenVerificationError`. -/
inductive Raised where
  | token (message : String)
  | unicodeEncode
  | value
  | recursion
  | overflow
  deriving DecidableEq

/-- Numbers of seconds as floats. An integer may be too large for one. -/
class Seconds (F : Type) where
  ofInt : ℤ → Option F
  isFinite : F → Bool
  add : F → ℕ → F
  le : F → F → Bool
  lt : F → F → Bool

abbrev Bytes := List UInt8

abbrev Digest := { bytes : Bytes // bytes.length = 32 }

theorem length_blank : (List.replicate 32 (0 : UInt8)).length = 32 := rfl

def Digest.blank : Digest := ⟨List.replicate 32 0, length_blank⟩

/-- A verifier that was constructed. -/
structure HS256JWTVerifier where
  issuer : Text
  audiences : List Text
  keys : Dict Text Bytes
  leewaySeconds : ℕ
  audience : audiences ≠ []
  key : keys ≠ []
  keyed : (keys.map Prod.fst).Nodup
  named : ∀ t ∈ issuer :: (audiences ++ keys.map Prod.fst), t ≠ [] ∧ t = t.strip
  secret : ∀ key ∈ keys, 32 ≤ key.2.length
  leeway : leewaySeconds ≤ 300

structure VerifiedToken where
  subject : Text
  tenantId : Text
  scopes : Finset Text
  roles : Finset Text
  actorType : Text
  issuer : Text
  keyId : Text

def invalid {α : Type} : Except Raised α := .error (.token "The bearer token is invalid.")

def invalidClaim (name : String) : Raised := .token ("The bearer token " ++ name ++ " claim is invalid.")

/-! ### Segments -/

def dot : ℕ := 46

structure Segments where
  header : Text
  payload : Text
  signature : Text

/-- The three segments of a token of at most 64 KiB. -/
def segmentsOf (token : Text) : Except Raised Segments :=
  if token = [] then invalid
  else
    match token.utf8Size with
    | none => .error .unicodeEncode
    | some size =>
      if 64 * 1024 < size then invalid
      else
        match token.splitOn dot with
        | [header, payload, signature] =>
          if header = [] ∨ payload = [] ∨ signature = [] then invalid else .ok ⟨header, payload, signature⟩
        | _ => invalid

/-- `_BASE64URL_SEGMENT`. -/
def isBase64url (segment : Text) : Bool :=
  segment ≠ [] && segment.all fun c =>
    (65 ≤ c && c ≤ 90) || (97 ≤ c && c ≤ 122) || (48 ≤ c && c ≤ 57) || c = 95 || c = 45

/-- `_decode_base64url`. -/
def decodeBase64url (segment : Text) : Except Raised Bytes :=
  if isBase64url segment then
    match Base64.decode true (segment ++ Base64.padding segment.length) with
    | none => invalid
    | some bytes => .ok bytes
  else invalid

section Verify

variable {F : Type} [Seconds F] (loads : Text → Except LoadError (Value F)) (mac : Bytes → Bytes → Digest)

/-- `_decode_json_object`. -/
def decodeJsonObject (segment : Text) : Except Raised (Fields F) :=
  (decodeBase64url segment).bind fun bytes =>
    match Text.ofUtf8 bytes with
    | none => invalid
    | some decoded =>
      match loads decoded with
      | .error .decode => invalid
      | .error .value => .error .value
      | .error .recursion => .error .recursion
      | .ok (.object fields) => .ok fields
      | .ok _ => .error (.token "JWT header and payload must be JSON objects.")

/-! ### The header -/

def checkHeader (header : Fields F) : Except Raised Unit := do
  refuse (.token "The bearer token uses an unsupported algorithm.") (¬ (Value.field header "alg").isStr (Text.of "HS256"))
  refuse (.token "Critical JWT headers are not supported.") (header.has (Text.of "crit"))

/-- The key of the header's id, or the only one. -/
def selectKey (v : HS256JWTVerifier) (header : Fields F) : Except Raised (Text × Bytes) :=
  match Value.field header "kid" with
  | .null =>
    match v.keys with
    | [key] => .ok key
    | _ => .error (.token "A key id is required while keys are rotating.")
  | .str keyId =>
    match v.keys.get keyId with
    | none => .error (.token "The bearer token key id is unknown.")
    | some signingKey => .ok (keyId, signingKey)
  | _ => .error (.token "The bearer token key id is invalid.")

/-- What is signed. -/
def signingInput (segments : Segments) : Bytes := (segments.header ++ dot :: segments.payload).map UInt8.ofNat

def checkSignature (signingKey : Bytes) (segments : Segments) : Except Raised Unit := do
  let signature ← decodeBase64url segments.signature
  refuse (.token "The bearer token signature is invalid.") (signature.length ≠ 32)
  refuse (.token "The bearer token signature is invalid.") (signature ≠ (mac signingKey (signingInput segments)).1)

/-! ### The claims -/

/-- The number of a claim, where it is finite. -/
def finite (name : String) (x : F) : Except Raised (Option F) :=
  if Seconds.isFinite x then .ok (some x) else .error (invalidClaim name)

/-- `_numeric_date`. -/
def numericDate (value : Value F) (name : String) (required : Bool) : Except Raised (Option F) :=
  match value with
  | .null => if required then .error (.token ("The bearer token is missing " ++ name ++ ".")) else .ok none
  | .int i =>
    match Seconds.ofInt i with
    | none => .error .overflow
    | some x => finite name x
  | .float x => finite name x
  | _ => .error (invalidClaim name)

def checkTimes (v : HS256JWTVerifier) (payload : Fields F) (timestamp : F) : Except Raised Unit := do
  let expiration ← numericDate (Value.field payload "exp") "exp" true
  refuse (.token "The bearer token has expired.")
    (∃ e ∈ expiration, Seconds.le (Seconds.add e v.leewaySeconds) timestamp = true)
  let notBefore ← numericDate (Value.field payload "nbf") "nbf" false
  refuse (.token "The bearer token is not active yet.")
    (∃ n ∈ notBefore, Seconds.lt (Seconds.add timestamp v.leewaySeconds) n = true)

/-- `_nonempty_string`. -/
def nonemptyString : Value F → Option Text
  | .str t => if t = [] ∨ t ≠ t.strip then none else some t
  | _ => none

/-- `_audience_claim`. -/
def audienceClaim (value : Value F) : Except Raised (List Text) :=
  let normalized :=
    match value with
    | .str _ => (nonemptyString value).map fun t => [t]
    | .list items => items.mapM nonemptyString
    | _ => none
  match normalized with
  | some (t :: rest) => .ok (t :: rest)
  | _ => .error (.token "The bearer token audience is invalid.")

/-- `_identifier_claim`. -/
def identifierClaim (value : Value F) (name : String) : Except Raised Text :=
  match nonemptyString value with
  | none => .error (invalidClaim name)
  | some t => if 256 < t.length ∨ ∃ c ∈ t, c < 32 then .error (invalidClaim name) else .ok t

def alphanumeric (c : ℕ) : Bool := (65 ≤ c && c ≤ 90) || (97 ≤ c && c ≤ 122) || (48 ≤ c && c ≤ 57)

/-- `_TENANT_ID`. -/
def isTenantId : Text → Bool
  | [] => false
  | c :: rest => alphanumeric c && rest.length ≤ 255 && rest.all fun d => alphanumeric d || d = 95 || d = 45

/-- `_tenant_id_claim`. -/
def tenantIdClaim (value : Value F) : Except Raised Text :=
  (identifierClaim value "tenant_id").bind fun t =>
    if isTenantId t then .ok t else .error (invalidClaim "tenant_id")

/-- `_actor_type_claim`. -/
def actorTypeClaim (value : Value F) : Except Raised Text :=
  (identifierClaim value "actor_type").bind fun t =>
    if t ∈ [Text.of "human", Text.of "agent", Text.of "service"] then .ok t else .error (invalidClaim "actor_type")

/-- `_SCOPE_VALUE`. -/
def isScope (t : Text) : Bool :=
  t ≠ [] && t.length ≤ 256 && t.all fun c => c = 0x21 || (0x23 ≤ c && c ≤ 0x5B) || (0x5D ≤ c && c ≤ 0x7E)

/-- `normalize_scope`. -/
def normalizeScope : Value F → Option Text
  | .str t => if isScope t then some t else none
  | _ => none

/-- The items of a claim, each a scope. -/
def claimItems : Value F → Option (List Text)
  | .null => some []
  | .str t => (t.split.map (Value.str : Text → Value F)).mapM normalizeScope
  | .list items => items.mapM normalizeScope
  | _ => none

/-- `_claim_set`. -/
def claimSet (value : Value F) (name : String) : Except Raised (Finset Text) :=
  match claimItems value with
  | none => .error (invalidClaim name)
  | some scopes => .ok scopes.toFinset

/-- The issuer and the audience that are expected. -/
def checkParties (v : HS256JWTVerifier) (payload : Fields F) : Except Raised Unit := do
  refuse (.token "The bearer token issuer is invalid.") (¬ (Value.field payload "iss").isStr v.issuer)
  let audiences ← audienceClaim (Value.field payload "aud")
  refuse (.token "The bearer token audience is invalid.") (∀ a ∈ v.audiences, a ∉ audiences)

/-- The claims of identity. -/
def identityOf (v : HS256JWTVerifier) (keyId : Text) (payload : Fields F) : Except Raised VerifiedToken := do
  let subject ← identifierClaim (Value.field payload "sub") "sub"
  let tenantId ← tenantIdClaim (Value.field payload "tenant_id")
  let scope ← claimSet (Value.field payload "scope") "scope"
  let scopes ← claimSet (Value.field payload "scopes") "scopes"
  let role ← claimSet (Value.field payload "role") "role"
  let roles ← claimSet (Value.field payload "roles") "roles"
  let actorType ← actorTypeClaim ((payload.get (Text.of "actor_type")).getD (.str (Text.of "service")))
  return { subject, tenantId, scopes := scope ∪ scopes, roles := role ∪ roles, actorType, issuer := v.issuer, keyId }

/-- `verify`, at a finite time. -/
def verify (v : HS256JWTVerifier) (token : Text) (timestamp : F) : Except Raised VerifiedToken := do
  let segments ← segmentsOf token
  let header ← decodeJsonObject loads segments.header
  let payload ← decodeJsonObject loads segments.payload
  checkHeader header
  let key ← selectKey v header
  checkSignature mac key.2 segments
  checkTimes v payload timestamp
  checkParties v payload
  identityOf v key.1 payload

end Verify

end AutomlApi.Tokens
