import AutomlApi.Library.Addresses

/-! Texts cut into the parts of a URL, as `urlsplit` cuts them. -/

namespace AutomlApi.Urls

/-- What is taken from the tables of Unicode: the normal form NFKC and the small letters; and
how an error shows a text. -/
structure Tables where
  nfkc : List Char → List Char
  lower : List Char → List Char
  repr : List Char → String

/-! ### Cutting a text -/

/-- `partition`: what comes before a character, and what comes after it if it is there. -/
def cut (sep : Char) (cs : List Char) : List Char × Option (List Char) :=
  (cs.takeWhile (· ≠ sep), if sep ∈ cs then some (cs.dropWhile (· ≠ sep)).tail else none)

/-- `rpartition`: what comes before the last of a character, if it is there, and what comes after it. -/
def cutLast (sep : Char) (cs : List Char) : Option (List Char) × List Char :=
  ((cut sep cs.reverse).2.map List.reverse, (cut sep cs.reverse).1.reverse)

theorem cutLast_fst_eq_none {sep : Char} {cs : List Char} : (cutLast sep cs).1 = none ↔ sep ∉ cs := by
  simp [cutLast, cut]

/-! ### The location -/

/-- `_check_bracketed_host`. -/
def checkBracketedHost (tables : Tables) (host : List Char) : Except String Unit :=
  match host with
  | 'v' :: rest =>
    let version := rest.takeWhile fun c => (Quoted.hex? c).isSome
    match rest.drop version.length with
    | '.' :: address =>
      if version = [] ∨ address = [] ∨ '\n' ∈ address then .error "IPvFuture address is invalid" else .ok ()
    | _ => .error "IPvFuture address is invalid"
  | _ =>
    match Address.read host with
    | none => .error (tables.repr host ++ " does not appear to be an IPv4 or IPv6 address")
    | some address => if address.version = .v4 then .error "An IPv4 address cannot be in brackets" else .ok ()

/-- `_check_bracketed_netloc`. -/
def checkBracketedNetloc (tables : Tables) (netloc : List Char) : Except String Unit :=
  let info := (cutLast '@' netloc).2
  match cut '[' info with
  | (before, some bracketed) =>
    let port := (cut ']' bracketed).2.getD []
    if before ≠ [] ∨ port ≠ [] ∧ port.head? ≠ some ':' then .error "Invalid IPv6 URL"
    else checkBracketedHost tables (cut ']' bracketed).1
  | (_, none) => checkBracketedHost tables (cut ':' info).1

/-- `_checknetloc`: no character becomes one that ends a part of the URL. -/
def checkNetloc (tables : Tables) (netloc : List Char) : Except String Unit :=
  if netloc.all (·.toNat < 128) then .ok ()
  else
    let kept := netloc.filter (· ∉ ['@', ':', '#', '?'])
    if kept = tables.nfkc kept ∨ ['/', '?', '#', '@', ':'].all (· ∉ tables.nfkc kept) then .ok ()
    else .error ("netloc '" ++ String.ofList netloc ++ "' contains invalid characters under NFKC normalization")

/-! ### The parts -/

structure SplitResult where
  scheme : List Char
  netloc : List Char
  path : List Char
  query : List Char
  fragment : List Char
  deriving DecidableEq

def schemeChar (c : Char) : Bool := c.isAlpha || c.isDigit || c ∈ ['+', '-', '.']

/-- The scheme of a URL, in small letters, and what follows it. -/
def splitScheme (url : List Char) : List Char × List Char :=
  match cut ':' url with
  | (scheme, some rest) =>
    if scheme.head?.any Char.isAlpha ∧ scheme.all schemeChar then (scheme.map Char.toLower, rest) else ([], url)
  | (_, none) => ([], url)

/-- `_splitnetloc`, where there is a location. -/
def splitNetloc : List Char → List Char × List Char
  | '/' :: '/' :: rest =>
    let netloc := rest.takeWhile (· ∉ ['/', '?', '#'])
    (netloc, rest.drop netloc.length)
  | url => ([], url)

/-- `urlsplit`, or the text of its `ValueError`. -/
def urlsplit (tables : Tables) (url : List Char) : Except String SplitResult :=
  let url := (url.dropWhile (·.toNat ≤ 0x20)).filter (· ∉ ['\t', '\r', '\n'])
  let (scheme, url) := splitScheme url
  let (netloc, url) := splitNetloc url
  if decide ('[' ∈ netloc) ≠ decide (']' ∈ netloc) then .error "Invalid IPv6 URL"
  else do
    if '[' ∈ netloc then checkBracketedNetloc tables netloc
    let (url, fragment) := cut '#' url
    let (path, query) := cut '?' url
    checkNetloc tables netloc
    return ⟨scheme, netloc, path, query.getD [], fragment.getD []⟩

namespace SplitResult

variable (parsed : SplitResult)

/-- `_userinfo`: the name and the password. -/
def userinfo : Option (List Char × Option (List Char)) := (cutLast '@' parsed.netloc).1.map (cut ':')

/-- `_hostinfo`: the name of the host and the text of the port. -/
def hostinfo : List Char × Option (List Char) :=
  let info := (cutLast '@' parsed.netloc).2
  let (host, port) :=
    match cut '[' info with
    | (_, some bracketed) => ((cut ']' bracketed).1, (cut ':' ((cut ']' bracketed).2.getD [])).2.getD [])
    | (_, none) => ((cut ':' info).1, (cut ':' info).2.getD [])
  (host, if port = [] then none else some port)

/-- `hostname`. The zone of an address keeps its letters. -/
def hostname (tables : Tables) : Option (List Char) :=
  let host := parsed.hostinfo.1
  if host = [] then none
  else
    match cut '%' host with
    | (name, some zone) => some (tables.lower name ++ '%' :: zone)
    | (name, none) => some (tables.lower name)

/-- `port`, or the text of its `ValueError`. -/
def port (tables : Tables) : Except String (Option ℕ) :=
  match parsed.hostinfo.2 with
  | none => .ok none
  | some text =>
    if ¬ text.all Char.isDigit then .error ("Port could not be cast to integer value as " ++ tables.repr text)
    else
      let number := Nat.ofDigitChars 10 text 0
      if 65535 < number then .error "Port out of range 0-65535" else .ok (some number)

theorem userinfo_eq_none : parsed.userinfo = none ↔ '@' ∉ parsed.netloc := by
  simp [userinfo, cutLast_fst_eq_none]

end SplitResult

end AutomlApi.Urls
