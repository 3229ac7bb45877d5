/-
  TypedClient.Source.Url

  Web addresses and their normal form: small letters for scheme and host, no number
  after the host that the scheme implies, no dot segments, and percent signs before what may not
  stand as it is.
-/
import TypedClient.Source.Address

namespace TypedClient.Source

/-- A web address in its parts. -/
structure Url where
  scheme : String
  user : String
  password : String
  host : String
  portNumber : Option Nat
  path : List String
  query : Option String
  fragment : Option String
  deriving DecidableEq, Repr

namespace Url

/-! ## Characters that are written with percent signs -/

/-- Control characters, and everything beyond ASCII. -/
def isSpecial (c : Char) : Bool := c.toNat < 32 || 126 < c.toNat

/-- Escaped in a fragment. -/
def inFragment (c : Char) : Bool := isSpecial c || " \"<>\x60".toList.contains c

/-- Escaped in a query. -/
def inQuery (c : Char) : Bool := isSpecial c || " \"#<>'".toList.contains c

/-- Escaped in a path. -/
def inPath (c : Char) : Bool := inFragment c || "#?^\x7b\x7d".toList.contains c

/-- Escaped in a user name and a password. -/
def inUserInfo (c : Char) : Bool := inPath c || "/:;=@[\\]|".toList.contains c

/-! ## Reading -/

/-- Does the character end the part of an address that names user and host? -/
def endsAuthority (c : Char) : Bool := c == '/' || c == '\\' || c == '?' || c == '#'

/-- The number after a host that its scheme implies. -/
def defaultPortNumber (scheme : String) : Nat := if scheme == "https" then 443 else 80

/-- Splits at the last `@`: what stands before it, if there is one, and the rest. -/
def splitUser (authority : List Char) : Option (List Char) × List Char :=
  match authority.reverse.span (· != '@') with
  | (_, []) => (none, authority)
  | (host, _ :: user) => (some user.reverse, host.reverse)

/-- Splits a host from what follows the first colon outside brackets. -/
def splitPortNumber (inside : Bool) : List Char → List Char × Option (List Char)
  | [] => ([], none)
  | c :: rest =>
    if c = ':' ∧ ¬inside then ([], some rest)
    else
      let inside := if c = '[' then true else if c = ']' then false else inside
      let (host, portNumber) := splitPortNumber inside rest
      (c :: host, portNumber)

/-- The number after a host, which digits name; no digits name none. -/
def portNumber? (digits : List Char) : Option (Option Nat) :=
  if digits.isEmpty then some none
  else if digits.all Char.isDigit then
    ((Text.numberIn? 10 digits).filter (· ≤ 65535)).map some
  else none

/-- Splits a path at its slashes, of either kind. -/
def splitPath : List Char → List (List Char)
  | [] => [[]]
  | c :: rest =>
    match splitPath rest with
    | [] => [[c]]
    | segment :: segments =>
      if c = '/' ∨ c = '\\' then [] :: segment :: segments else (c :: segment) :: segments

/-- Is the segment a single dot, in any spelling? -/
def isSingleDot (segment : String) : Bool :=
  let small := segment.map Char.toLower
  small == "." || small == "%2e"

/-- Is the segment two dots, in any spelling? -/
def isDoubleDot (segment : String) : Bool :=
  let small := segment.map Char.toLower
  small == ".." || small == "%2e." || small == ".%2e" || small == "%2e%2e"

/-- Appends segments to a path, leaving out dot segments; a final one leaves an empty segment. -/
def walkPath (path : List String) : List String → List String
  | [] => path
  | segment :: rest =>
    let isLast := rest.isEmpty
    if isDoubleDot segment then
      walkPath (path.dropLast ++ if isLast then [""] else []) rest
    else if isSingleDot segment then
      walkPath (path ++ if isLast then [""] else []) rest
    else walkPath (path ++ [segment]) rest

/-- The path of an address, given what follows the host. -/
def pathOf (text : List Char) : List String :=
  let text := match text with
    | c :: rest => if c = '/' ∨ c = '\\' then rest else c :: rest
    | [] => []
  walkPath [] ((splitPath text).map fun segment =>
    Text.percentEncode inPath (String.ofList segment))

/-- Drops spaces and control characters at both ends, and tabs and line ends everywhere. -/
def tidy (text : List Char) : List Char :=
  let isOuter (c : Char) : Bool := c.toNat ≤ 32
  let trimmed := ((text.dropWhile isOuter).reverse.dropWhile isOuter).reverse
  trimmed.filter fun c => c != '\t' && c != '\n' && c != '\r'

/-- Splits at the first character: what stands before it, and what follows it if it occurs. -/
def splitAtFirst (c : Char) (text : List Char) : List Char × Option (List Char) :=
  match text.span (· != c) with
  | (before, []) => (before, none)
  | (before, _ :: after) => (before, some after)

/-- Reads an address of the web; nothing when it is not one. -/
def parse? (text : String) : Option Url := do
  let (scheme, rest) := splitAtFirst ':' (tidy text.toList)
  let scheme := (String.ofList scheme).map Char.toLower
  -- Any number of slashes of either kind may stand before the host.
  let rest := (← rest).dropWhile fun c => c == '/' || c == '\\'
  let (authority, rest) := rest.span (!endsAuthority ·)
  let (userInfo, hostAndPort) := splitUser authority
  let (user, password) := splitAtFirst ':' (userInfo.getD [])
  let (host, portNumber) := splitPortNumber false hostAndPort
  let host ← if host.isEmpty then none else Address.host? (String.ofList host)
  let portNumber ← portNumber? (portNumber.getD [])
  let (rest, fragment) := splitAtFirst '#' rest
  let (path, query) := splitAtFirst '?' rest
  let encode (escape : Char → Bool) (chars : List Char) : String :=
    Text.percentEncode escape (String.ofList chars)
  if scheme == "http" || scheme == "https" then
    some {
      scheme := scheme
      user := encode inUserInfo user
      password := encode inUserInfo (password.getD [])
      host := host
      portNumber := portNumber.filter (· != defaultPortNumber scheme)
      path := pathOf path
      query := query.map (encode inQuery)
      fragment := fragment.map (encode inFragment) }
  else none

/-! ## Writing -/

/-- Text of the user and the password, with the sign that ends them. -/
def renderUser (url : Url) : String :=
  let password := if url.password.isEmpty then "" else ":" ++ url.password
  if url.user.isEmpty && url.password.isEmpty then "" else url.user ++ password ++ "@"

/-- Text of an address. -/
def render (url : Url) : String :=
  url.scheme ++ "://" ++ url.renderUser ++ url.host ++
    ((url.portNumber.map fun portNumber => ":" ++ toString portNumber).getD "") ++
    String.join (url.path.map ("/" ++ ·)) ++
    ((url.query.map ("?" ++ ·)).getD "") ++ ((url.fragment.map ("#" ++ ·)).getD "")

end Url

end TypedClient.Source
