import LeaderLease.Address.Ipv6
import LeaderLease.Text.Utf8

/-!
# Generic URLs

`Url.read` takes a URL apart: scheme, authority, path and query. Schemes with rules of their own, as
`http` and `file`, are not read. Tabs and line ends are skipped wherever they stand, and controls
and spaces around the URL are dropped.
-/

set_option autoImplicit false

namespace LeaderLease

inductive Host where
  /-- There is no host, or it is empty. -/
  | absent
  | domain (name : String)
  | ipv6 (text : String)
deriving DecidableEq, Repr

structure Url where
  scheme : String
  /-- As written, percent-encoding included. -/
  username : String
  password : Option String
  host : Host
  port : Option Nat
  /-- Starts with a slash unless the URL has no hierarchy or the path is empty. -/
  path : List Char
  query : List Char
deriving Repr

namespace Url

/-- Schemes that have rules of their own. -/
def specialSchemes : List String := ["http", "https", "ws", "wss", "ftp", "file"]

def isControlOrSpace (c : Char) : Bool := c.toNat ≤ 0x20

/-- Drops what may stand around a URL and what is skipped inside it. -/
def clean (cs : List Char) : List Char :=
  let inner := ((cs.dropWhile isControlOrSpace).reverse.dropWhile isControlOrSpace).reverse
  inner.filter fun c => !(c = '\t' || c = '\n' || c = '\r')

/-- A letter, then letters, digits, plus, minus and point, up to a colon. -/
def readScheme (cs : List Char) : Option (String × List Char) :=
  let name := cs.takeWhile fun c => c.isAlphanum || c = '+' || c = '-' || c = '.'
  match cs.drop name.length with
  | ':' :: rest =>
    if (name.head?.map Char.isAlpha) = some true then
      some (String.ofList (name.map Char.toLower), rest)
    else none
  | _ => none

def endsAuthority (c : Char) : Bool := c = '/' || c = '?' || c = '#'

/-- The text before and after the last `@`. -/
def splitLastAt (cs : List Char) : Option (List Char × List Char) :=
  let after := (cs.reverse.takeWhile (· ≠ '@')).reverse
  if after.length = cs.length then none else some (cs.take (cs.length - after.length - 1), after)

/-- Username and password before the last `@`; a password needs a colon and is not empty. -/
def readUserinfo (cs : List Char) : String × Option String :=
  let name := cs.takeWhile (· ≠ ':')
  match cs.drop name.length with
  | _ :: c :: rest => (String.ofList name, some (String.ofList (c :: rest)))
  | _ => (String.ofList name, none)

/-- The host up to a colon outside brackets, and what follows. -/
def splitHost (inBrackets : Bool) : List Char → List Char × List Char
  | [] => ([], [])
  | c :: cs =>
    if c = ':' && !inBrackets then ([], c :: cs)
    else
      let inside := if c = '[' then true else if c = ']' then false else inBrackets
      let (host, rest) := splitHost inside cs
      (c :: host, rest)

/-- Characters that no host name contains. -/
def forbiddenInHost : List Char :=
  ['\x00', '\t', '\n', '\r', ' ', '#', '/', ':', '<', '>', '?', '@', '[', '\\', ']', '^', '|']

def readHost : List Char → Option Host
  | [] => some .absent
  | '[' :: cs =>
    if cs.getLast? = some ']' ∧ Ipv6.isAddress cs.dropLast then
      some (.ipv6 (String.ofList cs.dropLast))
    else none
  | cs => if cs.any forbiddenInHost.contains then none else some (.domain (String.ofList cs))

/-- A port of up to 16 bits before the path, which a backslash may also start; it may be empty. -/
def readPort (cs : List Char) : Option (Option Nat × List Char) :=
  let ds := cs.takeWhile Char.isDigit
  let rest := cs.drop ds.length
  if (rest = [] ∨ rest.head? = some '\\') ∧ Decimal.value ds < Nat.pow 2 16 then
    some (if ds = [] then none else some (Decimal.value ds), rest)
  else none

def isSingleDot (cs : List Char) : Bool :=
  [".", "%2e"].contains (String.ofList (cs.map Char.toLower))

def isDoubleDot (cs : List Char) : Bool :=
  ["..", ".%2e", "%2e.", "%2e%2e"].contains (String.ofList (cs.map Char.toLower))

/-- A letter and a colon or bar: such a segment is not climbed over. -/
def isDriveLetter : List Char → Bool
  | [c, d] => c.isAlpha && (d = ':' || d = '|')
  | _ => false

/-- Resolves dot segments; the segments done so far stand in reverse. -/
def resolve (done : List (List Char)) : List (List Char) → List (List Char)
  | [] => done.reverse
  | segment :: rest =>
    let next :=
      if isDoubleDot segment then
        match done with
        | last :: before => if isDriveLetter last then done else before
        | [] => []
      else if isSingleDot segment then done
      else segment :: done
    match rest with
    | [] => (if isDoubleDot segment || isSingleDot segment then [] :: next else next).reverse
    | _ => resolve next rest

/-- The path behind an authority; its first slash may be missing. -/
def readPath (cs : List Char) : List Char :=
  match cs with
  | [] => []
  | '/' :: cs => (resolve [] (cs.splitOn '/')).flatMap ('/' :: ·)
  | cs => (resolve [] (cs.splitOn '/')).flatMap ('/' :: ·)

/-- A URL after its scheme and the two slashes of an authority. -/
def readAuthority (scheme : String) (cs : List Char) : Option Url := do
  let authority := cs.takeWhile fun c => !endsAuthority c
  let behind := cs.drop authority.length
  let path := behind.takeWhile fun c => !(c = '?' || c = '#')
  let query := (behind.drop path.length).takeWhile (· ≠ '#') |>.drop 1
  let (userinfo, server) := (splitLastAt authority).getD ([], authority)
  let (username, password) := readUserinfo userinfo
  if authority.head? = some '@' ∧ userinfo = [] ∧ server = [] ∧ behind ≠ [] then none
  else
    let (hostText, rest) := splitHost false server
    let host ← readHost hostText
    if host = .absent ∧ (rest ≠ [] ∨ username ≠ "" ∨ password ≠ none) then none
    else
      let (port, rest) ← match rest with
        | ':' :: rest => readPort rest
        | rest => some (none, rest)
      some ⟨scheme, username, password, host, port, readPath (rest ++ path), query⟩

def read (text : String) : Option Url := do
  let (scheme, rest) ← readScheme (clean text.toList)
  if specialSchemes.contains scheme then none
  else
    match rest with
    | '/' :: '/' :: rest => readAuthority scheme rest
    | rest =>
      let path := rest.takeWhile fun c => !(c = '?' || c = '#')
      let query := (rest.drop path.length).takeWhile (· ≠ '#') |>.drop 1
      some ⟨scheme, "", none, .absent, none,
        if path.head? = some '/' then readPath path else path, query⟩

/-- One name or value of a query: a plus is a space, then percent-encoding is undone. -/
def decodeComponent (cs : List Char) : String :=
  let spaced := String.ofList (cs.map fun c => if c = '+' then ' ' else c)
  Text.lossy (Text.percentDecode (Text.bytes spaced))

/-- The last value of a name in the query. -/
def parameter? (u : Url) (name : String) : Option String :=
  let pairs := (u.query.splitOn '&').filter (· ≠ []) |>.map fun pair =>
    let key := pair.takeWhile (· ≠ '=')
    (decodeComponent key, decodeComponent (pair.drop (key.length + 1)))
  (pairs.reverse.find? fun pair => pair.1 = name).map (·.2)

end Url

end LeaderLease
