import LeaderLease.Address.Url

/-!
# Addresses of Redis servers

`RedisAddress.read` turns a URL into an address: a host and port, or the path of a socket, and the
number of the database. Of several faults the first of these is reported: the URL itself, the place,
an encrypted scheme, the database, the username, the password, the protocol.
-/

set_option autoImplicit false

namespace LeaderLease

inductive AddressError where
  | unreadable
  | noHost
  | noPath
  /-- Encrypted connections are not available. -/
  | encrypted
  | database
  | username
  | password
  | protocol (name : String)
deriving DecidableEq, Repr

def AddressError.message : AddressError → String
  | .unreadable => "Redis URL did not parse- InvalidClientConfig"
  | .noHost => "Missing hostname- InvalidClientConfig"
  | .noPath => "Missing path- InvalidClientConfig"
  | .encrypted => "can't connect with TLS, the feature is not enabled- InvalidClientConfig"
  | .database => "Invalid database number- InvalidClientConfig"
  | .username => "Username is not valid UTF-8 string- InvalidClientConfig"
  | .password => "Password is not valid UTF-8 string- InvalidClientConfig"
  | .protocol name => "Invalid protocol version - InvalidClientConfig: " ++ name

inductive RedisPlace where
  | server (host : Host) (port : Nat)
  | socket (path : String)
deriving DecidableEq, Repr

structure RedisAddress where
  place : RedisPlace
  database : Int
deriving DecidableEq, Repr

namespace RedisAddress

def defaultPort : Nat := 6379

def serverSchemes : List String := ["redis", "rediss", "valkey", "valkeys"]

def encryptedSchemes : List String := ["rediss", "valkeys"]

def socketSchemes : List String := ["unix", "redis+unix", "valkey+unix"]

/-- Percent-encoding undone, if that gives a text. -/
def decoded? (s : String) : Option String := Text.ofBytes? (Text.percentDecode (Text.bytes s))

def trimSlashes (cs : List Char) : List Char :=
  ((cs.dropWhile (· = '/')).reverse.dropWhile (· = '/')).reverse

/-- A database number of 64 bits; the empty text means the first database. -/
def readDatabase (cs : List Char) : Except AddressError Int :=
  if cs = [] then .ok 0
  else
    match Decimal.readSigned 64 cs with
    | some n => .ok n
    | none => .error .database

/-- The protocol is the second or third version; nothing is kept of it. -/
def checkProtocol (u : Url) : Except AddressError Unit :=
  match u.parameter? "protocol" with
  | none => .ok ()
  | some name =>
    if ["2", "resp2", "3", "resp3"].contains name then .ok () else .error (.protocol name)

def ofServer (u : Url) : Except AddressError RedisAddress := do
  if u.host = .absent then throw .noHost
  if encryptedSchemes.contains u.scheme then throw .encrypted
  let database ← readDatabase (trimSlashes u.path)
  if (decoded? u.username).isNone then throw .username
  if ((u.password.map decoded?).getD (some "")).isNone then throw .password
  checkProtocol u
  return ⟨.server u.host (u.port.getD defaultPort), database⟩

def ofSocket (u : Url) : Except AddressError RedisAddress := do
  if u.path.head? ≠ some '/' ∨ (u.host ≠ .absent ∧ u.host ≠ .domain "localhost") then
    throw .noPath
  let database ← match u.parameter? "db" with
    | none => pure 0
    | some text => if text = "" then throw .database else readDatabase text.toList
  checkProtocol u
  return ⟨.socket (String.ofList u.path), database⟩

def read (text : String) : Except AddressError RedisAddress :=
  match Url.read text with
  | none => .error .unreadable
  | some u =>
    if serverSchemes.contains u.scheme then ofServer u
    else if socketSchemes.contains u.scheme then ofSocket u
    else .error .unreadable

end RedisAddress

end LeaderLease
