import LeaderLease.Data.Table
import LeaderLease.Redis.Script

/-!
# A Redis server

The part of a server that a lease lock uses: keys with values of arbitrary bytes, and whether the
lock's script has been loaded. Every command runs as one step, and a command that is answered with
an error has no effect. What the script makes of values that are not JSON is part of the server, and
whatever is said of all servers holds for every way to read them.
-/

set_option autoImplicit false

namespace LeaderLease

namespace Redis

structure Server where
  data : Table String (List UInt8) := Table.empty
  /-- The script is known to the server. -/
  loaded : Bool := false
  /-- How the script compares the version in a value that is not JSON with the expected one. -/
  foreign : List UInt8 → Nat → Except String Bool := fun _ _ =>
    .error "the stored value is not JSON"

inductive Command where
  | get (key : String)
  /-- Sets a key that does not exist. -/
  | setIfAbsent (key : String) (value : List UInt8)
  | loadScript
  /-- Runs the loaded script on a key, with a version and a new value. -/
  | runScript (key : String) (version : Nat) (value : List UInt8)
deriving DecidableEq, Repr

inductive Reply where
  | absent
  | ok
  | value (bytes : List UInt8)
  | integer (i : Int)
  /-- The script is not known. -/
  | noScript
  | error (text : String)
deriving DecidableEq, Repr

namespace Server

/-- Whether the script finds the expected version in a stored value, or fails. -/
def compare (s : Server) (stored : List UInt8) (expected : Nat) : Except String Bool :=
  if Script.isJson stored then Script.compare stored expected else s.foreign stored expected

/-- The reply of a script that stores `value` if the version matches. -/
def swap (s : Server) (key : String) (version : Nat) (value : List UInt8) : Reply × Server :=
  match s.data.get? key with
  | none => (.integer (-1), s)
  | some current =>
    match s.compare current version with
    | .error text => (.error text, s)
    | .ok false => (.integer 0, s)
    | .ok true => (.integer 1, { s with data := s.data.put key value })

def run (s : Server) : Command → Reply × Server
  | .get key =>
    match s.data.get? key with
    | some bytes => (.value bytes, s)
    | none => (.absent, s)
  | .setIfAbsent key value =>
    if s.data.contains key then (.absent, s) else (.ok, { s with data := s.data.put key value })
  | .loadScript => (.ok, { s with loaded := true })
  | .runScript key version value =>
    if s.loaded then s.swap key version value else (.noScript, s)

end Server

end Redis

end LeaderLease
