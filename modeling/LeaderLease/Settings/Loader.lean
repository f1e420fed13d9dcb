import LeaderLease.Settings.Decoding
import LeaderLease.Settings.Environment

/-!
# Loading configurations

A configuration comes from one file, the first of several that exists, and from environment
variables that override its fields one by one. The result is validated. A file that exists but
cannot be read or decoded is an error; the next one is not tried.
-/

set_option autoImplicit false

namespace LeaderLease

structure Loader where
  /-- A file to try before all others. -/
  path : Option String := none
  /-- Try the standard places as well. -/
  searches : Bool := true
deriving DecidableEq, Repr

namespace Loader

/-- The variable with the path of a file. -/
def pathVariable : String := "SOLO_CONFIG"

def standardPaths : List String :=
  ["solo.toml", "config.toml", "./config/solo.toml", "/etc/solo/config.toml"]

/-- Only the given file and the one that the environment names. -/
def ofPath (path : String) : Loader := ⟨some path, false⟩

/-- The files to try, in order. -/
def candidates (l : Loader) (env : Environment) : List String :=
  l.path.toList ++ (env.text? pathVariable).toList ++ if l.searches then standardPaths else []

def findFile (l : Loader) (files : FileSystem) (env : Environment) : Option String :=
  (l.candidates env).find? files.has

end Loader

namespace Configuration

/-- The configuration in a file, neither overridden nor validated. -/
def ofFile (files : FileSystem) (path : String) : Except ConfigurationError Configuration :=
  match files.readText path with
  | .error cause => .error (.unreadable cause)
  | .ok source =>
    match (Toml.read source).bind ofToml? with
    | some c => .ok c
    | none => .error .malformed

/-- The text of a variable, or the value from the file. -/
def override (env : Environment) (name value : String) : String :=
  (env.text? name).getD value

/-- Each field is replaced by its own variable, if that is set to a text. Only `true` enables the
election; a lease time that is no number is passed over; the lock kind is put into lower case; any
text but the empty one selects development mode. -/
def overridden (c : Configuration) (env : Environment) : Configuration where
  leader := {
    enabled := match env.text? "SOLO_LEADER_ENABLED" with
      | some value => value = "true"
      | none => c.leader.enabled
    instanceId := override env "SOLO_LEADER_INSTANCE_ID" c.leader.instanceId
    ttlSeconds := match env.text? "SOLO_LEADER_TTL_SECS" with
      | some value => (Decimal.readUnsigned (Nat.pow 2 64) value.toList).getD c.leader.ttlSeconds
      | none => c.leader.ttlSeconds
    ns := override env "SOLO_LEADER_NAMESPACE" c.leader.ns
    name := override env "SOLO_LEADER_NAME" c.leader.name
    lockKind := match env.text? "SOLO_LEADER_LOCK_KIND" with
      | some value => Text.lowerAscii value
      | none => c.leader.lockKind
    redisUrl := override env "SOLO_LEADER_REDIS_URL" c.leader.redisUrl }
  development := match env.text? "SOLO_DEV_MODE" with
    | some value => value ≠ ""
    | none => c.development

end Configuration

namespace Loader

/-- The configuration before validation. -/
def layered (l : Loader) (files : FileSystem) (env : Environment) :
    Except ConfigurationError Configuration :=
  match l.findFile files env with
  | none => .ok (Configuration.overridden {} env)
  | some path => (Configuration.ofFile files path).map fun c => c.overridden env

def load (l : Loader) (files : FileSystem) (env : Environment) :
    Except ConfigurationError Configuration := do
  let c ← l.layered files env
  c.validate
  .ok c

end Loader

end LeaderLease
