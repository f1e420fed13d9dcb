import LeaderLease.Files.System
import LeaderLease.Text.Blank

/-!
# Configurations

What can be configured about a process that leads, and what is refused: an election without a name
or over an unknown backend. A disabled election is never refused.
-/

set_option autoImplicit false

namespace LeaderLease

structure LeaderSection where
  /-- Otherwise the leader work runs without an election. -/
  enabled : Bool := false
  /-- The identity among competitors; one is made up if this is empty. -/
  instanceId : String := ""
  /-- The lease time; zero selects the usual one. -/
  ttlSeconds : Nat := 0
  ns : String := ""
  name : String := "solo-leader"
  lockKind : String := "redis"
  redisUrl : String := "redis://127.0.0.1:6379"
deriving DecidableEq, Repr

structure Configuration where
  leader : LeaderSection := {}
  /-- Development mode, with its long lease time. -/
  development : Bool := false
deriving DecidableEq, Repr

inductive ConfigurationError where
  | unreadable (cause : FileError)
  /-- The text is not TOML, or its values do not have the right types. -/
  | malformed
  | emptyName
  | unknownLockKind (name : String)
deriving DecidableEq, Repr

def ConfigurationError.message : ConfigurationError → String
  | .unreadable cause => "Failed to read config file: " ++ cause.message
  | .malformed => "Failed to parse TOML"
  | .emptyName => "Invalid configuration: leader.name must not be empty"
  | .unknownLockKind name =>
    "Invalid configuration: unknown leader.lock_kind '" ++ name ++ "', expected redis or memory"

namespace Configuration

/-- Refuses what an election cannot start with. A name of blanks counts as empty; the backend has to
be spelled exactly. -/
def validate (c : Configuration) : Except ConfigurationError Unit :=
  if c.leader.enabled then
    if Text.trim c.leader.name.toList = [] then .error .emptyName
    else if c.leader.lockKind = "redis" ∨ c.leader.lockKind = "memory" then .ok ()
    else .error (.unknownLockKind c.leader.lockKind)
  else .ok ()

/-- A document that states every default and says what it means. -/
def exampleText : String :=
  "# Solo Configuration\n" ++
  "# Environment variables override these settings\n" ++
  "\n" ++
  "dev_mode = false\n" ++
  "\n" ++
  "[leader]\n" ++
  "enabled = true\n" ++
  "instance_id = \"\"        # generated when empty\n" ++
  "ttl_secs = 0            # 0 = 60s, or 1h in dev mode\n" ++
  "namespace = \"\"          # defaults to solo-system\n" ++
  "name = \"solo-leader\"\n" ++
  "lock_kind = \"redis\"     # redis or memory\n" ++
  "redis_url = \"redis://127.0.0.1:6379\"\n"

end Configuration

end LeaderLease
