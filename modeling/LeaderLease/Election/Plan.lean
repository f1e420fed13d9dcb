import LeaderLease.Election.Settings
import LeaderLease.Settings.Configuration

/-!
# From a configuration to an election

`Configuration.election` gives the settings of the election that a configuration asks for, if it
asks for one, and `Configuration.identity` the identity to run it with.
-/

set_option autoImplicit false

namespace LeaderLease

namespace Configuration

/-- A connection for a backend; the address matters only for Redis. -/
def connection (c : Configuration) : Backend → Connection
  | .memory => .memory
  | .redis => .redis c.leader.redisUrl

/-- The settings for a backend. A lease time of zero selects the usual one, which is the longer one
if either the configuration or the environment asks for development mode. -/
def settingsFor (c : Configuration) (env : Environment) (backend : Backend) : ElectionSettings :=
  if c.leader.ttlSeconds = 0 then
    let usual := ElectionSettings.ofEnvironment c.leader.ns c.leader.name (c.connection backend) env
    if c.development then { usual with ttl := ElectionSettings.developmentTtl } else usual
  else
    { ttl := .ofSeconds c.leader.ttlSeconds
      ns := c.leader.ns
      name := c.leader.name
      backend
      connection := c.connection backend }

/-- The election to run, or nothing if it is disabled. -/
def election (c : Configuration) (env : Environment) :
    Except ElectionError (Option ElectionSettings) :=
  if c.leader.enabled then
    match Backend.parse c.leader.lockKind with
    | .ok backend => .ok (some (c.settingsFor env backend))
    | .error name => .error (.unknownBackend name)
  else .ok none

/-- The configured identity, or the generated one if none is configured. -/
def identity (c : Configuration) (generated : String) : String :=
  if c.leader.instanceId = "" then generated else c.leader.instanceId

end Configuration

end LeaderLease
