import LeaderLease.Json.Decoding
import LeaderLease.Settings.Configuration
import LeaderLease.Toml.Reader

/-!
# Configurations as documents

A configuration is read from TOML or from JSON. Either way a field that is missing has its default
and an unknown one is ignored, but a value of the wrong type is refused.
-/

set_option autoImplicit false

namespace LeaderLease

/-- The default if the field is missing, and otherwise what its reader makes of it. -/
def fieldOr {δ α : Type} (default : α) (read : δ → Option α) : Option δ → Option α
  | none => some default
  | some d => read d

namespace LeaderSection

def fieldNames : List String :=
  ["enabled", "instance_id", "ttl_secs", "namespace", "name", "lock_kind", "redis_url"]

/-- A section from its fields in order, given the readers of the types that occur in it. -/
def ofFields? {δ : Type} (bool : δ → Option Bool) (text : δ → Option String)
    (seconds : δ → Option Nat) (fields : List (Option δ)) : Option LeaderSection := do
  let [enabled, instanceId, ttlSeconds, ns, name, lockKind, redisUrl] := fields | none
  let usual : LeaderSection := {}
  some {
    enabled := ← fieldOr usual.enabled bool enabled
    instanceId := ← fieldOr usual.instanceId text instanceId
    ttlSeconds := ← fieldOr usual.ttlSeconds seconds ttlSeconds
    ns := ← fieldOr usual.ns text ns
    name := ← fieldOr usual.name text name
    lockKind := ← fieldOr usual.lockKind text lockKind
    redisUrl := ← fieldOr usual.redisUrl text redisUrl }

def ofToml? (t : Toml) : Option LeaderSection := do
  ofFields? Toml.toBool? Toml.toText?
    (fun t => t.toInt?.bind fun i => if 0 ≤ i then some i.toNat else none) (← t.fields fieldNames)

def ofJson? (j : Json) : Option LeaderSection := do
  ofFields? Json.toBool? Json.toString? (Json.toNatBelow? (Nat.pow 2 64))
    (← j.fields fieldNames false)

end LeaderSection

namespace Configuration

def fieldNames : List String := ["leader", "dev_mode"]

def ofFields? {δ : Type} (bool : δ → Option Bool) (leader : δ → Option LeaderSection)
    (fields : List (Option δ)) : Option Configuration := do
  let [leaderField, development] := fields | none
  some {
    leader := ← fieldOr {} leader leaderField
    development := ← fieldOr false bool development }

def ofToml? (t : Toml) : Option Configuration := do
  ofFields? Toml.toBool? LeaderSection.ofToml? (← t.fields fieldNames)

def ofJson? (j : Json) : Option Configuration := do
  ofFields? Json.toBool? LeaderSection.ofJson? (← j.fields fieldNames false)

end Configuration

end LeaderLease
