import LeaderLease.Text.Blank

/-!
# Backends

The two kinds of service that can keep a lease, and how a kind is named in configuration: blanks
around the name and the case of its letters do not matter.
-/

set_option autoImplicit false

namespace LeaderLease

inductive Backend where
  | memory
  | redis
deriving DecidableEq, Repr

namespace Backend

def name : Backend → String
  | .memory => "memory"
  | .redis => "redis"

/-- A backend by its name, or the name that no backend has. -/
def parse (text : String) : Except String Backend :=
  let lowered := Text.lowerAscii (Text.trimmed text)
  if lowered = "memory" then .ok .memory
  else if lowered = "redis" then .ok .redis
  else .error lowered

end Backend

/-- How to reach the service: the memory of this process, or a Redis server by its address. -/
inductive Connection where
  | memory
  | redis (url : String)
deriving DecidableEq, Repr

/-- The backend that a connection leads to. -/
def Connection.backend : Connection → Backend
  | .memory => .memory
  | .redis _ => .redis

end LeaderLease
