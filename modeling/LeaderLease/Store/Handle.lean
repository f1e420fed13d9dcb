import LeaderLease.Address.Redis
import LeaderLease.Redis.Lock
import LeaderLease.Store.Memory

/-!
# Lock handles

A handle names one lease and the identity that competes for it. `openLock` builds a handle for a
backend over a connection; nothing is contacted, so only a connection of the wrong kind or a bad
address is refused.
-/

set_option autoImplicit false

namespace LeaderLease

inductive LockHandle where
  | memory (key identity : String)
  | redis (address : RedisAddress) (lock : Redis.Lock)

namespace LockHandle

def identity : LockHandle → String
  | .memory _ identity => identity
  | .redis _ lock => lock.identity

/-- Namespace and name of the lease. -/
def describe : LockHandle → String
  | .memory key _ => key
  | .redis _ lock => lock.describe

end LockHandle

/-- A handle on the lease `ns/name` whose calls take at most `limit`. -/
def openLock (backend : Backend) (ns name identity : String) (connection : Connection)
    (limit : Duration) : Except StoreError LockHandle :=
  match backend, connection with
  | .memory, .memory => .ok (.memory (leaseKey ns name) identity)
  | .redis, .redis url =>
    match RedisAddress.read url with
    | .ok address => .ok (.redis address ⟨ns, name, identity, limit⟩)
    | .error e => .error (.redis e.message)
  | backend, connection => .error (.incompatible backend connection.backend)

end LeaderLease
