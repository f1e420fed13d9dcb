import LeaderLease.Store.Backend
import LeaderLease.Time.Duration

/-!
# Errors of lease stores
-/

set_option autoImplicit false

namespace LeaderLease

inductive StoreError where
  /-- A write for a version lost against another writer. -/
  | conflict (lease : String)
  | alreadyExists (lease : String)
  | notFound (lease : String)
  /-- The backend cannot be reached over this kind of connection. -/
  | incompatible (backend connection : Backend)
  /-- The Redis address was refused, or the server answered with an error. -/
  | redis (detail : String)
  /-- The stored text is not a lease. -/
  | malformed
  | timedOut (limit : Duration)
  /-- The version counter has no next value. The caller does not survive this. -/
  | exhausted
deriving DecidableEq, Repr

def StoreError.message : StoreError → String
  | .conflict lease => "lease " ++ lease ++ " was modified concurrently"
  | .alreadyExists lease => "lease " ++ lease ++ " already exists"
  | .notFound lease => "lease " ++ lease ++ " not found"
  | .incompatible backend connection =>
    "lock kind " ++ backend.name ++ " cannot use a " ++ connection.name ++ " connection"
  | .redis detail => "Redis operation error: " ++ detail
  | .malformed => "Lease record encoding error"
  | .timedOut limit => "Lease backend call timed out after " ++ limit.text
  | .exhausted => "attempt to add with overflow"

end LeaderLease
