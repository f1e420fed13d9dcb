import LeaderLease.Store.Error

/-!
# Errors of starting an election
-/

set_option autoImplicit false

namespace LeaderLease

inductive ElectionError where
  | zeroTtl
  | emptyIdentity
  | unknownBackend (name : String)
  | lockSetup (name : String) (cause : StoreError)
  /-- The leader work failed, where it runs without an election. -/
  | workFailed (message : String)
deriving DecidableEq, Repr

def ElectionError.message : ElectionError → String
  | .zeroTtl => "Invalid election configuration: lease ttl must be greater than zero"
  | .emptyIdentity => "Invalid election configuration: election identity must not be empty"
  | .unknownBackend name =>
    "Invalid election configuration: unknown lock kind '" ++ name ++ "'"
  | .lockSetup name cause =>
    "failed to start leader election for " ++ name ++ ": " ++ cause.message
  | .workFailed message => "leader callback failed: " ++ message

end LeaderLease
