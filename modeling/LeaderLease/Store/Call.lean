import LeaderLease.Lease.Basic
import LeaderLease.Store.Error

/-!
# Calls on a lease store

The three calls that a competitor makes, and what comes back. A store answers one call at a time;
the check of the version in `update` is what lets at most one writer win.
-/

set_option autoImplicit false

namespace LeaderLease

/-- A call that changes the store. -/
inductive Write where
  | create (lease : Lease)
  | update (version : Nat) (lease : Lease)
deriving DecidableEq, Repr

def Write.lease : Write → Lease
  | .create l | .update _ l => l

inductive Call where
  | get
  | write (w : Write)
deriving DecidableEq, Repr

abbrev ReadAnswer : Type := Except StoreError (Option Entry)

abbrev WriteAnswer : Type := Except StoreError Entry

/-- What comes back from a call. -/
inductive Answer where
  | read (answer : ReadAnswer)
  | write (answer : WriteAnswer)

end LeaderLease
