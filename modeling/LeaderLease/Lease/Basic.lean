import LeaderLease.Time.Duration
import LeaderLease.Time.Timestamp

/-!
# Leases

A `Lease` says who holds a name and for how long; an empty holder means that the lease was released.
An `Entry` is a lease together with the version under which a store keeps it. Versions have 64 bits
and the count of transitions has 32, and neither wraps: `next?` is missing at the end of the range.
-/

set_option autoImplicit false

namespace LeaderLease

structure Lease where
  /-- Empty when the lease has been released. -/
  holder : String
  duration : Duration
  acquired : Timestamp
  renewed : Timestamp
  /-- How often the lease went from one term to the next. -/
  transitions : Nat
deriving DecidableEq, Repr

namespace Lease

def transitionLimit : Nat := Nat.pow 2 32

def isHeld (l : Lease) : Bool := l.holder ≠ ""

def isHeldBy (l : Lease) (identity : String) : Bool := l.isHeld && l.holder = identity

/-- The count of transitions after a takeover, if there is one. -/
def nextTransitions? (l : Lease) : Option Nat :=
  if l.transitions + 1 < transitionLimit then some (l.transitions + 1) else none

/-- What a store can write and read back. -/
def WellFormed (l : Lease) : Prop :=
  l.duration.nanos < Duration.limit ∧ l.acquired.Valid ∧ l.renewed.Valid ∧
    l.transitions < transitionLimit

instance (l : Lease) : Decidable l.WellFormed := inferInstanceAs (Decidable (_ ∧ _ ∧ _ ∧ _))

theorem isHeldBy_iff (l : Lease) (identity : String) :
    l.isHeldBy identity = true ↔ l.holder = identity ∧ identity ≠ "" := by
  simp only [isHeldBy, isHeld, Bool.and_eq_true, decide_eq_true_eq]
  constructor
  · rintro ⟨held, rfl⟩; exact ⟨rfl, held⟩
  · rintro ⟨rfl, held⟩; exact ⟨held, rfl⟩

end Lease

structure Entry where
  version : Nat
  lease : Lease
deriving DecidableEq, Repr

namespace Entry

def versionLimit : Nat := Nat.pow 2 64

/-- The version that follows, if there is one. -/
def nextVersion? (version : Nat) : Option Nat :=
  if version + 1 < versionLimit then some (version + 1) else none

def WellFormed (e : Entry) : Prop := e.version < versionLimit ∧ e.lease.WellFormed

end Entry

end LeaderLease
