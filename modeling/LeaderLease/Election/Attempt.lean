import LeaderLease.Election.Run
import LeaderLease.Store.Memory

/-!
# Uninterrupted attempts

`Run.attempt` is one attempt on the lease over a store in memory with nobody in between: the entry
is read, and written if the candidate decides so. `Run.mayTake` says when an attempt is going to
succeed.
-/

set_option autoImplicit false

namespace LeaderLease

/-- How an attempt went. -/
structure AttemptResult where
  succeeded : Bool
  run : Run
  effects : List Effect
  store : MemoryStore

namespace Run

/-- Reads and, if that leads to a write, writes. -/
def attempt (r : Run) (now : Instant) (store : MemoryStore) : AttemptResult :=
  let key := r.candidate.resource
  let (r, effects) := r.receiveRead now (.ok (store.get? key))
  match r.stage with
  | .writing _ w =>
    let (answer, store) := store.write key w
    let (r, more) := r.receiveWrite now answer
    ⟨answer.toBool, r, effects ++ more, store⟩
  | _ => ⟨false, r, effects, store⟩

/-- The lease is absent, released, ours, or has not changed for its whole duration. -/
def mayTake (r : Run) (now : Instant) : Option Entry → Prop
  | none => True
  | some e =>
    e.lease.holder = "" ∨ e.lease.holder = r.candidate.identity ∨
      r.sighting.standsSince now e.lease + e.lease.duration.nanos ≤ now

end Run

end LeaderLease
