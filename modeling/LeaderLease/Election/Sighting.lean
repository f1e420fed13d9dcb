import LeaderLease.Election.Candidate
import LeaderLease.Store.Call

/-!
# What a candidate has seen

A `Sighting` is a candidate's memory of the lease: the entry it saw last, the instant since which
the lease in it has not changed, and the holder that it reported last. Whether a foreign lease has
run out is judged by that instant alone; the times written in the lease play no part.
-/

set_option autoImplicit false

namespace LeaderLease

structure Sighting where
  seen : Option Entry
  since : Instant
  /-- Empty before the first report and for a released lease. -/
  reported : String
deriving DecidableEq, Repr

namespace Sighting

/-- Nothing seen yet. -/
def start (now : Instant) : Sighting := ⟨none, now, ""⟩

/-- Remembers an entry; the instant moves only if the lease differs from the one seen before. -/
def observe (s : Sighting) (now : Instant) (e : Entry) : Sighting :=
  ⟨some e, if s.seen.map (·.lease) = some e.lease then s.since else now, e.lease.holder⟩

/-- Since when a lease has stood for one who finds it at `now`: if it is the lease seen last, since
the instant that was remembered with that, and otherwise since now. -/
def standsSince (s : Sighting) (now : Instant) (found : Lease) : Instant :=
  match s.seen with
  | some last => if last.lease = found then s.since else now
  | none => now

/-- The holder to report on seeing an entry, if it is not the one reported last. -/
def news (s : Sighting) (e : Entry) : Option String :=
  if e.lease.holder = s.reported then none else some e.lease.holder

/-- The last lease seen names this identity. -/
def isLeader (s : Sighting) (identity : String) : Bool :=
  match s.seen with
  | some e => e.lease.isHeldBy identity
  | none => false

end Sighting

/-- What a candidate does with the entry it has just read and remembered. -/
inductive Decision where
  /-- Another identity holds the lease, and it has not run out. -/
  | wait
  | write (w : Write)
  /-- An instant or a count left its range. -/
  | overflow
deriving DecidableEq, Repr

namespace Candidate

/-- A lease on a name that has none: this candidate's first term. -/
def firstLease (c : Candidate) (wall : Timestamp) : Lease :=
  ⟨c.identity, c.ttl, wall, wall, 0⟩

/-- The lease renewed by its holder: only the time of renewal and the duration are new. -/
def renewedLease (c : Candidate) (wall : Timestamp) (held : Lease) : Lease :=
  ⟨c.identity, c.ttl, held.acquired, wall, held.transitions⟩

/-- The lease taken over from a released or expired one. -/
def takenLease (c : Candidate) (wall : Timestamp) (transitions : Nat) : Lease :=
  ⟨c.identity, c.ttl, wall, wall, transitions⟩

/-- The lease handed back: nobody holds it, and it runs out after a second. -/
def releasedLease (wall : Timestamp) (transitions : Nat) : Lease :=
  ⟨"", .ofSeconds 1, wall, wall, transitions⟩

/-- Renews an own lease and takes over a free one. -/
def claim (c : Candidate) (wall : Timestamp) (e : Entry) : Decision :=
  if e.lease.isHeldBy c.identity then .write (.update e.version (c.renewedLease wall e.lease))
  else
    match e.lease.nextTransitions? with
    | some n => .write (.update e.version (c.takenLease wall n))
    | none => .overflow

/-- Decides about an entry seen at `now` whose lease has not changed since `since`. A foreign lease
is free when its duration has passed since then. -/
def decide (c : Candidate) (since now : Instant) (wall : Timestamp) (e : Entry) : Decision :=
  if e.lease.isHeld && e.lease.holder ≠ c.identity then
    match Instant.after? since e.lease.duration with
    | none => .overflow
    | some expiry => if now < expiry then .wait else c.claim wall e
  else c.claim wall e

end Candidate

end LeaderLease
