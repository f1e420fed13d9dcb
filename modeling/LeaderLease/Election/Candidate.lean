import LeaderLease.Lease.Basic
import LeaderLease.Time.Instant

/-!
# Candidates and their timers

A `Candidate` is one identity competing for one lease. It tries again every retry period, and it
gives up leading when no renewal has succeeded for half the lease time. A `Ticker` is due at an
instant; a tick taken late by more than `Ticker.slack` moves the later ones.
-/

set_option autoImplicit false

namespace LeaderLease

structure Candidate where
  identity : String
  /-- The key of the lease, which is also its name for people. -/
  resource : String
  ttl : Duration
  retryPeriod : Duration
deriving DecidableEq, Repr

/-- How long renewals may fail before leading ends. -/
def Candidate.renewDeadline (c : Candidate) : Duration := c.ttl.half

structure Ticker where
  due : Instant
  period : Duration
deriving DecidableEq, Repr

namespace Ticker

/-- A tick taken at most this late leaves the rhythm as it is. -/
def slack : Duration := .ofMillis 5

def isDue (t : Ticker) (now : Instant) : Bool := t.due ≤ now

/-- The ticker after its tick is taken at `now`. -/
def taken (t : Ticker) (now : Instant) : Ticker :=
  if t.due + slack.nanos < now then ⟨now + t.period.nanos, t.period⟩
  else ⟨t.due + t.period.nanos, t.period⟩

/-- A ticker that is due at once. -/
def immediate (now : Instant) (period : Duration) : Ticker := ⟨now, period⟩

/-- A ticker that is due one period from now, if the clock can show that instant. -/
def delayed? (now : Instant) (period : Duration) : Option Ticker :=
  (Instant.after? now period).map fun due => ⟨due, period⟩

/-- A tick taken on time makes the next one due one period later. -/
theorem due_taken_of_onTime (t : Ticker) (now : Instant) (h : t.due = now) :
    (t.taken now).due = now + t.period.nanos := by
  have onTime : ¬ t.due + slack.nanos < now := by
    rw [h]
    exact Nat.not_lt.mpr (Nat.le_add_right _ _)
  rw [taken, if_neg onTime, h]

end Ticker

end LeaderLease
