import LeaderLease.Time.Duration

/-!
# Instants of a monotonic clock

An instant is the number of nanoseconds since the clock's origin. A clock counts seconds in 63 bits:
`Instant.after?` is the instant a duration later, if the clock can show it.
-/

set_option autoImplicit false

namespace LeaderLease

abbrev Instant : Type := Nat

namespace Instant

/-- The first instant that the clock cannot show. -/
def limit : Nat := Nat.pow 2 63 * Duration.perSecond

def after? (t : Instant) (d : Duration) : Option Instant :=
  if t + d.nanos < limit then some (t + d.nanos) else none

def ofMillis (millis : Nat) : Instant := millis * Duration.perMilli

/-- The first whole millisecond at or after an instant. -/
def ceilMillis (t : Instant) : Nat := (t + Duration.perMilli - 1) / Duration.perMilli

theorem after?_eq_some {t : Instant} {d : Duration} {u : Instant} (h : after? t d = some u) :
    u = t + d.nanos := by
  unfold after? at h
  split at h
  · exact (Option.some.inj h).symm
  · cases h

end Instant

end LeaderLease
