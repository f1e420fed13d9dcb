/-!
# Done signals

A signal that termination was handled, shared by all who hold it. Firing takes two steps: the flag
is set, and whoever set it first then notifies the waiters. `DoneSignal.Race` lets any number of
callers take their steps in any order.
-/

set_option autoImplicit false

namespace LeaderLease

structure DoneSignal where
  fired : Bool := false
  /-- Waiting ends. -/
  notified : Bool := false
deriving DecidableEq, Repr

namespace DoneSignal

/-- Sets the flag; true for the caller who sets it first. -/
def claim (d : DoneSignal) : Bool × DoneSignal := (!d.fired, { d with fired := true })

def notify (d : DoneSignal) : DoneSignal := { d with notified := true }

/-- Both steps at once. -/
def fire (d : DoneSignal) : Bool × DoneSignal :=
  let (first, d) := d.claim
  (first, if first then d.notify else d)

/-! ## Several callers -/

/-- Where a caller stands. -/
inductive Caller where
  | ready
  /-- Has set the flag first and is about to notify. -/
  | notifying
  | returned (first : Bool)
deriving DecidableEq, Repr

structure Race where
  signal : DoneSignal
  callers : List Caller
  /-- How often the waiters were notified. -/
  notifications : Nat
deriving DecidableEq, Repr

namespace Race

def start (callers : Nat) : Race := ⟨{}, List.replicate callers .ready, 0⟩

/-- The next step of one caller; nothing if there is none. -/
def step (r : Race) (caller : Nat) : Race :=
  match r.callers[caller]? with
  | some .ready =>
    let (first, signal) := r.signal.claim
    { r with
      signal, callers := r.callers.set caller (if first then .notifying else .returned false) }
  | some .notifying =>
    ⟨r.signal.notify, r.callers.set caller (.returned true), r.notifications + 1⟩
  | some (.returned _) | none => r

/-- The steps of callers in a given order. -/
def run (r : Race) (order : List Nat) : Race := order.foldl step r

/-- How many callers were told that they fired the signal. -/
def winners (r : Race) : Nat := r.callers.count (.returned true)

end Race

/-- How many of a number of concurrent callers win. -/
def race (d : DoneSignal) (callers : Nat) : Nat × DoneSignal :=
  let r := Race.run ⟨d, List.replicate callers .ready, 0⟩
    (List.range callers ++ List.range callers)
  (r.winners, r.signal)

end DoneSignal

end LeaderLease
