/-!
# Agendas

Which tasks are ready, and which wait for an instant. Ready tasks go in the order in which they were
woken, a task at most once; timers that are due at the same instant wake their tasks in the order in
which they were set. Every task has at most one timer. Instants are whole milliseconds.
-/

set_option autoImplicit false

namespace LeaderLease

/-- The tasks that belong to one participant of a scenario. -/
inductive Role where
  /-- Turns a trigger into a request to terminate. -/
  | listener
  | run
  | work
deriving DecidableEq, Repr

structure Task where
  participant : String
  role : Role
deriving DecidableEq, Repr

structure Agenda where
  ready : List Task := []
  timers : List (Nat × Task) := []

namespace Agenda

def wake (a : Agenda) (t : Task) : Agenda :=
  if a.ready.contains t then a else { a with ready := a.ready ++ [t] }

/-- The task whose turn it is. Those that `yields` holds of go after all others. -/
def next? (a : Agenda) (yields : Task → Bool) : Option (Task × Agenda) :=
  match (a.ready.find? fun t => !yields t) <|> a.ready.head? with
  | some t => some (t, { a with ready := a.ready.erase t })
  | none => none

def hasTimer (a : Agenda) (t : Task) : Bool := a.timers.any fun timer => timer.2 = t

def clearTimer (a : Agenda) (t : Task) : Agenda :=
  { a with timers := a.timers.filter fun timer => timer.2 ≠ t }

/-- Sets the timer of a task. A timer for the same instant keeps its place. -/
def setTimer (a : Agenda) (due : Nat) (t : Task) : Agenda :=
  if a.timers.contains (due, t) then a
  else { a with timers := (a.clearTimer t).timers ++ [(due, t)] }

/-- The earliest instant that a timer is set for. -/
def nextDue? (a : Agenda) : Option Nat := (a.timers.map (·.1)).min?

/-- Wakes the tasks whose timers are due, the earlier instants first. -/
def fire (a : Agenda) (now : Nat) : Agenda :=
  let due := (a.timers.filter fun timer => timer.1 ≤ now).mergeSort fun x y => x.1 ≤ y.1
  due.foldl (fun a timer => a.wake timer.2)
    { a with timers := a.timers.filter fun timer => ¬ timer.1 ≤ now }

end Agenda

end LeaderLease
