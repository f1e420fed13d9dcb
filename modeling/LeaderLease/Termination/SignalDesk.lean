/-!
# Signals of the process

`SignalDesk` counts the listeners for TERM and QUIT. Handlers are installed with the first listener
and stay for good; the default action, which ends the process, is armed again whenever the last
listener goes. Other signals always have their default action.
-/

set_option autoImplicit false

namespace LeaderLease

inductive Signal where
  | term
  | quit
  | int
  | hup
  | kill
deriving DecidableEq, Repr

namespace Signal

/-- The signals that ask for termination. -/
def isRequest : Signal → Bool
  | .term | .quit => true
  | _ => false

end Signal

structure SignalDesk where
  installed : Bool := false
  listeners : Nat := 0
  armed : Bool := false
deriving DecidableEq, Repr

namespace SignalDesk

/-- One more listener. -/
def claim (d : SignalDesk) : SignalDesk := ⟨true, d.listeners + 1, false⟩

/-- One listener less; the last one arms the default action. -/
def release (d : SignalDesk) : SignalDesk :=
  if d.installed then
    { d with listeners := d.listeners - 1, armed := d.armed || d.listeners - 1 = 0 }
  else d

/-- The signal ends the process. -/
def isFatal (d : SignalDesk) (s : Signal) : Bool := !s.isRequest || !d.installed || d.armed

end SignalDesk

end LeaderLease
