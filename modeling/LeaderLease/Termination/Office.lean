import LeaderLease.Data.Table
import LeaderLease.Termination.DoneSignal
import LeaderLease.Termination.Listener
import LeaderLease.Termination.SignalDesk

/-!
# Listeners of a process

`Office` holds the tokens, listeners and done signals of one process by name, with its clock and its
signal desk. A listener for signals is counted at the desk from its start until it is stopped or
dropped, whichever comes first. `Office.rest` lets the tasks of all listeners run until nothing
changes.
-/

set_option autoImplicit false

namespace LeaderLease

structure Office where
  clock : Nat := 0
  tokens : Tokens := {}
  desk : SignalDesk := {}
  named : Table String Token := Table.empty
  listeners : Table String Listener := Table.empty
  /-- A name and its clones share one signal, found by its number. -/
  doneNames : Table String Nat := Table.empty
  dones : List DoneSignal := []

namespace Office

/-! ## Tokens -/

def addRoot (o : Office) (name : String) : Office :=
  let (t, tokens) := o.tokens.root
  { o with tokens, named := o.named.put name t }

def addChild (o : Office) (name : String) (parent : Token) : Office :=
  let (t, tokens) := o.tokens.child parent
  { o with tokens, named := o.named.put name t }

def cancel (o : Office) (name : String) : Office :=
  match o.named.get? name with
  | some t => { o with tokens := o.tokens.cancel t }
  | none => o

/-! ## Listeners -/

/-- Takes a listener off the desk if it still listens for signals. -/
def dismiss (o : Office) (l : Listener) : Office :=
  if l.listening && l.trigger = .signals then { o with desk := o.desk.release } else o

/-- Starts a listener; one that had the name before is dropped. -/
def listen (o : Office) (name : String) (parent : Token) (trigger : Trigger) : Office :=
  let (l, tokens) := Listener.start o.tokens parent trigger
  let desk := if trigger = .signals then o.desk.claim else o.desk
  let o := { o with tokens, desk }
  let o := match o.listeners.get? name with
    | some old => o.dismiss old
    | none => o
  { o with listeners := o.listeners.put name l }

/-- Whether this call stopped the listener. -/
def stop (o : Office) (name : String) : Bool × Office :=
  match o.listeners.get? name with
  | some l =>
    let (first, stopped) := l.stop
    (first, { o.dismiss l with listeners := o.listeners.put name stopped })
  | none => (false, o)

def drop (o : Office) (name : String) : Office :=
  { (o.stop name).2 with listeners := o.listeners.erase name }

/-- The names of the listeners for signals that have not been stopped. -/
def active (o : Office) : List Listener :=
  o.listeners.values.filter fun l => l.listening && l.trigger = .signals

def isComplete (o : Office) : Trigger → Bool
  | .token t => o.tokens.isCancelled t
  | .clock due => due ≤ o.clock
  | .signals | .never => false

/-- Every listener's task takes one turn. -/
def pass (o : Office) : Office :=
  o.listeners.values.foldl
    (fun o l => { o with tokens := l.turn o.tokens (o.isComplete l.trigger) }) o

/-- A pass that changes anything cancels a further scope, so one pass a listener is enough. -/
def rest (o : Office) : Office := Nat.repeat pass o.listeners.entries.length o

def sleep (o : Office) (millis : Nat) : Office := rest { o with clock := o.clock + millis }

/-- A signal either ends the process or reaches every active listener. -/
def raise (o : Office) (s : Signal) : Option Office :=
  if o.desk.isFatal s then none
  else some { o with
    tokens := o.active.foldl (fun tokens l => l.turn tokens true) o.tokens }

/-! ## Done signals -/

def addDone (o : Office) (name : String) : Office :=
  { o with doneNames := o.doneNames.put name o.dones.length, dones := o.dones ++ [{}] }

def cloneDone (o : Office) (name source : String) : Office :=
  match o.doneNames.get? source with
  | some n => { o with doneNames := o.doneNames.put name n }
  | none => o

def done? (o : Office) (name : String) : Option DoneSignal :=
  (o.doneNames.get? name).bind fun n => o.dones[n]?

/-- Changes the signal behind a name. -/
def withDone {α : Type} (o : Office) (name : String) (absent : α)
    (f : DoneSignal → α × DoneSignal) : α × Office :=
  match o.doneNames.get? name with
  | some n =>
    match o.dones[n]? with
    | some d =>
      let (a, d) := f d
      (a, { o with dones := o.dones.set n d })
    | none => (absent, o)
  | none => (absent, o)

def fire (o : Office) (name : String) : Bool × Office := o.withDone name false DoneSignal.fire

def race (o : Office) (name : String) (callers : Nat) : Nat × Office :=
  o.withDone name 0 fun d => d.race callers

/-- Waits a millisecond at most for a signal. -/
def wait (o : Office) (name : String) : Bool × Office :=
  match o.done? name with
  | some d => if d.notified then (true, o) else (false, o.sleep 1)
  | none => (false, o)

end Office

end LeaderLease
