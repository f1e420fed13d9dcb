import LeaderLease.Termination.Token

/-!
# Termination listeners

A listener owns a scope inside its parent's. Its task cancels the scope when it runs with the
trigger complete, for as long as the listener has not been stopped; stopping cancels nothing.
`Listener.Watch` puts a listener together with its surroundings, so that parent, trigger, task and
owner may act in any order.
-/

set_option autoImplicit false

namespace LeaderLease

/-- What a listener takes for a request to terminate. -/
inductive Trigger where
  | token (t : Token)
  /-- The clock has reached an instant, in milliseconds. -/
  | clock (due : Nat)
  /-- A signal to the process. -/
  | signals
  | never
deriving DecidableEq, Repr

structure Listener where
  scope : Token
  trigger : Trigger
  listening : Bool
deriving DecidableEq, Repr

namespace Listener

def start (ts : Tokens) (parent : Token) (trigger : Trigger) : Listener × Tokens :=
  let (scope, ts) := ts.child parent
  (⟨scope, trigger, true⟩, ts)

def isRequested (l : Listener) (ts : Tokens) : Bool := ts.isCancelled l.scope

/-- The task's turn, with the trigger complete or not. -/
def turn (l : Listener) (ts : Tokens) (complete : Bool) : Tokens :=
  if l.listening && complete then ts.cancel l.scope else ts

/-- Only the first stop answers true. -/
def stop (l : Listener) : Bool × Listener := (l.listening, { l with listening := false })

/-! ## In any order -/

inductive Event where
  | cancelParent
  | completeTrigger
  | turn
  | stop
  | drop
deriving DecidableEq, Repr

structure Watch where
  tokens : Tokens
  parent : Token
  complete : Bool
  listener : Listener
deriving DecidableEq, Repr

namespace Watch

/-- A listener that was just started inside a root scope of its own. -/
def initial (trigger : Trigger) : Watch :=
  let (parent, ts) := Tokens.root {}
  let (listener, ts) := Listener.start ts parent trigger
  ⟨ts, parent, false, listener⟩

/-- The state after an event, and the answer if the event stops the listener. -/
def step (w : Watch) : Event → Option Bool × Watch
  | .cancelParent => (none, { w with tokens := w.tokens.cancel w.parent })
  | .completeTrigger => (none, { w with complete := true })
  | .turn => (none, { w with tokens := w.listener.turn w.tokens w.complete })
  | .stop | .drop =>
    let (first, listener) := w.listener.stop
    (some first, { w with listener })

/-- The answers of the stops among the events, in order, and the state after all of them. -/
def run (w : Watch) : List Event → List Bool × Watch
  | [] => ([], w)
  | e :: es =>
    let (answer, w) := w.step e
    let (answers, w) := w.run es
    (answer.toList ++ answers, w)

end Watch

end Listener

end LeaderLease
