import LeaderLease.Data.Table
import LeaderLease.Election.Journal
import LeaderLease.Text.Quoted

/-!
# Participants of a scenario

A `Participant` is an election with what surrounds it: the scopes that can be cancelled, the leader
work as a script, faults of its lock, and the notes that are taken until somebody asks for them.
Cancelling the context cancels the scope of the election, and that the scope of the work.
-/

set_option autoImplicit false

namespace LeaderLease

/-- A step of leader work. -/
inductive WorkStep where
  /-- Until the scope of the work is cancelled. -/
  | wait
  | sleep (millis : Nat)
  | log (text : String)
  /-- Notes whether the scope of the work is cancelled. -/
  | check
  /-- Cancels the context of the election. -/
  | cancel
  | trigger
  | crash (text : String)
  /-- Fails with a chain of causes, the innermost first. -/
  | fail (chain : List String)
deriving DecidableEq, Repr

/-- The message of leader work that crashed. -/
def crashMessage (text : String) : String := "task N panicked with message " ++ Text.quoted text

/-- A chain of causes in one line, the outermost first. -/
def chainText (chain : List String) : String := String.intercalate ": " chain.reverse

inductive CallKind where
  | get
  | create
  | update
deriving DecidableEq, Repr

def Call.kind : Call → CallKind
  | .get => .get
  | .write (.create _) => .create
  | .write (.update _ _) => .update

/-- A disturbance of the lock's calls that start in a span of time: a delay, an error, or both. -/
structure Fault where
  /-- Every call if missing. -/
  kind : Option CallKind
  start : Nat
  /-- Without end if missing. -/
  stop : Option Nat
  delay : Nat
  error : Option StoreError
  /-- A write is performed although its caller is told otherwise. -/
  applied : Bool
deriving Repr

def Fault.matches (f : Fault) (now : Nat) (call : Call) : Bool :=
  (f.kind = none || f.kind = some call.kind) && f.start ≤ now &&
    (match f.stop with | none => true | some stop => now < stop)

inductive HandleState where
  | absent
  /-- The caller follows the election. -/
  | election
  /-- The caller only waits for the end. -/
  | task
deriving DecidableEq, Repr

structure Participant where
  doneName : String
  /-- Missing when the work runs without an election. -/
  run : Option Run
  handle : HandleState := .absent
  /-- Faults of the lock; calls are noted when there is a list. -/
  faults : Option (List Fault) := none
  /-- The fault of the call that is under way. -/
  delayed : Option Fault := none
  context : Bool := false
  triggered : Bool := false
  /-- The scope of the election. -/
  scope : Bool := false
  /-- The scope of the work. -/
  workScope : Bool := false
  listening : Bool := false
  work : Work := .idle
  script : List WorkStep := []
  /-- The work has taken its first step. -/
  begun : Bool := false
  /-- The work waits for its timer. -/
  sleeping : Bool := false
  abortRequested : Bool := false
  state : Option ElectionState := none
  holders : List (Nat × String) := []
  notes : List (Nat × String) := []
  calls : List (Nat × CallKind) := []
  /-- The log lines of the run. -/
  journal : List LogLine := []

namespace Participant

def note (p : Participant) (now : Nat) (text : String) : Participant :=
  { p with notes := p.notes ++ [(now, text)] }

/-- Adds lines to the journal. -/
def write (p : Participant) (lines : List LogLine) : Participant :=
  { p with journal := p.journal ++ lines }

/-- The work waits for its scope to be cancelled. -/
def workWaits (p : Participant) : Bool :=
  p.work = .running && p.begun && p.script.head? = some .wait

/-- The run waits for its scope to be cancelled, among other things. -/
def runWaitsForScope (p : Participant) : Bool :=
  match p.run with
  | some r =>
    match r.stage with
    | .waiting (.acquire _) | .waiting (.lead _ _) => true
    | _ => false
  | none => false

/-- The run waits for the end of the work, among other things. -/
def runWaitsForWork (p : Participant) : Bool :=
  match p.run with
  | some r =>
    match r.stage with
    | .waiting (.lead _ _) | .waiting (.windDown _ _) => true
    | _ => false
  | none => false

/-- What has been noted since the last time, taken away. -/
def drain (p : Participant) : Participant := { p with holders := [], notes := [], calls := [] }

end Participant

end LeaderLease
