import LeaderLease.Election.Settings
import LeaderLease.Scenario.Basic

/-!
# Commands of a scenario

What an observer can do: start elections, write leases from outside, let time pass, cancel, and wait
for leadership or for an outcome. Every command ends at rest.
-/

set_option autoImplicit false

namespace LeaderLease

namespace Scenario

/-- How an election is to be started. -/
structure StartOptions where
  id : String
  identity : String
  settings : ElectionSettings
  script : List WorkStep
  doneName : String
  cancelled : Bool
  triggered : Bool
  /-- Without an election the work runs at once. -/
  disabled : Bool
  /-- With a list the election starts without the checks, on a lock with these faults. -/
  faults : Option (List Fault)

inductive StartResult where
  | following (identity resource : String)
  | started
  | ranInline
  | timedOut
  | crashed
  | refused (error : ElectionError)

/-- How long work without an election may take, in milliseconds. -/
def inlineLimit : Nat := 1000000

def participant (o : StartOptions) : Participant where
  doneName := o.doneName
  run := none
  context := o.cancelled
  triggered := o.triggered
  scope := o.cancelled
  workScope := o.cancelled
  script := o.script

/-- Runs the work of a disabled election to its end or to its limit. -/
def runInline (s : Scenario) (o : StartOptions) : StartResult × Scenario :=
  let p := { participant o with work := .running }
  let s := ({ s with participants := s.participants.put o.id p }).wake o.id .work
  let ended (s : Scenario) : Bool :=
    match s.participants.get? o.id with
    | some p => p.work ≠ .running
    | none => true
  let s := arrive (s.rest.advance (s.clock + inlineLimit) ended)
  match s.participants.get? o.id with
  | none => (.timedOut, s)
  | some p =>
    match p.work with
    | .finished .done => (.ranInline, s)
    | .finished (.failed message) => (.refused (.workFailed message), s)
    | .finished (.crashed _) => (.crashed, s)
    | _ => (.timedOut, s.dropWork o.id)

/-- Puts a run in place with its listener, and lets both begin. -/
def launch (s : Scenario) (o : StartOptions) (candidate : Candidate) (handle : HandleState)
    (faults : Option (List Fault)) : Scenario :=
  let p := { participant o with
    run := some (.start candidate s.now)
    handle := handle
    faults := faults
    listening := true
    state := some .acquiring }
  (({ s with participants := s.participants.put o.id p }).wake o.id .listener |>.wake o.id
    .run).rest

/-- A server that does not answer: every call takes all its time. -/
def unanswered (limit : Duration) : List Fault :=
  [{ kind := none, start := 0, stop := none, delay := Instant.ceilMillis limit.nanos,
     error := some (.timedOut limit), applied := false }]

/-- A signal that nobody has named before has not fired. -/
def knowDone (s : Scenario) (name : String) : Scenario :=
  if s.done.contains name then s else { s with done := s.done.put name false }

def start (s : Scenario) (o : StartOptions) : StartResult × Scenario :=
  let s := s.knowDone o.doneName
  if o.disabled then s.runInline o
  else
    match o.faults with
    | some faults =>
      (.started, s.launch o (o.settings.candidate o.identity) .task (some faults))
    | none =>
      match o.settings.prepare o.identity with
      | .error e =>
        (.refused e, { s with participants := s.participants.put o.id (participant o) })
      | .ok (candidate, handle) =>
        let s := s.launch o candidate .election <| match handle with
          | .memory _ _ => none
          | .redis _ lock => some (unanswered lock.limit)
        (.following o.identity candidate.resource, s)

/-- A write of somebody else: creates a missing lease if no version is given, and otherwise updates
the given or the current version. -/
def putLease (s : Scenario) (key : String) (version : Option Nat) (lease : Lease) :
    WriteAnswer × Scenario :=
  let (answer, store) := match version, s.store.get? key with
    | none, none => s.store.create key lease
    | none, some e => s.store.update key e.version lease
    | some version, _ => s.store.update key version lease
  (answer, { s with store })

def sleep (s : Scenario) (millis : Nat) : Scenario :=
  arrive (s.advance (s.clock + millis) fun _ => false)

def cancel (s : Scenario) (id : String) : Scenario := (s.cancelContext id).rest

def trigger (s : Scenario) (id : String) : Scenario := (s.pullTrigger id).rest

/-- Cancels the context and pulls the trigger before anything else happens. -/
def both (s : Scenario) (id : String) : Scenario := ((s.cancelContext id).pullTrigger id).rest

def dropHandle (s : Scenario) (id : String) : Scenario :=
  s.modify id fun p => { p with handle := .absent }

/-- Takes away what has been noted so far. -/
def drained (s : Scenario) : Scenario :=
  { s with participants :=
    ⟨s.participants.entries.map fun entry => (entry.1, entry.2.drain)⟩ }

/-- What a caller waits for, or that there was nothing to wait with, or that time ran out. -/
inductive Wait (α : Type) where
  | resolved (a : α)
  | noHandle
  | timedOut

/-- Waits until `result` is there. -/
def awaitResult {α : Type} (s : Scenario) (limit : Nat) (result : Scenario → Option α) :
    Wait α × Scenario :=
  let s := s.advance (s.clock + limit) fun s => (result s).isSome
  match result s with
  | some a => (.resolved a, s)
  | none => (.timedOut, s.arrive)

/-- Whether the run took its last step. -/
def isFinished (p : Participant) : Bool := (p.run.map Run.hasEnded).getD false

/-- Whether the participant leads, once that is settled: it does, or it will not. -/
def leadership (s : Scenario) (id : String) : Option Bool :=
  match s.participants.get? id with
  | none => some false
  | some p =>
    match p.state with
    | some .leading => some true
    | some .released => some false
    | _ => if isFinished p then some false else none

def waitLeader (s : Scenario) (id : String) (limit : Nat) : Wait Bool × Scenario :=
  match s.participants.get? id with
  | some p =>
    if p.handle = .election then s.awaitResult limit fun s => s.leadership id else (.noHandle, s)
  | none => (.noHandle, s)

/-- The outcome of a run that ended, or nothing inside if it broke. -/
def ending (s : Scenario) (id : String) : Option (Option Outcome) :=
  match (s.participants.get? id).bind (·.run) with
  | some r =>
    match r.stage with
    | .ended outcome => some (some outcome)
    | .broken => some none
    | _ => none
  | none => none

/-- Gives the handle away for the outcome. -/
def waitOutcome (s : Scenario) (id : String) (limit : Nat) : Wait (Option Outcome) × Scenario :=
  match s.participants.get? id with
  | some p =>
    if p.handle = .absent then (.noHandle, s)
    else (s.dropHandle id).awaitResult limit fun s => s.ending id
  | none => (.noHandle, s)

end Scenario

end LeaderLease
