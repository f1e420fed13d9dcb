import LeaderLease.Election.Run
import LeaderLease.Store.Memory

/-!
# Contests

Any number of runs over one store, with their surroundings. Each `Move` is one step of one party: a
run acts or makes the store call that it waits for, a listener's task takes its turn, leader work
ends, a run vanishes, somebody else writes, or time passes. Moves may come in any order, so every
publication of a state and every store call can fall between any two steps of the others.
`Contest.log` keeps what happened, the latest last.
-/

set_option autoImplicit false

namespace LeaderLease

/-- One run and what belongs to it. -/
structure Member where
  run : Run
  /-- The scope of the election is cancelled: termination is requested. -/
  scope : Bool := false
  /-- The trigger of the listener is complete. -/
  triggered : Bool := false
  listening : Bool := true
  work : Work := .idle
  /-- The scope of the work is cancelled. -/
  workScope : Bool := false
  /-- The state published last. -/
  state : ElectionState := .acquiring
deriving DecidableEq, Repr

/-- What a member sees. -/
def Member.view (m : Member) (now : Instant) (wall : Timestamp) : View :=
  ⟨now, wall, m.scope, m.work⟩

/-- Something that happened to a member, or to the store. -/
inductive Fact where
  | started (id : Nat)
  /-- An attempt on the lease begins. -/
  | attempted (id : Nat) (time : Instant)
  | observed (id : Nat) (time : Instant) (e : Entry)
  | reported (id : Nat) (holder : String)
  | published (id : Nat) (state : ElectionState)
  /-- An entry was stored, by a member or by somebody else. -/
  | stored (id : Option Nat) (time : Instant) (key : String) (e : Entry)
  /-- The work begins; its scope may be cancelled already. -/
  | workStarted (id : Nat) (cancelled : Bool)
  | workCancelled (id : Nat)
  | workAborted (id : Nat)
  | workEnded (id : Nat) (result : WorkResult)
  | requested (id : Nat)
  /-- Leading ends for a reason. -/
  | relieved (id : Nat) (time : Instant) (reason : Reason)
  | announced (id : Nat)
  | ended (id : Nat) (outcome : Outcome)
  | vanished (id : Nat)
deriving DecidableEq, Repr

/-- The member that a fact is about; nobody's if somebody else wrote. -/
def Fact.member? : Fact → Option Nat
  | .stored id _ _ _ => id
  | .started id | .attempted id _ | .observed id _ _ | .reported id _ | .published id _
  | .workStarted id _ | .workCancelled id | .workAborted id | .workEnded id _ | .requested id
  | .relieved id _ _ | .announced id | .ended id _ | .vanished id => some id

/-- What happened, the latest last. -/
abbrev Log : Type := List Fact

structure Contest where
  now : Instant
  store : MemoryStore
  members : Table Nat Member
  log : Log

inductive Move where
  /-- A new run begins under a number that was not used before. -/
  | start (id : Nat) (candidate : Candidate)
  /-- A step without the store, with a reading of the wall clock. -/
  | act (id : Nat) (wall : Timestamp)
  /-- The store call that the run waits for. -/
  | call (id : Nat)
  /-- The context around the election is cancelled. -/
  | cancel (id : Nat)
  /-- The trigger of the listener completes. -/
  | trigger (id : Nat)
  /-- The listener's task takes its turn. -/
  | listen (id : Nat)
  /-- The work ends by itself. -/
  | finish (id : Nat) (result : WorkResult)
  /-- Run, listener and work are gone at once. -/
  | vanish (id : Nat)
  /-- Somebody else writes. -/
  | foreign (key : String) (w : Write)
  | pass (time : Duration)
deriving DecidableEq, Repr

namespace Contest

def empty : Contest := ⟨0, Table.empty, Table.empty, []⟩

def note (c : Contest) (facts : List Fact) : Contest := { c with log := c.log ++ facts }

def put (c : Contest) (id : Nat) (m : Member) : Contest :=
  { c with members := c.members.put id m }

/-- An effect on a member, and the facts that go with it. -/
def affect (id : Nat) (m : Member) : Effect → Member × List Fact
  | .publish state => ({ m with state }, [.published id state])
  | .report holder => (m, [.reported id holder])
  | .startWork => ({ m with work := .running, workScope := m.scope }, [.workStarted id m.scope])
  | .cancelWork =>
    ({ m with workScope := true }, if m.workScope then [] else [.workCancelled id])
  | .abortWork =>
    if m.work = .running then ({ m with work := .aborted }, [.workAborted id]) else (m, [])
  | .stopListening => ({ m with listening := false }, [])
  | .announceDone => (m, [.announced id])

def affectAll (id : Nat) (m : Member) : List Effect → Member × List Fact
  | [] => (m, [])
  | effect :: effects =>
    let (m, facts) := affect id m effect
    let (m, more) := affectAll id m effects
    (m, facts ++ more)

/-- Facts that show in the stage a run has come to. -/
def arrival (id : Nat) (now : Instant) (r : Run) : List Fact :=
  match r.stage with
  | .reading _ _ => [.attempted id now]
  | .relieving reason => [.relieved id now reason]
  | .ended outcome => [.ended id outcome]
  | _ => []

/-- Puts a member back after a step of its run. -/
def settle (c : Contest) (id : Nat) (m : Member) (step : Run × List Effect) : Contest :=
  let (m, facts) := affectAll id { m with run := step.1 } step.2
  (c.put id m).note (facts ++ arrival id c.now step.1)

/-- The answer to a read, taken by the member who asked. -/
def read (c : Contest) (id : Nat) (m : Member) : Contest :=
  let seen := c.store.get? m.run.candidate.resource
  let c := c.note (seen.map fun e => Fact.observed id c.now e).toList
  c.settle id m (m.run.receiveRead c.now (.ok seen))

/-- A write of a member, and its answer. -/
def write (c : Contest) (id : Nat) (m : Member) (w : Write) : Contest :=
  let key := m.run.candidate.resource
  let (answer, store) := c.store.write key w
  let facts : List Fact := match answer with
    | .ok e => [.stored (some id) c.now key e, .observed id c.now e]
    | .error _ => []
  (({ c with store }).note facts).settle id m (m.run.receiveWrite c.now answer)

/-- Cancels the scope of a member's election and with it that of its work. -/
def request (c : Contest) (id : Nat) (m : Member) : Contest :=
  if m.scope then c
  else
    (c.put id { m with scope := true, workScope := true }).note
      (.requested id :: if m.work = .running ∧ m.workScope = false then [.workCancelled id] else [])

/-- One move, if it is possible. -/
def step (c : Contest) : Move → Option Contest
  | .start id candidate =>
    if c.log.contains (.started id) then none
    else some ((c.put id { run := .start candidate c.now }).note [.started id])
  | .act id wall => do
    let m ← c.members.get? id
    let step ← m.run.act (m.view c.now wall)
    some (c.settle id m step)
  | .call id => do
    let m ← c.members.get? id
    match ← m.run.call? with
    | .get => some (c.read id m)
    | .write w => some (c.write id m w)
  | .cancel id => do
    let m ← c.members.get? id
    some (c.request id m)
  | .trigger id => do
    let m ← c.members.get? id
    some (c.put id { m with triggered := true })
  | .listen id => do
    let m ← c.members.get? id
    if m.listening ∧ m.triggered then some (c.request id m) else none
  | .finish id result => do
    let m ← c.members.get? id
    if m.work = .running then
      some ((c.put id { m with work := .finished result }).note [.workEnded id result])
    else none
  | .vanish id => do
    let _ ← c.members.get? id
    some ({ c with members := c.members.erase id }.note [.vanished id])
  | .foreign key w =>
    let (answer, store) := c.store.write key w
    some (({ c with store }).note (match answer with
      | .ok e => [.stored none c.now key e]
      | .error _ => []))
  | .pass time => some { c with now := c.now + time.nanos }

/-- All moves in order, if they are possible. -/
def play (c : Contest) : List Move → Option Contest
  | [] => some c
  | move :: moves => (c.step move).bind fun c => c.play moves

/-! ## Punctual time -/

/-- The member can take a step at once, without waiting for time or for somebody else. -/
def isBusy (now : Instant) (m : Member) : Bool :=
  m.run.call?.isSome || (m.run.act (m.view now (.ofUnix 0 0))).isSome ||
    (m.listening && m.triggered && !m.scope)

/-- When a waiting run wants to try next. -/
def nextTick? (m : Member) : Option Instant :=
  match m.run.stage with
  | .waiting (.acquire ticker) | .waiting (.lead ticker _) | .waiting (.windDown ticker _) =>
    some ticker.due
  | _ => none

/-- The member has nothing to do now, and its next tick is not before the time has passed. -/
def canWait (now : Instant) (time : Duration) (m : Member) : Bool :=
  !isBusy now m &&
    (match nextTick? m with
      | some due => now + time.nanos ≤ due
      | none => true)

/-- Time passes only when nobody has anything to do, and never beyond the next tick. -/
def mayPass (c : Contest) (time : Duration) : Bool := c.members.values.all (canWait c.now time)

/-- A step on a clock that never runs ahead of what is to be done. -/
def punctualStep (c : Contest) : Move → Option Contest
  | .pass time => if c.mayPass time then c.step (.pass time) else none
  | move => c.step move

def punctualPlay (c : Contest) : List Move → Option Contest
  | [] => some c
  | move :: moves => (c.punctualStep move).bind fun c => c.punctualPlay moves

/-! ## What the log says -/

/-- The entries stored under a key, in order. -/
def history (c : Contest) (key : String) : List Entry :=
  c.log.filterMap fun fact =>
    match fact with
    | .stored _ _ k e => if k = key then some e else none
    | _ => none

/-- The holders that a member reported, in order. -/
def reports (c : Contest) (id : Nat) : List String :=
  c.log.filterMap fun fact =>
    match fact with
    | .reported i holder => if i = id then some holder else none
    | _ => none

/-- The entries that a member observed, in order. -/
def observations (c : Contest) (id : Nat) : List Entry :=
  c.log.filterMap fun fact =>
    match fact with
    | .observed i _ e => if i = id then some e else none
    | _ => none

theorem play_append (c : Contest) (xs ys : List Move) :
    c.play (xs ++ ys) = (c.play xs).bind fun c => c.play ys := by
  induction xs generalizing c with
  | nil => rfl
  | cons move moves ih =>
    simp only [List.cons_append, play]
    cases c.step move with
    | none => rfl
    | some next => exact ih next

end Contest

end LeaderLease
