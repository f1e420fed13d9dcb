import LeaderLease.Election.Sighting

/-!
# Runs

A `Run` is one candidate's attempt to lead, from its start to its outcome. Its stage names the one
thing it does next: wait, call the store, publish a state, start or stop the leader work, hand the
lease back. `Run.act` performs a step that needs no store, `Run.call?` is the call that the run
waits for, and `Run.receiveRead` and `Run.receiveWrite` take the answer. Each step sees its
surroundings through a `View` and has its effects listed, so that the steps of several runs can be
put into any order.

While waiting, a request to stop is noticed before the end of the leader work, and that before a
tick.
-/

set_option autoImplicit false

namespace LeaderLease

inductive ElectionState where
  | acquiring
  | leading
  | released
deriving DecidableEq, Repr

/-- How leader work ended. -/
inductive WorkResult where
  | done
  | failed (message : String)
  | crashed (message : String)
deriving DecidableEq, Repr

inductive Work where
  | idle
  | running
  | finished (result : WorkResult)
  /-- Stopped from outside before it finished. -/
  | aborted
deriving DecidableEq, Repr

inductive Outcome where
  /-- Termination was requested, and the lease was handed back. -/
  | graceful
  /-- Leading ended without a request. -/
  | lost (resource : String)
  | workFailed (message : String)
deriving DecidableEq, Repr

def Outcome.isGraceful : Outcome → Bool
  | .graceful => true
  | _ => false

/-- What an attempt on the lease is for. -/
inductive Goal where
  | acquire (ticker : Ticker)
  | lead (ticker : Ticker) (renewedAt : Instant)
  /-- Keep the lease until the leader work, told to stop, has ended. -/
  | windDown (ticker : Ticker) (renewedAt : Instant)
deriving DecidableEq, Repr

/-- Why leading ends. -/
inductive Reason where
  | requested
  | lost
  | workEnded (result : WorkResult)
deriving DecidableEq, Repr

/-- What the outcome will be: that of failed work is settled, the others depend on whether
termination has been requested by the time the run closes. -/
inductive Verdict where
  | stopped
  | workFailed (message : String)
deriving DecidableEq, Repr

/-- What the end of the work while leading means for the outcome. -/
def Verdict.ofResult : WorkResult → Verdict
  | .done => .stopped
  | .failed message => .workFailed message
  | .crashed message => .workFailed message

inductive Stage where
  | fresh
  | waiting (goal : Goal)
  /-- The entry is being read; the wall clock was read before. -/
  | reading (goal : Goal) (wall : Timestamp)
  | writing (goal : Goal) (w : Write)
  /-- The lease is ours; leading is not published yet. -/
  | elected
  /-- Leading is published; the work is not started yet. -/
  | installing
  /-- Leading has ended; the work is not told yet. -/
  | relieving (reason : Reason)
  /-- The work is to be aborted. -/
  | aborting
  /-- The lease is being handed back. -/
  | releasing (verdict : Verdict) (version : Nat) (lease : Lease)
  /-- The end of the attempt is not published yet. -/
  | retiring (verdict : Verdict)
  /-- The listener for termination is to be stopped. -/
  | closing (verdict : Verdict)
  /-- The end of a requested termination is to be announced. -/
  | announcing
  | ended (outcome : Outcome)
  /-- Arithmetic left its range; the run takes no further step. -/
  | broken
deriving DecidableEq, Repr

/-- What a run sees when it takes a step. -/
structure View where
  now : Instant
  wall : Timestamp
  /-- Termination of this run has been requested. -/
  requested : Bool
  work : Work

inductive Effect where
  | publish (state : ElectionState)
  /-- Tell the holder of the lease to whoever follows the changes of leader. -/
  | report (holder : String)
  | startWork
  /-- Cancel the scope of the work. -/
  | cancelWork
  | abortWork
  | stopListening
  | announceDone
deriving DecidableEq, Repr

structure Run where
  candidate : Candidate
  sighting : Sighting
  stage : Stage
deriving DecidableEq, Repr

namespace Run

def start (c : Candidate) (now : Instant) : Run := ⟨c, .start now, .fresh⟩

/-- The same run at another stage. -/
def goTo (r : Run) (stage : Stage) : Run := { r with stage }

/-- Gives up after arithmetic left its range; the listener goes with the run. -/
def collapse (r : Run) : Run × List Effect := (r.goTo .broken, [.stopListening])

/-- Hands the lease back if the last one seen was ours. -/
def handBack (r : Run) (wall : Timestamp) (verdict : Verdict) : Run :=
  match r.sighting.seen with
  | some e =>
    if e.lease.isHeldBy r.candidate.identity then
      r.goTo (.releasing verdict e.version (Candidate.releasedLease wall e.lease.transitions))
    else r.goTo (.retiring verdict)
  | none => r.goTo (.retiring verdict)

/-- Starts an attempt if the ticker is due. -/
def tick (r : Run) (v : View) (ticker : Ticker) (goal : Ticker → Goal) :
    Option (Run × List Effect) :=
  if ticker.isDue v.now then some (r.goTo (.reading (goal (ticker.taken v.now)) v.wall), [])
  else none

/-- The step of a waiting run, if there is something to do. -/
def wake (r : Run) (v : View) : Goal → Option (Run × List Effect)
  | .acquire ticker =>
    if v.requested then some (r.goTo (.retiring .stopped), [])
    else r.tick v ticker .acquire
  | .lead ticker renewedAt =>
    if v.requested then some (r.goTo (.relieving .requested), [])
    else
      match v.work with
      | .finished result => some (r.goTo (.relieving (.workEnded result)), [])
      | _ => r.tick v ticker fun t => .lead t renewedAt
  | .windDown ticker renewedAt =>
    match v.work with
    | .finished _ => some (r.handBack v.wall .stopped, [])
    | _ => r.tick v ticker fun t => .windDown t renewedAt

/-- Waits with a ticker that is due one period from now. -/
def await (r : Run) (v : View) (goal : Ticker → Instant → Goal) (effects : List Effect) :
    Run × List Effect :=
  match Ticker.delayed? v.now r.candidate.retryPeriod with
  | some ticker => (r.goTo (.waiting (goal ticker v.now)), effects)
  | none => (r.goTo .broken, effects ++ [.stopListening])

/-- A step without the store; nothing while the run waits or has ended. -/
def act (r : Run) (v : View) : Option (Run × List Effect) :=
  match r.stage with
  | .fresh =>
    if r.candidate.retryPeriod.nanos = 0 then
      some (r.goTo .broken, [.publish .acquiring, .stopListening])
    else
      some (r.goTo (.waiting (.acquire (.immediate v.now r.candidate.retryPeriod))),
        [.publish .acquiring])
  | .waiting goal => r.wake v goal
  | .elected => some (r.goTo .installing, [.publish .leading])
  | .installing => some (r.await v .lead [.startWork])
  | .relieving .requested => some (r.await v .windDown [.cancelWork])
  | .relieving .lost => some (r.goTo .aborting, [.cancelWork])
  | .relieving (.workEnded result) =>
    some (r.handBack v.wall (Verdict.ofResult result), [.cancelWork])
  | .aborting => some (r.goTo (.retiring .stopped), [.abortWork])
  | .retiring verdict => some (r.goTo (.closing verdict), [.publish .released])
  | .closing (.workFailed message) =>
    some (r.goTo (.ended (.workFailed message)), [.stopListening])
  | .closing .stopped =>
    if v.requested then some (r.goTo .announcing, [.stopListening])
    else some (r.goTo (.ended (.lost r.candidate.resource)), [.stopListening])
  | .announcing => some (r.goTo (.ended .graceful), [.announceDone])
  | .reading _ _ | .writing _ _ | .releasing _ _ _ | .ended _ | .broken => none

/-- The store call that the run waits for. -/
def call? (r : Run) : Option Call :=
  match r.stage with
  | .reading _ _ => some .get
  | .writing _ w => some (.write w)
  | .releasing _ version lease => some (.write (.update version lease))
  | _ => none

/-- Remembers an entry and reports its holder if that is news. -/
def observe (r : Run) (now : Instant) (e : Entry) : Run × List Effect :=
  ({ r with sighting := r.sighting.observe now e },
    ((r.sighting.news e).map Effect.report).toList)

/-- Goes on after an attempt that succeeded. -/
def succeeded (r : Run) (now : Instant) : Goal → Run
  | .acquire _ => r.goTo .elected
  | .lead ticker _ => r.goTo (.waiting (.lead ticker now))
  | .windDown ticker _ => r.goTo (.waiting (.windDown ticker now))

/-- Goes on after an attempt that failed: leading ends when renewals have failed for too long. -/
def failed (r : Run) (now : Instant) : Goal → Run
  | .acquire ticker => r.goTo (.waiting (.acquire ticker))
  | .lead ticker renewedAt =>
    if r.candidate.renewDeadline.nanos ≤ now - renewedAt then r.goTo (.relieving .lost)
    else r.goTo (.waiting (.lead ticker renewedAt))
  | .windDown ticker renewedAt =>
    if r.candidate.renewDeadline.nanos ≤ now - renewedAt then r.goTo .aborting
    else r.goTo (.waiting (.windDown ticker renewedAt))

/-- Goes on after the entry has been read. -/
def afterRead (r : Run) (now : Instant) (goal : Goal) (wall : Timestamp) :
    ReadAnswer → Run × List Effect
  | .error _ => (r.failed now goal, [])
  | .ok none => (r.goTo (.writing goal (.create (r.candidate.firstLease wall))), [])
  | .ok (some e) =>
    let (r, reports) := r.observe now e
    match r.candidate.decide r.sighting.since now wall e with
    | .wait => (r.failed now goal, reports)
    | .write w => (r.goTo (.writing goal w), reports)
    | .overflow => (r.goTo .broken, reports ++ [.stopListening])

/-- Goes on after a write of an attempt. -/
def afterWrite (r : Run) (now : Instant) (goal : Goal) : WriteAnswer → Run × List Effect
  | .ok e =>
    let (r, reports) := r.observe now e
    (r.succeeded now goal, reports)
  | .error .exhausted => r.collapse
  | .error _ => (r.failed now goal, [])

/-- Goes on after the lease was handed back, or could not be. -/
def afterRelease (r : Run) (now : Instant) (verdict : Verdict) : WriteAnswer → Run × List Effect
  | .ok e =>
    let (r, reports) := r.observe now e
    (r.goTo (.retiring verdict), reports)
  | .error .exhausted => r.collapse
  | .error _ => (r.goTo (.retiring verdict), [])

/-- Takes the answer to `get`. -/
def receiveRead (r : Run) (now : Instant) (answer : ReadAnswer) : Run × List Effect :=
  match r.stage with
  | .reading goal wall => r.afterRead now goal wall answer
  | _ => (r, [])

/-- Takes the answer to a write. -/
def receiveWrite (r : Run) (now : Instant) (answer : WriteAnswer) : Run × List Effect :=
  match r.stage with
  | .writing goal _ => r.afterWrite now goal answer
  | .releasing verdict _ _ => r.afterRelease now verdict answer
  | _ => (r, [])

def hasEnded (r : Run) : Bool :=
  match r.stage with
  | .ended _ | .broken => true
  | _ => false

end Run

end LeaderLease
