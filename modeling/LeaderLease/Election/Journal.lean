import LeaderLease.Election.Run
import LeaderLease.Logging.Line

/-!
# The journal of a run

The log lines that go with each step of a run: with a step of its own, with the answer to a read,
and with the answer to a write.
-/

set_option autoImplicit false

namespace LeaderLease

namespace Run

/-- With an entry being remembered. -/
def observeLines (r : Run) (e : Entry) : List LogLine :=
  match r.sighting.news e with
  | none => []
  | some holder =>
    if holder = "" then [.plain .debug "Observed released lease"]
    else [.plain .debug "Observed new leader"]

/-- With an attempt that succeeded. -/
def successLines : Goal → List LogLine
  | .acquire _ => [.plain .info "Acquired lease"]
  | .lead _ _ | .windDown _ _ => [.plain .debug "Renewed lease"]

/-- With an attempt that failed. -/
def failureLines (r : Run) (now : Instant) : Goal → List LogLine
  | .acquire _ => [.plain .debug "Lease not acquired, retrying"]
  | .lead _ renewedAt | .windDown _ renewedAt =>
    if r.candidate.renewDeadline.nanos ≤ now - renewedAt then
      [.plain .warn "Failed to renew lease before deadline"]
    else []

/-- With the end of the work while leading. -/
def endLines (r : Run) : WorkResult → List LogLine
  | .done => [⟨.warn, "Leader callback returned while leading, relinquishing lease",
      some r.candidate.resource⟩]
  | .failed message => [⟨.error, "Leader callback error", some message⟩]
  | .crashed message => [⟨.error, "Leader callback panicked", some message⟩]

/-- With the end of the work that was told to stop. -/
def windDownLines : WorkResult → List LogLine
  | .done => []
  | .failed message => [⟨.warn, "Leader callback failed during shutdown", some message⟩]
  | .crashed message => [⟨.warn, "Leader callback panicked during shutdown", some message⟩]

/-- With a step that needs no store. -/
def actLines (r : Run) (v : View) : List LogLine :=
  match r.stage with
  | .fresh => [.plain .info "Starting leader election"]
  | .waiting (.windDown _ _) =>
    match v.work with
    | .finished result => windDownLines result
    | _ => []
  | .relieving (.workEnded result) => r.endLines result
  | .closing verdict =>
    .plain .debug "Stopped listening for termination signals" ::
      match verdict with
      | .workFailed _ => []
      | .stopped =>
        if v.requested then [.plain .info "Requested to terminate, exiting"]
        else [⟨.error, "Leader election lost", some r.candidate.resource⟩]
  | _ => []

def readLines (r : Run) (now : Instant) (answer : ReadAnswer) : List LogLine :=
  match r.stage, answer with
  | .reading goal _, .error e =>
    ⟨.warn, "Failed to read lease", some e.message⟩ :: r.failureLines now goal
  | .reading goal wall, .ok (some e) =>
    r.observeLines e ++
      match r.candidate.decide (r.sighting.observe now e).since now wall e with
      | .wait => .plain .debug "Lease held by another instance" :: r.failureLines now goal
      | .write _ | .overflow => []
  | _, _ => []

def writeLines (r : Run) (now : Instant) (answer : WriteAnswer) : List LogLine :=
  match r.stage, answer with
  | .writing goal _, .ok e => r.observeLines e ++ successLines goal
  | .writing _ _, .error .exhausted => []
  | .writing goal w, .error e =>
    let message := match w with
      | .create _ => "Failed to create lease"
      | .update _ _ => "Failed to update lease"
    ⟨.debug, message, some e.message⟩ :: r.failureLines now goal
  | .releasing _ _ _, .ok e => .plain .info "Released lease" :: r.observeLines e
  | .releasing _ _ _, .error .exhausted => []
  | .releasing _ _ _, .error e => [⟨.warn, "Failed to release lease", some e.message⟩]
  | _, _ => []

end Run

end LeaderLease
