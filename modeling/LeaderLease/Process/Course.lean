import LeaderLease.Election.Plan
import LeaderLease.Scenario.Commands
import LeaderLease.Settings.Loader
import LeaderLease.Termination.SignalDesk

/-!
# The course of a process

A process that loads its configuration, runs an election if one is configured, and beats while it
leads. It exits with zero only if it was asked to stop and handed the lease back. `Course.of` tells
its log lines and its end when signals reach it as soon as it leads.
-/

set_option autoImplicit false

namespace LeaderLease

inductive Ending where
  | exited (code : Nat)
  | killed (s : Signal)
  /-- Nothing that could end the process is going to happen. -/
  | lasting
deriving DecidableEq, Repr

structure Course where
  lines : List LogLine
  /-- The leader work has begun. -/
  led : Bool
  ending : Ending
deriving DecidableEq, Repr

/-! ## Errors with their causes -/

/-- An error and its causes in one line. -/
def ConfigurationError.chain (e : ConfigurationError) : String :=
  match e with
  | .unreadable cause => e.message ++ ": " ++ cause.message
  | _ => e.message

def StoreError.chain (e : StoreError) : String :=
  match e with
  | .redis detail => e.message ++ ": " ++ detail
  | _ => e.message

def ElectionError.chain (e : ElectionError) : String :=
  match e with
  | .lockSetup _ cause => e.message ++ ": " ++ cause.chain
  | _ => e.message

namespace Course

/-! ## Lines -/

def loadingLine : LogLine := .plain .info "Loading configuration from file"

def startingLine : LogLine := .plain .info "Starting Solo Elect"

def signalLine : LogLine := .plain .info "Termination signal received"

def heartbeatMessage : String := "Leader heartbeat"

/-- The first lines of the leader work. -/
def workLines : List LogLine := [.plain .info "Leading", .plain .info heartbeatMessage]

def holderLine (holder : String) : LogLine :=
  if holder = "" then .plain .info "Lease released"
  else ⟨.info, "Leader changed", some holder⟩

/-- The lines of an election: those of its run, of its work, and of the changes of leader. -/
def participantLines (p : Participant) : List LogLine :=
  p.journal ++ (if p.begun then workLines else []) ++
    (match p.work with
      | .finished _ => [.plain .info "Leader work stopping"]
      | _ => []) ++
    p.holders.map fun holder => holderLine holder.2

/-! ## Ends -/

def failure (lines : List LogLine) (chain : String) : Course :=
  ⟨lines ++ [⟨.error, "Solo Elect failed", some chain⟩], false, .exited 1⟩

/-- What the process makes of the outcome. -/
def conclude (done : Bool) : Outcome → List LogLine × Ending
  | .graceful =>
    ((if done then [.plain .info "Lease handed back"] else []) ++
      [.plain .info "Solo Elect shutdown complete"], .exited 0)
  | .lost resource => ([⟨.error, "Leadership lost, exiting", some resource⟩], .exited 1)
  | .workFailed message =>
    ([⟨.error, "Leader work failed, exiting",
      some ("CallbackError(" ++ Text.quoted message ++ ")")⟩], .exited 1)

/-! ## Courses -/

/-- The work without an election; no signal is listened for. -/
def withoutElection (lines : List LogLine) (signals : List Signal) : Course where
  lines := lines ++
    .plain .info "Leader election disabled, running leader work directly" :: workLines
  led := true
  ending := match signals with
    | s :: _ => .killed s
    | [] => .lasting

/-- The election goes on until a signal kills the process or all have been delivered. -/
def deliver (id : String) (desk : SignalDesk) :
    List Signal → Scenario → List LogLine → Scenario × List LogLine × Option Signal
  | [], s, lines => (s, lines, none)
  | signal :: signals, s, lines =>
    if desk.isFatal signal then (s, lines, some signal)
    else deliver id desk signals (s.trigger id) (lines ++ [signalLine])

def withElection (lines : List LogLine) (settings : ElectionSettings) (identity : String)
    (signals : List Signal) : Course :=
  let options : Scenario.StartOptions := {
    id := identity
    identity
    settings
    script := [.wait]
    doneName := identity
    cancelled := false
    triggered := false
    disabled := false
    faults := none }
  match Scenario.start {} options with
  | (.refused e, _) => failure lines e.chain
  | (_, s) =>
    let led := match s.participants.get? identity with
      | some p => p.begun
      | none => false
    let (s, signalLines, fatal) :=
      deliver identity (SignalDesk.claim {}) (if led then signals else []) s []
    let runLines := match s.participants.get? identity with
      | some p => participantLines p
      | none => []
    let (lastLines, ending) := match fatal, s.ending identity with
      | some signal, _ => ([], .killed signal)
      | none, some (some outcome) => conclude (s.isDone identity) outcome
      | none, some none => ([⟨.error, "Solo Elect failed", none⟩], .exited 1)
      | none, none => ([], .lasting)
    ⟨lines ++ runLines ++ signalLines ++ lastLines, led, ending⟩

/-- The course of a process in an environment and a file system. The generated identity is used if
none is configured. -/
def of (env : Environment) (files : FileSystem) (generated : String) (signals : List Signal) :
    Course :=
  let loader : Loader := {}
  let boot := .plain .debug "Logging initialized" ::
    if (loader.findFile files env).isSome then [loadingLine] else []
  match loader.load files env with
  | .error e => failure boot ("failed to load configuration: " ++ e.chain)
  | .ok c =>
    let lines := boot ++ [startingLine]
    match c.election env with
    | .error e => failure lines e.chain
    | .ok none => withoutElection lines signals
    | .ok (some settings) => withElection lines settings (c.identity generated) signals

end Course

end LeaderLease
