import LeaderLease.Election.Candidate
import LeaderLease.Election.Error
import LeaderLease.Settings.Environment
import LeaderLease.Store.Handle

/-!
# Settings of an election

`ElectionSettings` fixes one election before it starts. `ElectionSettings.prepare` refuses a zero
lease time, an empty identity and a lock that cannot be opened, in this order, and otherwise gives
the candidate and its handle.
-/

set_option autoImplicit false

namespace LeaderLease

/-- Where requests to terminate come from. -/
inductive TerminationSource where
  /-- The signals TERM and QUIT. -/
  | signals
  /-- A token of the caller. -/
  | trigger
deriving DecidableEq, Repr

/-- Time between two attempts, whatever the lease time. -/
def retryPeriod : Duration := .ofSeconds 2

structure ElectionSettings where
  ttl : Duration
  ns : String
  name : String
  backend : Backend
  connection : Connection
  retryPeriod : Duration := LeaderLease.retryPeriod
  termination : TerminationSource := .signals
deriving DecidableEq, Repr

namespace ElectionSettings

def defaultTtl : Duration := .ofSeconds 60

/-- Long enough to stop in a debugger without losing the lease. -/
def developmentTtl : Duration := .ofSeconds 3600

def defaultNamespace : String := "solo-system"

/-- The variable that selects development mode when it is not empty. -/
def developmentVariable : String := "SOLO_DEV_MODE"

/-- Settings with the usual lease time and the backend of the connection. -/
def standard (ns name : String) (connection : Connection) (development : Bool) :
    ElectionSettings where
  ttl := if development then developmentTtl else defaultTtl
  ns
  name
  backend := connection.backend
  connection

/-- The variable for development mode is set to a text that is not empty. -/
def isDevelopment (env : Environment) : Bool :=
  match env.text? developmentVariable with
  | some value => value ≠ ""
  | none => false

/-- Standard settings, with the development mode of an environment. -/
def ofEnvironment (ns name : String) (connection : Connection) (env : Environment) :
    ElectionSettings :=
  standard ns name connection (isDevelopment env)

def effectiveNamespace (s : ElectionSettings) : String :=
  if s.ns = "" then defaultNamespace else s.ns

def renewDeadline (s : ElectionSettings) : Duration := s.ttl.half

def candidate (s : ElectionSettings) (identity : String) : Candidate where
  identity
  resource := leaseKey s.effectiveNamespace s.name
  ttl := s.ttl
  retryPeriod := s.retryPeriod

/-- The candidate and its handle, once the settings have been checked. -/
def prepare (s : ElectionSettings) (identity : String) :
    Except ElectionError (Candidate × LockHandle) :=
  if s.ttl.nanos = 0 then .error .zeroTtl
  else if identity = "" then .error .emptyIdentity
  else
    match openLock s.backend s.effectiveNamespace s.name identity s.connection s.renewDeadline with
    | .error e => .error (.lockSetup s.name e)
    | .ok handle => .ok (s.candidate identity, handle)

end ElectionSettings

end LeaderLease
