import LeaderLease.Number.Decimal
import LeaderLease.Settings.Environment
import LeaderLease.Text.Blank

/-!
# Log levels and filters

A filter lets through the lines up to a level, or every line of one target. It is named by a level
word in any case or by a digit; an empty name means errors only, and without a name lines up to
`info` pass.
-/

set_option autoImplicit false

namespace LeaderLease

inductive LogLevel where
  | error
  | warn
  | info
  | debug
  | trace
deriving DecidableEq, Repr

namespace LogLevel

def rank : LogLevel → Nat
  | .error => 1
  | .warn => 2
  | .info => 3
  | .debug => 4
  | .trace => 5

def name : LogLevel → String
  | .error => "error"
  | .warn => "warn"
  | .info => "info"
  | .debug => "debug"
  | .trace => "trace"

def all : List LogLevel := [.error, .warn, .info, .debug, .trace]

end LogLevel

inductive LogFilter where
  | off
  | upTo (level : LogLevel)
  /-- Every line of a target and of those below it, and no others. -/
  | target (name : String)
deriving DecidableEq, Repr

namespace LogFilter

def variableName : String := "RUST_LOG"

/-- A level by its rank; rank zero is silence. -/
def ofRank? (rank : Nat) : Option LogFilter :=
  if rank = 0 then some .off else (LogLevel.all.find? fun l => l.rank = rank).map .upTo

/-- A level by its word. -/
def ofWord? (word : String) : Option LogFilter :=
  if word = "off" then some .off
  else if word = "" then some (.upTo .error)
  else (LogLevel.all.find? fun l => l.name = word).map .upTo

/-- What is no level names a target. -/
def parse (s : String) : LogFilter :=
  let word := Text.trimmed s
  match ((Decimal.readUnsigned (Nat.pow 2 64) word.toList).bind ofRank?) <|>
      ofWord? (Text.lowerAscii word) with
  | some f => f
  | none => .target word

def ofEnvironment (env : Environment) : LogFilter :=
  match env.text? variableName with
  | some s => parse s
  | none => .upTo .info

def text : LogFilter → String
  | .off => "off"
  | .upTo level => level.name
  | .target name => name ++ "=trace"

/-- A line of a level is let through, if it comes from a target that the filter does not name. -/
def passes (f : LogFilter) (level : LogLevel) : Bool :=
  match f with
  | .off | .target _ => false
  | .upTo most => level.rank ≤ most.rank

end LogFilter

end LeaderLease
