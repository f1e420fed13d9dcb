import LeaderLease.Logging.Filter

/-!
# Log lines
-/

set_option autoImplicit false

namespace LeaderLease

structure LogLine where
  level : LogLevel
  message : String
  /-- What the line is about, where it tells of an error. -/
  detail : Option String := none
deriving DecidableEq, Repr

namespace LogLine

/-- A line without more to tell than its message. -/
def plain (level : LogLevel) (message : String) : LogLine := ⟨level, message, none⟩

end LogLine

end LeaderLease
