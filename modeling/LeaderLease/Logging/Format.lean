import LeaderLease.Settings.Environment
import LeaderLease.Text.Blank

/-!
# Log formats

Log lines are plain text or JSON. The word `json` selects the latter, in any case and with blanks
around it; everything else is plain text.
-/

set_option autoImplicit false

namespace LeaderLease

inductive LogFormat where
  | text
  | json
deriving DecidableEq, Repr

namespace LogFormat

def variableName : String := "LOG_FORMAT"

def parse (s : String) : LogFormat :=
  if Text.lowerAscii (Text.trimmed s) = "json" then .json else .text

def ofEnvironment (env : Environment) : LogFormat := parse ((env.text? variableName).getD "")

end LogFormat

end LeaderLease
