import LeaderLease.Data.Table
import LeaderLease.Text.Utf8

/-!
# Environment variables

Variables hold bytes. A variable whose bytes are not a text counts as unset.
-/

set_option autoImplicit false

namespace LeaderLease

abbrev Environment : Type := Table String (List UInt8)

/-- The text of a variable that is set to one. -/
def Environment.text? (e : Environment) (name : String) : Option String :=
  (e.get? name).bind Text.ofBytes?

end LeaderLease
