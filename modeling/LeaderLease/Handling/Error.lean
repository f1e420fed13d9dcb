import LeaderLease.Handling.Object

/-!
# Errors of handling a request
-/

set_option autoImplicit false

namespace LeaderLease

inductive HandlingError where
  | notFound (kind : ObjectKind) (key : ObjectKey)
  /-- The store's client failed. -/
  | client (detail : String)
  | cancelled
  /-- A cause and the contexts around it, the innermost first. -/
  | other (chain : List String)
deriving DecidableEq, Repr

namespace HandlingError

/-- Of a chain only the outermost context is told. -/
def message : HandlingError → String
  | .notFound kind key => kind.text ++ " " ++ key.text ++ " not found"
  | .client detail => "Store client error: " ++ detail
  | .cancelled => "Request cancelled"
  | .other chain => chain.getLast?.getD ""

def isNotFound : HandlingError → Bool
  | .notFound _ _ => true
  | _ => false

end HandlingError

end LeaderLease
