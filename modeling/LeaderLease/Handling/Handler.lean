import LeaderLease.Handling.Request

/-!
# Handlers

A handler takes a request and changes a state, which holds the response and whatever else handlers
share. `Handler.chain` wraps a handler so that the first middleware is the outermost, and
`Handler.caught` passes every result through an error handler, success included.
-/

set_option autoImplicit false

namespace LeaderLease

abbrev Handler (σ : Type) : Type := Request σ → σ → Except HandlingError Unit × σ

abbrev Middleware (σ : Type) : Type := Handler σ → Handler σ

/-- Called with the error of the handler below, or with none if that succeeded. -/
abbrev ErrorHandler (σ : Type) : Type :=
  Request σ → Option HandlingError → σ → Except HandlingError Unit × σ

/-- The error of a result. -/
def failure? : Except HandlingError Unit → Option HandlingError
  | .ok _ => none
  | .error e => some e

namespace Handler

variable {σ : Type}

def chain (h : Handler σ) (middlewares : List (Middleware σ)) : Handler σ :=
  middlewares.foldr (fun middleware inner => middleware inner) h

/-- The error handler sees the request as it came in, not as the inner handler changed it. -/
def caught (inner : Handler σ) (onError : ErrorHandler σ) : Handler σ := fun r s =>
  let (result, s) := inner r s
  onError r (failure? result) s

/-- Error handlers around a handler, the innermost first. -/
def caughtBy (inner : Handler σ) (handlers : List (ErrorHandler σ)) : Handler σ :=
  handlers.foldl caught inner

@[simp] theorem chain_nil (h : Handler σ) : chain h [] = h := rfl

theorem chain_append (h : Handler σ) (xs ys : List (Middleware σ)) :
    chain h (xs ++ ys) = chain (chain h ys) xs := List.foldr_append

end Handler

end LeaderLease
