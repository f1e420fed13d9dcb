import LeaderLease.Data.Table
import LeaderLease.Json.Value
import LeaderLease.Time.Duration

/-!
# Responses

What handlers report about a request: attributes, where the last value set for a name counts, and
how soon the request should be delivered again, where the shortest delay asked for counts.
-/

set_option autoImplicit false

namespace LeaderLease

structure Response where
  attributes : Table String JsonValue := Table.empty
  delay : Option Duration := none
deriving Repr

namespace Response

/-- The shorter of two durations. -/
def shorter (d e : Duration) : Duration := if d.nanos ≤ e.nanos then d else e

def setAttribute (r : Response) (name : String) (value : JsonValue) : Response :=
  { r with attributes := r.attributes.put name value }

def retryAfter (r : Response) (delay : Duration) : Response :=
  { r with delay := some (match r.delay with
    | some earlier => shorter earlier delay
    | none => delay) }

/-- One of the calls on a response. -/
inductive Call where
  | setAttribute (name : String) (value : JsonValue)
  | retryAfter (delay : Duration)
deriving Repr

def apply (r : Response) : Call → Response
  | .setAttribute name value => r.setAttribute name value
  | .retryAfter delay => r.retryAfter delay

/-- A response after calls in order. -/
def ofCalls (calls : List Call) : Response := calls.foldl apply {}

end Response

end LeaderLease
