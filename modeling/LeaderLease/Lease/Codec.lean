import LeaderLease.Json.Decoding
import LeaderLease.Json.Reader
import LeaderLease.Lease.Basic

/-!
# The stored form of leases

Leases are stored as compact JSON with the members in a fixed order. Reading accepts the members in
any order, or an array of them; unknown members of a lease or an entry are ignored, but a duration
has none. Nanoseconds beyond a second carry into the seconds as long as those fit 64 bits.
-/

set_option autoImplicit false

namespace LeaderLease

namespace Duration

def toJson (d : Duration) : Json :=
  .ofMembers [("secs", .ofNat d.seconds), ("nanos", .ofNat d.subsecond)]

def ofJson? (j : Json) : Option Duration := do
  let [some seconds, some nanos] ← j.fields ["secs", "nanos"] true | none
  let d := ofParts (← seconds.toNatBelow? (Nat.pow 2 64)) (← nanos.toNatBelow? (Nat.pow 2 32))
  if d.nanos < limit then some d else none

end Duration

namespace Timestamp

def toJson (t : Timestamp) : Json := .ofString (String.ofList t.text)

def ofJson? (j : Json) : Option Timestamp := do read (← j.toString?).toList

end Timestamp

namespace Lease

def toJson (l : Lease) : Json :=
  .ofMembers [("holderIdentity", .ofString l.holder), ("leaseDuration", l.duration.toJson),
    ("acquireTime", l.acquired.toJson), ("renewTime", l.renewed.toJson),
    ("leaderTransitions", .ofNat l.transitions)]

def ofJson? (j : Json) : Option Lease := do
  let [some holder, some duration, some acquired, some renewed, some transitions] ← j.fields
    ["holderIdentity", "leaseDuration", "acquireTime", "renewTime", "leaderTransitions"] false
    | none
  some {
    holder := ← holder.toString?
    duration := ← Duration.ofJson? duration
    acquired := ← Timestamp.ofJson? acquired
    renewed := ← Timestamp.ofJson? renewed
    transitions := ← transitions.toNatBelow? transitionLimit }

def encode (l : Lease) : String := String.ofList l.toJson.text

def decode? (s : String) : Option Lease := do ofJson? (← Json.read s.toList)

end Lease

namespace Entry

def toJson (e : Entry) : Json :=
  .ofMembers [("version", .ofNat e.version), ("record", e.lease.toJson)]

def ofJson? (j : Json) : Option Entry := do
  let [some version, some lease] ← j.fields ["version", "record"] false | none
  some { version := ← version.toNatBelow? versionLimit, lease := ← Lease.ofJson? lease }

def encode (e : Entry) : String := String.ofList e.toJson.text

def decode? (s : String) : Option Entry := do ofJson? (← Json.read s.toList)

end Entry

end LeaderLease
