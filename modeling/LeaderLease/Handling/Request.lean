import LeaderLease.Handling.Error
import LeaderLease.Termination.Token
import LeaderLease.Text.Quoted

/-!
# Requests

A request names an object and carries the client to act with and the scope to act in. A client is
given by what its calls do to a state of any type. Deleting through a request succeeds also when the
object is already gone.
-/

set_option autoImplicit false

namespace LeaderLease

/-- Which objects of a kind to list. -/
structure Selection where
  /-- Every namespace if missing. -/
  ns : Option String
  limit : Option Nat
deriving DecidableEq, Repr

/-- The calls on an external store, with their effect on a state `σ`. -/
structure Client (σ : Type) where
  get : Token → ObjectKind → ObjectKey → σ → Except HandlingError Object × σ
  list : Token → ObjectKind → Selection → σ → Except HandlingError (List Object) × σ
  delete : Token → Object → σ → Except HandlingError Unit × σ

structure Request (σ : Type) where
  client : Client σ
  /-- Missing when the object is already gone. -/
  object : Option Object
  scope : Token
  kind : ObjectKind
  ns : String
  name : String
  key : String
  /-- Delivered because a related object changed. -/
  fromTrigger : Bool

namespace Request

variable {σ : Type}

/-- The same request in another scope. -/
def withScope (r : Request σ) (scope : Token) : Request σ := { r with scope }

def get (r : Request σ) (kind : ObjectKind) (ns name : String) (s : σ) :
    Except HandlingError Object × σ :=
  r.client.get r.scope kind ⟨ns, name⟩ s

def list (r : Request σ) (kind : ObjectKind) (selection : Selection) (s : σ) :
    Except HandlingError (List Object) × σ :=
  r.client.list r.scope kind selection s

/-- That an object is not found counts as success. -/
def delete (r : Request σ) (o : Object) (s : σ) : Except HandlingError Unit × σ :=
  match r.client.delete r.scope o s with
  | (.error e, s) => if e.isNotFound then (.ok (), s) else (.error e, s)
  | (.ok (), s) => (.ok (), s)

/-- The kind with its parts quoted. -/
def kindText (k : ObjectKind) : String :=
  "ObjectKind " ++ String.singleton '{' ++ " group: " ++ Text.quoted k.group ++ ", version: " ++
    Text.quoted k.version ++ ", kind: " ++ Text.quoted k.kind ++ " " ++ String.singleton '}'

/-- A request in one line. -/
def text (r : Request σ) : String :=
  "Request " ++ String.singleton '{' ++ " kind: " ++ kindText r.kind ++ ", key: " ++
    Text.quoted r.key ++ ", from_trigger: " ++ toString r.fromTrigger ++ ", has_object: " ++
    toString r.object.isSome ++ " " ++ String.singleton '}'

end Request

end LeaderLease
