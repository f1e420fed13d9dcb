import LeaderLease.Handling.Handler
import LeaderLease.Handling.Response

/-!
# A desk with a store

A state for handlers: a store of objects, the response of the request at hand, the scopes, and a
log. Objects are kept by the text of their kind, their namespace and their name, in that order. A
call in a cancelled scope is refused, and each call can be made to fail.
-/

set_option autoImplicit false

namespace LeaderLease

inductive ClientCall where
  | get
  | list
  | delete
deriving DecidableEq, Repr

structure Desk where
  tokens : Tokens := {}
  /-- Sorted, with at most one object for a place. -/
  objects : List Object := []
  refusals : Table ClientCall HandlingError := Table.empty
  response : Response := {}
  log : List String := []

/-- Where an object is kept. -/
structure Place where
  kind : String
  key : ObjectKey
deriving DecidableEq, Repr

def Place.lt (p q : Place) : Bool :=
  p.kind < q.kind || (p.kind = q.kind && p.key.le q.key && p.key ≠ q.key)

def Object.place (o : Object) : Place := ⟨o.kind.text, o.key⟩

namespace Desk

/-- Puts an object where it belongs; an earlier one at its place is replaced. -/
def insert (o : Object) : List Object → List Object
  | [] => [o]
  | p :: ps =>
    if o.place = p.place then o :: ps
    else if o.place.lt p.place then o :: p :: ps
    else p :: insert o ps

def stock (d : Desk) (objects : List Object) : Desk :=
  { d with objects := objects.foldl (fun objects o => insert o objects) d.objects }

def find? (d : Desk) (kind : ObjectKind) (key : ObjectKey) : Option Object :=
  d.objects.find? fun o => o.place = ⟨kind.text, key⟩

/-- Lets a call happen unless its scope is cancelled or the call is to fail. -/
def guarded {α : Type} (call : ClientCall) (scope : Token)
    (act : Desk → Except HandlingError α × Desk) (d : Desk) : Except HandlingError α × Desk :=
  if d.tokens.isCancelled scope then (.error .cancelled, d)
  else
    match d.refusals.get? call with
    | some e => (.error e, d)
    | none => act d

def selects (kind : ObjectKind) (selection : Selection) (o : Object) : Bool :=
  o.kind = kind && (match selection.ns with | some ns => o.ns = ns | none => true)

def client : Client Desk where
  get scope kind key := guarded .get scope fun d =>
    match d.find? kind key with
    | some o => (.ok o, d)
    | none => (.error (.notFound kind key), d)
  list scope kind selection := guarded .list scope fun d =>
    let found := d.objects.filter (selects kind selection)
    (.ok (match selection.limit with | some n => found.take n | none => found), d)
  delete scope o := guarded .delete scope fun d =>
    match d.find? o.kind o.key with
    | some _ => (.ok (), { d with objects := d.objects.filter fun p => p.place ≠ o.place })
    | none => (.error (.notFound o.kind o.key), d)

def note (d : Desk) (line : String) : Desk := { d with log := d.log ++ [line] }

def cancel (d : Desk) (scope : Token) : Desk := { d with tokens := d.tokens.cancel scope }

/-- A request for an object, with the object if it is there, in a root scope of its own. -/
def request (d : Desk) (kind : ObjectKind) (key : ObjectKey) (fromTrigger : Bool) :
    Request Desk × Desk :=
  let (scope, tokens) := d.tokens.root
  ({ client
     object := d.find? kind key
     scope
     kind
     ns := key.ns
     name := key.name
     key := key.text
     fromTrigger }, { d with tokens })

end Desk

end LeaderLease
