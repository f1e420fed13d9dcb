import LeaderLease.Handling.Desk

/-!
# Scripted handlers

Descriptions of handlers, middlewares and error handlers over a desk, and the handlers that they
describe. Whatever they do leaves a line in the desk's log.
-/

set_option autoImplicit false

namespace LeaderLease

/-- A call through a request. -/
inductive Query where
  | get (kind : ObjectKind) (key : ObjectKey)
  | list (kind : ObjectKind) (selection : Selection)
  | delete (kind : ObjectKind) (key : ObjectKey)

/-- What a call came back with. -/
inductive Found where
  | object (o : Object)
  | listed (keys : List String)
  | deleted

/-- As a JSON value, members sorted. -/
def Found.toValue : Found → JsonValue
  | .object o =>
    .record (JsonValue.ofMembers [
      ("kind", .record (JsonValue.ofMembers [("group", .text o.kind.group),
        ("version", .text o.kind.version), ("kind", .text o.kind.kind)])),
      ("namespace", .text o.ns), ("name", .text o.name), ("data", o.data)])
  | .listed keys => .list (keys.map .text)
  | .deleted => .text "deleted"

def Query.run (r : Request Desk) (d : Desk) : Query → Except HandlingError Found × Desk
  | .get kind key =>
    let (answer, d) := r.get kind key.ns key.name d
    (answer.map .object, d)
  | .list kind selection =>
    let (answer, d) := r.list kind selection d
    (answer.map fun objects => .listed (objects.map fun o => o.key.text), d)
  | .delete kind key =>
    let (answer, d) := r.delete ⟨kind, key.ns, key.name, .null⟩ d
    (answer.map fun _ => .deleted, d)

inductive Action where
  | log (line : String)
  /-- Logs the request. -/
  | who
  | setAttribute (name : String) (value : JsonValue)
  /-- Logs how many attributes there are. -/
  | seen
  | retry (delay : Duration)
  /-- Cancels the request's scope. -/
  | cancel
  | fail (e : HandlingError)
  /-- Logs what is found. An error ends the script, unless it is to be passed over. -/
  | query (q : Query) (ignore : Bool)

/-- What a middleware does with the handler inside it. -/
inductive Wrapping where
  | trace
  | skip
  | deny (e : HandlingError)
  /-- Calls it a second time if it succeeded. -/
  | twice
  | swallow
  | replace (e : HandlingError)
  /-- Calls it in a scope inside the request's. -/
  | scope (cancelled : Bool)

inductive ErrorRule where
  | always (e : HandlingError)
  /-- Sets the attribute `error` and asks for a retry. -/
  | record (delay : Duration)
  | acceptNotFound
  | pass

inductive Plan where
  | script (actions : List Action)
  | chain (middlewares : List (String × Wrapping)) (inner : Plan)
  | caught (inner : Plan) (rule : ErrorRule)
deriving Nonempty

namespace Plan

def errorAttribute : String := "error"

/-- Performs actions until one fails. -/
def perform (r : Request Desk) : List Action → Desk → Except HandlingError Unit × Desk
  | [], d => (.ok (), d)
  | action :: actions, d =>
    match action with
    | .log line => perform r actions (d.note line)
    | .who => perform r actions (d.note r.text)
    | .setAttribute name value =>
      perform r actions { d with response := d.response.setAttribute name value }
    | .seen =>
      let count := String.ofList (Decimal.digits d.response.attributes.entries.length)
      perform r actions (d.note (count ++ " attributes"))
    | .retry delay => perform r actions { d with response := d.response.retryAfter delay }
    | .cancel => perform r actions (d.cancel r.scope)
    | .fail e => (.error e, d)
    | .query q ignore =>
      match q.run r d with
      | (.ok found, d) =>
        perform r actions
          (d.note (if ignore then "ok" else String.ofList found.toValue.toJson.text))
      | (.error e, d) => if ignore then perform r actions (d.note "ignored") else (.error e, d)

/-- Calls the handler inside as the wrapping says. -/
def wrap (w : Wrapping) (inner : Handler Desk) : Handler Desk := fun r d =>
  match w with
  | .trace => inner r d
  | .skip => (.ok (), d)
  | .deny e => (.error e, d)
  | .twice =>
    match inner r d with
    | (.ok _, d) => inner r d
    | (.error e, d) => (.error e, d)
  | .swallow => (.ok (), (inner r d).2)
  | .replace e =>
    match inner r d with
    | (.ok _, d) => (.ok (), d)
    | (.error _, d) => (.error e, d)
  | .scope cancelled =>
    let (scope, tokens) := d.tokens.child r.scope
    let tokens := if cancelled then tokens.cancel scope else tokens
    inner (r.withScope scope) { d with tokens }

/-- A middleware that logs when it begins and how it ends. -/
def middleware (name : String) (w : Wrapping) : Middleware Desk := fun inner r d =>
  let (result, d) := wrap w inner r (d.note (name ++ ":before"))
  (result, d.note (name ++ (match result with | .ok _ => ":ok" | .error _ => ":err")))

def errorHandler (rule : ErrorRule) : ErrorHandler Desk := fun r failure d =>
  let d := d.note (r.key ++ " " ++ (match failure with | some e => e.message | none => "fine"))
  match rule, failure with
  | .always e, _ => (.error e, d)
  | _, none => (.ok (), { d with response := d.response.setAttribute errorAttribute .null })
  | .record delay, some e =>
    (.ok (), { d with
      response := (d.response.setAttribute errorAttribute (.text e.message)).retryAfter delay })
  | .acceptNotFound, some e => (if e.isNotFound then .ok () else .error e, d)
  | .pass, some e => (.error e, d)

def handler : Plan → Handler Desk
  | .script actions => fun r d => perform r actions d
  | .chain middlewares inner =>
    Handler.chain inner.handler (middlewares.map fun m => middleware m.1 m.2)
  | .caught inner rule => Handler.caught inner.handler (errorHandler rule)

end Plan

end LeaderLease
