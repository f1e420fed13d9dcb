import LeaderLease.Proofs.Nesting

/-!
# Error handlers around one another

A `Wrapper` puts an error handler around a handler, and may change the copy of the request that
goes further in. `stack` nests any number of them, and `receipts` lists what their error handlers
receive, the innermost first. A stack answers as if the handler were called once and its answer
passed from one error handler to the next (`stack_eq_foldl`). What the layers do to a part of the
state that they share, to a response for instance, is done in the same order (`view_stack`), so that
each error handler finds there what was done below it (`view_receipt`). `passesUp` puts this
together.
-/

set_option autoImplicit false

namespace LeaderLease

/-- The middleware that hands a changed copy of the request on. -/
def Middleware.passing {σ : Type} (change : Request σ → σ → Request σ × σ) : Middleware σ :=
  fun inner r s =>
    let (r, s) := change r s
    inner r s

structure Wrapper (σ : Type) where
  onError : ErrorHandler σ
  /-- What becomes of the request, as a copy, on its way further in. -/
  inward : Request σ → σ → Request σ × σ

/-- What an error handler is called with. -/
structure Receipt (σ : Type) where
  request : Request σ
  failure : Option HandlingError
  state : σ

theorem failure?_eq_none_iff (result : Except HandlingError Unit) :
    failure? result = none ↔ result = .ok () := by
  cases result <;> simp [failure?]

theorem failure?_eq_some_iff (result : Except HandlingError Unit) (e : HandlingError) :
    failure? result = some e ↔ result = .error e := by
  cases result <;> simp [failure?]

namespace Wrapper

variable {σ : Type}

def plain (onError : ErrorHandler σ) : Wrapper σ := ⟨onError, fun r s => (r, s)⟩

def around (w : Wrapper σ) : Middleware σ := fun inner =>
  Handler.caught (Middleware.passing w.inward inner) w.onError

/-- A handler in wrappers, the outermost first. -/
def stack (h : Handler σ) (ws : List (Wrapper σ)) : Handler σ := Handler.chain h (ws.map around)

def answerTo (w : Wrapper σ) (c : Receipt σ) : Except HandlingError Unit × σ :=
  w.onError c.request c.failure c.state

/-- What the error handler receives when the layer below has answered. -/
def receipt (w : Wrapper σ) (below : Handler σ) (r : Request σ) (s : σ) : Receipt σ :=
  let (result, s) := Middleware.passing w.inward below r s
  ⟨r, failure? result, s⟩

/-- What the error handlers of a stack receive, the innermost first. -/
def receipts (h : Handler σ) : List (Wrapper σ) → Request σ → σ → List (Receipt σ)
  | [], _, _ => []
  | w :: ws, r, s =>
    receipts h ws (w.inward r s).1 (w.inward r s).2 ++ [w.receipt (stack h ws) r s]

/-- The request and the state that come to what is inside the wrappers. -/
def entered : List (Wrapper σ) → Request σ → σ → Request σ × σ
  | [], r, s => (r, s)
  | w :: ws, r, s => entered ws (w.inward r s).1 (w.inward r s).2

/-- The wrappers with the requests as they are given to them, the outermost first. -/
def given : List (Wrapper σ) → Request σ → σ → List (Wrapper σ × Request σ)
  | [], _, _ => []
  | w :: ws, r, s => (w, r) :: given ws (w.inward r s).1 (w.inward r s).2

/-- An answer from below, passed through the error handler of a wrapper. -/
def respond (below : Except HandlingError Unit × σ) (c : Wrapper σ × Request σ) :
    Except HandlingError Unit × σ := c.1.onError c.2 (failure? below.1) below.2

@[simp] theorem stack_nil (h : Handler σ) : stack h [] = h := rfl

theorem stack_cons (h : Handler σ) (w : Wrapper σ) (ws : List (Wrapper σ)) (r : Request σ) (s : σ) :
    stack h (w :: ws) r s = w.answerTo (w.receipt (stack h ws) r s) := rfl

theorem stack_append (h : Handler σ) (outer inner : List (Wrapper σ)) :
    stack h (outer ++ inner) = stack (stack h inner) outer := by
  rw [stack, List.map_append, Handler.chain_append]
  rfl

/-- Wrappers that leave requests alone are error handlers and nothing more. -/
theorem stack_plain (h : Handler σ) (handlers : List (ErrorHandler σ)) :
    stack h (handlers.reverse.map plain) = Handler.caughtBy h handlers := by
  rw [stack, List.map_map, Handler.chain, List.foldr_map, List.foldr_reverse]
  rfl

theorem stack_eq_foldl (h : Handler σ) (ws : List (Wrapper σ)) (r : Request σ) (s : σ) :
    stack h ws r s =
      (given ws r s).reverse.foldl respond (h (entered ws r s).1 (entered ws r s).2) := by
  induction ws generalizing r s with
  | nil => rfl
  | cons w ws ih =>
      -- The outermost wrapper changes the request first and is the last to respond.
      have below := ih (w.inward r s).1 (w.inward r s).2
      rw [given, List.reverse_cons, List.foldl_append, entered, ← below]
      rfl

theorem length_receipts (h : Handler σ) (ws : List (Wrapper σ)) (r : Request σ) (s : σ) :
    (receipts h ws r s).length = ws.length := by
  induction ws generalizing r s with
  | nil => rfl
  | cons w ws ih => simp [receipts, ih]

/-- What the layers inside receive does not depend on those outside. -/
theorem receipts_append (h : Handler σ) (outer inner : List (Wrapper σ)) (r : Request σ) (s : σ) :
    receipts h (outer ++ inner) r s =
      receipts h inner (entered outer r s).1 (entered outer r s).2 ++
        receipts (stack h inner) outer r s := by
  induction outer generalizing r s with
  | nil => simp [receipts, entered]
  | cons w outer ih =>
      rw [List.cons_append, receipts, ih, receipts, entered, stack_append, List.append_assoc]

theorem receipts_getElem? (h : Handler σ) (outer : List (Wrapper σ)) (w : Wrapper σ)
    (inner : List (Wrapper σ)) (r : Request σ) (s : σ) :
    (receipts h (outer ++ w :: inner) r s)[inner.length]? =
      some (w.receipt (stack h inner) (entered outer r s).1 (entered outer r s).2) := by
  have last := length_receipts h inner
    (w.inward (entered outer r s).1 (entered outer r s).2).1
    (w.inward (entered outer r s).1 (entered outer r s).2).2
  rw [receipts_append, receipts, List.append_assoc, List.getElem?_append_right (by omega), last]
  simp

theorem entered_append (outer inner : List (Wrapper σ)) (r : Request σ) (s : σ) :
    entered (outer ++ inner) r s = entered inner (entered outer r s).1 (entered outer r s).2 := by
  induction outer generalizing r s with
  | nil => rfl
  | cons w outer ih => exact ih (w.inward r s).1 (w.inward r s).2

theorem entered_plain (handlers : List (ErrorHandler σ)) (r : Request σ) (s : σ) :
    entered (handlers.map plain) r s = (r, s) := by
  induction handlers with
  | nil => rfl
  | cons e handlers ih => exact ih

/-! ## What the layers leave behind -/

variable {ρ τ : Type}

/-- A part of the state, seen through `view`, is changed by acts only: by those that `own` gives of
the handler and `noted` of the error handlers, which are counted from the innermost. No request
changes it on its way inward. -/
structure Acts (view : σ → ρ) (act : ρ → τ → ρ) (own : Request σ → σ → List τ)
    (noted : Nat → Receipt σ → List τ) (h : Handler σ) (ws : List (Wrapper σ)) : Prop where
  handler : ∀ r s, view (h r s).2 = (own r s).foldl act (view s)
  wrapper : ∀ outer w inner, ws = outer ++ w :: inner → ∀ c : Receipt σ,
    view (w.answerTo c).2 = (noted inner.length c).foldl act (view c.state)
  inward : ∀ w ∈ ws, ∀ r s, view (w.inward r s).2 = view s

/-- The acts of a stack, those of the handler first. -/
def actsOf (own : Request σ → σ → List τ) (noted : Nat → Receipt σ → List τ) (h : Handler σ)
    (ws : List (Wrapper σ)) (r : Request σ) (s : σ) : List τ :=
  own (entered ws r s).1 (entered ws r s).2 ++ ((receipts h ws r s).mapIdx noted).flatten

theorem actsOf_cons (own : Request σ → σ → List τ) (noted : Nat → Receipt σ → List τ)
    (h : Handler σ) (w : Wrapper σ) (ws : List (Wrapper σ)) (r : Request σ) (s : σ) :
    actsOf own noted h (w :: ws) r s =
      actsOf own noted h ws (w.inward r s).1 (w.inward r s).2 ++
        noted ws.length (w.receipt (stack h ws) r s) := by
  simp [actsOf, receipts, entered, length_receipts]

section

variable {view : σ → ρ} {act : ρ → τ → ρ} {own : Request σ → σ → List τ}
  {noted : Nat → Receipt σ → List τ} {h : Handler σ}

theorem Acts.inside (outer : List (Wrapper σ)) {inner : List (Wrapper σ)}
    (acts : Acts view act own noted h (outer ++ inner)) : Acts view act own noted h inner where
  handler := acts.handler
  wrapper := by
    rintro between w rest rfl c
    apply acts.wrapper (outer ++ between) w rest
    rw [List.append_assoc]
  inward := by
    intro w member
    exact acts.inward w (List.mem_append_right outer member)

theorem view_stack {ws : List (Wrapper σ)} (acts : Acts view act own noted h ws) (r : Request σ)
    (s : σ) : view (stack h ws r s).2 = (actsOf own noted h ws r s).foldl act (view s) := by
  induction ws generalizing r s with
  | nil => simpa [actsOf, receipts, entered] using acts.handler r s
  | cons w ws ih =>
      -- Nothing shows of the way inward, so the acts below start from what is seen of `s`.
      have below := ih (acts.inside [w]) (w.inward r s).1 (w.inward r s).2
      rw [acts.inward w List.mem_cons_self] at below
      have answered := acts.wrapper [] w ws rfl (w.receipt (stack h ws) r s)
      rw [stack_cons, answered, actsOf_cons, List.foldl_append, ← below]
      rfl

theorem view_entered {outer inner : List (Wrapper σ)}
    (acts : Acts view act own noted h (outer ++ inner)) (r : Request σ) (s : σ) :
    view (entered outer r s).2 = view s := by
  induction outer generalizing r s with
  | nil => rfl
  | cons w outer ih =>
      have rest : Acts view act own noted h (outer ++ inner) := acts.inside [w]
      rw [entered, ih rest, acts.inward w List.mem_cons_self]

/-- What an error handler receives holds all that the layers below it did. -/
theorem view_receipt {outer inner : List (Wrapper σ)} {w : Wrapper σ}
    (acts : Acts view act own noted h (outer ++ w :: inner)) (r : Request σ) (s : σ) :
    view (w.receipt (stack h inner) (entered outer r s).1 (entered outer r s).2).state =
      (own (entered (outer ++ w :: inner) r s).1 (entered (outer ++ w :: inner) r s).2 ++
        (((receipts h (outer ++ w :: inner) r s).take inner.length).mapIdx noted).flatten).foldl
          act (view s) := by
  rcases arrived : entered outer r s with ⟨r', s'⟩
  have untouched : view (w.inward r' s').2 = view s := by
    have passed := view_entered acts r s
    rw [arrived] at passed
    rw [acts.inward w (by simp), passed]
  have below := view_stack ((acts.inside outer).inside [w]) (w.inward r' s').1 (w.inward r' s').2
  have inside : (receipts h (outer ++ w :: inner) r s).take inner.length =
      receipts h inner (w.inward r' s').1 (w.inward r' s').2 := by
    rw [receipts_append, arrived, receipts, List.append_assoc]
    exact List.take_left' (length_receipts h inner _ _)
  rw [inside, entered_append, arrived, entered, ← untouched]
  exact below

end

/-- How a handler inside error handlers answers. -/
structure PassesUp (h : Handler σ) (ws : List (Wrapper σ)) (r : Request σ) (s : σ) : Prop where
  /-- The handler's answer goes through the error handlers, the innermost first, each with the
  request as it was given to its own wrapper. -/
  answered : stack h ws r s =
    (given ws r s).reverse.foldl respond (h (entered ws r s).1 (entered ws r s).2)
  bare : ∀ handlers : List (ErrorHandler σ), ws = handlers.reverse.map plain →
    stack h ws = Handler.caughtBy h handlers ∧ entered ws r s = (r, s)
  once : (receipts h ws r s).length = ws.length
  /-- An error handler receives the request of its wrapper, and from the layer below the state and
  the error, if there is one. -/
  received : ∀ outer w inner, ws = outer ++ w :: inner →
    ∃ c below, (receipts h ws r s)[inner.length]? = some c ∧
      below = Middleware.passing w.inward (stack h inner) (entered outer r s).1
        (entered outer r s).2 ∧
      c.request = (entered outer r s).1 ∧ c.state = below.2 ∧
      (c.failure = none ↔ below.1 = .ok ()) ∧ ∀ e, c.failure = some e ↔ below.1 = .error e
  outermost : ∀ w inner, ws = w :: inner →
    ∃ c, (receipts h ws r s).getLast? = some c ∧ c.request = r ∧ stack h ws r s = w.answerTo c
  /-- If each layer leaves one mark whenever it is called, this is what they leave. -/
  marked : ∀ (τ : Type) (view : σ → List τ) (own : Request σ → σ → τ) (noted : Nat → Receipt σ → τ),
    Acts view (fun marks mark => marks ++ [mark]) (fun r s => [own r s]) (fun i c => [noted i c])
        h ws →
      view (stack h ws r s).2 =
        view s ++ own (entered ws r s).1 (entered ws r s).2 :: (receipts h ws r s).mapIdx noted
  /-- If the layers change a response only by calls on it, an error handler receives it with the
  calls of all layers below, in their order. -/
  recorded : ∀ (response : σ → Response) (own : Request σ → σ → List Response.Call)
    (noted : Nat → Receipt σ → List Response.Call),
    Acts response Response.apply own noted h ws →
      ∀ outer w inner, ws = outer ++ w :: inner →
        ∃ c, (receipts h ws r s)[inner.length]? = some c ∧
          response c.state = (own (entered ws r s).1 (entered ws r s).2 ++
            (((receipts h ws r s).take inner.length).mapIdx noted).flatten).foldl Response.apply
              (response s)

theorem passesUp (h : Handler σ) (ws : List (Wrapper σ)) (r : Request σ) (s : σ) :
    PassesUp h ws r s where
  answered := stack_eq_foldl h ws r s
  bare := by
    rintro handlers rfl
    exact ⟨stack_plain h handlers, entered_plain handlers.reverse r s⟩
  once := length_receipts h ws r s
  received := by
    rintro outer w inner rfl
    refine ⟨_, _, receipts_getElem? h outer w inner r s, rfl, rfl, rfl, ?_, ?_⟩
    · exact failure?_eq_none_iff _
    · intro e
      exact failure?_eq_some_iff _ e
  outermost := by
    rintro w inner rfl
    exact ⟨_, List.getLast?_concat, rfl, rfl⟩
  marked := by
    intro τ view own noted acts
    have each : ((receipts h ws r s).mapIdx fun i c => [noted i c]).flatten =
        (receipts h ws r s).mapIdx noted := by
      rw [List.mapIdx_eq_zipIdx_map, List.mapIdx_eq_zipIdx_map, ← List.flatMap_def]
      exact List.map_eq_flatMap.symm
    rw [view_stack acts, actsOf, each, List.foldl_append_eq_append, ← List.flatMap_def,
      List.flatMap_singleton', List.singleton_append]
  recorded := by
    rintro response own noted acts outer w inner rfl
    exact ⟨_, receipts_getElem? h outer w inner r s, view_receipt acts r s⟩

end Wrapper

/-! ## Plans -/

namespace Plan

open Wrapper

/-- Puts the request into a scope inside its own. -/
def rescoping (cancelled : Bool) (r : Request Desk) (d : Desk) : Request Desk × Desk :=
  let (scope, tokens) := d.tokens.child r.scope
  (r.withScope scope, { d with tokens := if cancelled then tokens.cancel scope else tokens })

theorem wrap_scope (cancelled : Bool) (inner : Handler Desk) :
    wrap (.scope cancelled) inner = Middleware.passing (rescoping cancelled) inner := rfl

/-- What a planned error handler logs. -/
def lineOf (r : Request Desk) (failure : Option HandlingError) : String :=
  r.key ++ " " ++ (match failure with | some e => e.message | none => "fine")

/-- The calls of a planned error handler on the response. -/
def callsOf : ErrorRule → Option HandlingError → List Response.Call
  | .always _, _ => []
  | _, none => [.setAttribute errorAttribute .null]
  | .record delay, some e => [.setAttribute errorAttribute (.text e.message), .retryAfter delay]
  | .acceptNotFound, some _ | .pass, some _ => []

theorem log_errorHandler (rule : ErrorRule) (r : Request Desk) (failure : Option HandlingError)
    (d : Desk) : (errorHandler rule r failure d).2.log = d.log ++ [lineOf r failure] := by
  cases rule <;> cases failure <;> rfl

theorem response_errorHandler (rule : ErrorRule) (r : Request Desk)
    (failure : Option HandlingError) (d : Desk) :
    (errorHandler rule r failure d).2.response =
      (callsOf rule failure).foldl Response.apply d.response := by
  cases rule <;> cases failure <;> rfl

/-- A handler that asks for a delay and fails. -/
def failing : Plan := .script [.log "working", .retry ⟨30⟩, .fail (.client "down")]

/-- The inner error handler records the failure; the outer one lets the others work in a cancelled
scope. -/
def recordedInside : List (Wrapper Desk) :=
  [⟨errorHandler .pass, rescoping true⟩, .plain (errorHandler (.record ⟨5⟩))]

/-- What is said of both wrappers is said of each, with the number of those inside. -/
theorem of_recordedInside {p : Wrapper Desk → Nat → Prop}
    (outermost : p ⟨errorHandler .pass, rescoping true⟩ 1)
    (innermost : p (.plain (errorHandler (.record ⟨5⟩))) 0) (outer : List (Wrapper Desk))
    (w : Wrapper Desk) (inner : List (Wrapper Desk))
    (split : recordedInside = outer ++ w :: inner) : p w inner.length := by
  rcases outer with _ | ⟨first, _ | ⟨second, rest⟩⟩
  · cases split
    exact outermost
  · cases split
    exact innermost
  · simp [recordedInside] at split

theorem logged_recordedInside : Acts Desk.log (fun lines line => lines ++ [line])
    (fun _ _ => ["working"]) (fun _ c => [lineOf c.request c.failure]) failing.handler
    recordedInside where
  handler _ _ := rfl
  wrapper := of_recordedInside
    (p := fun w _ => ∀ c, (w.answerTo c).2.log = c.state.log ++ [lineOf c.request c.failure])
    (fun _ => log_errorHandler _ _ _ _) fun _ => log_errorHandler _ _ _ _
  inward := by simp [recordedInside, rescoping, Wrapper.plain]

theorem recorded_recordedInside : Acts Desk.response Response.apply
    (fun _ _ => [.retryAfter ⟨30⟩])
    (fun i c => callsOf (if i = 0 then .record ⟨5⟩ else .pass) c.failure) failing.handler
    recordedInside where
  handler _ _ := rfl
  wrapper := of_recordedInside
    (p := fun w i => ∀ c, (w.answerTo c).2.response =
      (callsOf (if i = 0 then .record ⟨5⟩ else .pass) c.failure).foldl Response.apply
        c.state.response)
    (fun _ => response_errorHandler _ _ _ _) fun _ => response_errorHandler _ _ _ _
  inward := by simp [recordedInside, rescoping, Wrapper.plain]

theorem passesUp_recordedInside :
    (stack failing.handler recordedInside request {}).1 = .ok () ∧
      (stack failing.handler recordedInside request {}).2.log =
        ["working", "apps/a Store client error: down", "apps/a fine"] ∧
      ∃ c, (receipts failing.handler recordedInside request {})[1]? = some c ∧
        c.request = request ∧ c.failure = none ∧
        c.state.response = Response.ofCalls [.retryAfter ⟨30⟩,
          .setAttribute "error" (.text "Store client error: down"), .retryAfter ⟨5⟩] := by
  have passing := passesUp failing.handler recordedInside request {}
  have logged := passing.marked String Desk.log (fun _ _ => "working")
    (fun _ c => lineOf c.request c.failure) logged_recordedInside
  obtain ⟨c, below, found, passed, asGiven, -, succeeded, -⟩ := passing.received [] _ _ rfl
  obtain ⟨d, same, recorded⟩ :=
    passing.recorded Desk.response _ _ recorded_recordedInside [] _ _ rfl
  cases Option.some.inj (found.symm.trans same)
  refine ⟨?_, logged, c, found, asGiven, ?_, recorded⟩
  · rw [passing.answered]
    rfl
  · rw [succeeded, passed]
    rfl

end Plan

end LeaderLease
