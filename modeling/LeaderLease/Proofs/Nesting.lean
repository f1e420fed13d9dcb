import LeaderLease.Handling.Script

/-!
# Handlers inside one another

A `Journal` is a part of a state that entries are added to, one at a time. A middleware that traces
(`Journal.tracing`) adds one before it calls the handler inside and one behind its answer, which it
passes on. So a row of them around any handler adds its first entries from the outside to the inside
and its last ones the other way round (`chain_tracing`), and one that answers by itself keeps
everything inside it from being called (`chain_declining`). `Journal.composes` puts this together
with how chains are joined.
-/

set_option autoImplicit false

namespace LeaderLease

/-! ## Journals -/

/-- A row of entries in a state, and how an entry is added to it. -/
structure Journal (σ τ : Type) where
  entries : σ → List τ
  note : τ → σ → σ
  entries_note : ∀ t s, entries (note t s) = entries s ++ [t]

/-- What a middleware adds to a journal before its handler is called, and behind its answer. -/
structure Tracer (τ : Type) where
  before : τ
  after : Except HandlingError Unit → τ

namespace Journal

variable {σ τ : Type} (j : Journal σ τ)

/-- Entries added in order. -/
def noteAll (ts : List τ) (s : σ) : σ := ts.foldl (fun s t => j.note t s) s

def tracing (t : Tracer τ) : Middleware σ := fun inner r s =>
  let (result, s) := inner r (j.note t.before s)
  (result, j.note (t.after result) s)

/-- The state in which what is inside a row of tracing middlewares is called. -/
def opened (ts : List (Tracer τ)) (s : σ) : σ := j.noteAll (ts.map Tracer.before) s

/-- What a row of tracing middlewares makes of the answer that comes from the inside. -/
def closed (ts : List (Tracer τ)) (answer : Except HandlingError Unit × σ) :
    Except HandlingError Unit × σ :=
  (answer.1, j.noteAll ((ts.map fun t => t.after answer.1).reverse) answer.2)

@[simp] theorem noteAll_nil (s : σ) : j.noteAll [] s = s := rfl

@[simp] theorem noteAll_cons (t : τ) (ts : List τ) (s : σ) :
    j.noteAll (t :: ts) s = j.noteAll ts (j.note t s) := rfl

theorem noteAll_append (ts us : List τ) (s : σ) :
    j.noteAll (ts ++ us) s = j.noteAll us (j.noteAll ts s) := List.foldl_append

theorem entries_noteAll (ts : List τ) (s : σ) :
    j.entries (j.noteAll ts s) = j.entries s ++ ts := by
  induction ts generalizing s with
  | nil => simp
  | cons t ts ih =>
      rw [noteAll_cons, ih, j.entries_note]
      simp

theorem closed_cons (t : Tracer τ) (ts : List (Tracer τ)) (answer : Except HandlingError Unit × σ) :
    j.closed (t :: ts) answer =
      (answer.1, j.note (t.after answer.1) (j.closed ts answer).2) := by
  simp [closed, noteAll_append]

/-! ## Chains -/

/-- A row of tracing middlewares adds to the journal around whatever a handler does. -/
theorem chain_tracing (h : Handler σ) (ts : List (Tracer τ)) (r : Request σ) (s : σ) :
    Handler.chain h (ts.map j.tracing) r s = j.closed ts (h r (j.opened ts s)) := by
  induction ts generalizing s with
  | nil => rfl
  | cons t ts ih =>
      have inside := ih (j.note t.before s)
      calc Handler.chain h ((t :: ts).map j.tracing) r s
          = j.tracing t (Handler.chain h (ts.map j.tracing)) r s := rfl
        _ = ((Handler.chain h (ts.map j.tracing) r (j.note t.before s)).1,
              j.note (t.after (Handler.chain h (ts.map j.tracing) r (j.note t.before s)).1)
                (Handler.chain h (ts.map j.tracing) r (j.note t.before s)).2) := rfl
        _ = j.closed (t :: ts) (h r (j.opened (t :: ts) s)) := by
          rw [inside, closed_cons]
          rfl

end Journal

/-- The middleware answers the request by itself: whatever is inside it makes no difference. -/
def Middleware.Declines {σ : Type} (m : Middleware σ) (r : Request σ) (s : σ)
    (answer : Except HandlingError Unit × σ) : Prop := ∀ inner, m inner r s = answer

namespace Journal

variable {σ τ : Type} (j : Journal σ τ)

theorem chain_declining (h : Handler σ) (ts : List (Tracer τ)) (rest : List (Middleware σ))
    {m : Middleware σ} {r : Request σ} {s : σ} {answer : Except HandlingError Unit × σ}
    (declines : m.Declines r (j.opened ts s) answer) :
    Handler.chain h (ts.map j.tracing ++ m :: rest) r s = j.closed ts answer := by
  rw [Handler.chain_append, chain_tracing]
  have inside : Handler.chain h (m :: rest) = m (Handler.chain h rest) := rfl
  rw [inside, declines]

/-- The entries around what a state has gained. -/
theorem entries_closed (ts : List (Tracer τ)) {s : σ} {own : List τ}
    {answer : Except HandlingError Unit × σ}
    (gained : j.entries answer.2 = j.entries (j.opened ts s) ++ own) :
    j.entries (j.closed ts answer).2 = j.entries s ++ ts.map Tracer.before ++ own ++
      (ts.map fun t => t.after answer.1).reverse := by
  rw [closed, entries_noteAll, gained, opened, entries_noteAll]

/-- What a chain around a handler comes to, for any journal. -/
structure Composes (h : Handler σ) : Prop where
  joined : ∀ xs ys r s, Handler.chain h (xs ++ ys) r s = Handler.chain (Handler.chain h ys) xs r s
  bare : ∀ r s, Handler.chain h [] r s = h r s
  /-- Nothing else happens than what the handler does, and the notes around it. -/
  traced : ∀ ts r s, Handler.chain h (ts.map j.tracing) r s = j.closed ts (h r (j.opened ts s))
  trace : ∀ ts r s own,
    j.entries (h r (j.opened ts s)).2 = j.entries (j.opened ts s) ++ own →
      (Handler.chain h (ts.map j.tracing) r s).1 = (h r (j.opened ts s)).1 ∧
      j.entries (Handler.chain h (ts.map j.tracing) r s).2 =
        j.entries s ++ ts.map Tracer.before ++ own ++
          (ts.map fun t => t.after (h r (j.opened ts s)).1).reverse
  /-- The answer of a middleware that declines to go on is all that counts: neither the handler nor
  the middlewares behind that one occur in it. -/
  declined : ∀ ts (m : Middleware σ) rest r s answer, m.Declines r (j.opened ts s) answer →
    Handler.chain h (ts.map j.tracing ++ m :: rest) r s = j.closed ts answer ∧
      (j.closed ts answer).1 = answer.1 ∧
      ∀ own, j.entries answer.2 = j.entries (j.opened ts s) ++ own →
        j.entries (j.closed ts answer).2 = j.entries s ++ ts.map Tracer.before ++ own ++
          (ts.map fun t => t.after answer.1).reverse

/-- Chains around any handler are joined like lists, and trace in the order in which they are
nested. -/
theorem composes (h : Handler σ) : j.Composes h where
  joined xs ys r s := by rw [Handler.chain_append]
  bare r s := rfl
  traced ts r s := j.chain_tracing h ts r s
  trace ts r s own gained := by
    rw [j.chain_tracing h ts r s]
    exact ⟨rfl, j.entries_closed ts gained⟩
  declined ts m rest r s answer declines :=
    ⟨j.chain_declining h ts rest declines, rfl, fun own gained => j.entries_closed ts gained⟩

end Journal

/-! ## Plans -/

/-- The log of a desk. -/
def Desk.journal : Journal Desk String where
  entries := Desk.log
  note line d := d.note line
  entries_note _ _ := rfl

namespace Plan

/-- What a planned middleware logs. -/
def tracer (name : String) : Tracer String where
  before := name ++ ":before"
  after result := name ++ (match result with | .ok _ => ":ok" | .error _ => ":err")

theorem middleware_trace (name : String) :
    middleware name .trace = Desk.journal.tracing (tracer name) := rfl

/-- A planned refusal keeps whatever is inside it from being called. -/
theorem declines_deny (name : String) (e : HandlingError) (r : Request Desk) (d : Desk) :
    (middleware name (.deny e)).Declines r d
      (.error e, (d.note (name ++ ":before")).note (name ++ ":err")) := fun _ => rfl

/-- A handler that deletes the object of its request. -/
def deleting : Plan :=
  .script [.log "deleting", .query (.delete ⟨"", "v1", "Pod"⟩ ⟨"apps", "a"⟩) false]

def request : Request Desk := (Desk.request {} ⟨"", "v1", "Pod"⟩ ⟨"apps", "a"⟩ false).1

theorem composes_denied :
    ((Plan.chain [("audit", .trace), ("auth", .deny .cancelled), ("again", .twice)]
        deleting).handler request {}).1 = .error .cancelled ∧
      ((Plan.chain [("audit", .trace), ("auth", .deny .cancelled), ("again", .twice)]
        deleting).handler request {}).2.log =
          ["audit:before", "auth:before", "auth:err", "audit:err"] := by
  have denied := (Desk.journal.composes deleting.handler).declined [tracer "audit"]
    (middleware "auth" (.deny .cancelled)) [middleware "again" .twice] request {} _
    (declines_deny _ _ _ _)
  obtain ⟨answer, -, entries⟩ := denied
  have log := entries ["auth:before", "auth:err"] rfl
  have planned : (Plan.chain [("audit", .trace), ("auth", .deny .cancelled), ("again", .twice)]
      deleting).handler = Handler.chain deleting.handler ([tracer "audit"].map Desk.journal.tracing ++
        middleware "auth" (.deny .cancelled) :: [middleware "again" .twice]) := by
    simp only [Plan.handler, List.map_cons, List.map_nil, middleware_trace]
    rfl
  rw [planned, answer]
  exact ⟨rfl, log⟩

end Plan

end LeaderLease
