import LeaderLease.Termination.Listener

/-!
# What a listener does to its scope

A listener can be started in any tree of scopes (`Watch.beside`), and then parent, trigger, task and
owner act in any order (`Watch.run`). `Watch.isCancelled_run` says which tokens are cancelled behind
a row of events: those inside the parent if the parent was cancelled, and those inside the listener's
own scope if its task took a turn in time (`HeardIn`), with the trigger complete and the listener
not yet stopped. `Watch.keepsToScope` draws from it what the owner of a listener relies on.
-/

set_option autoImplicit false

namespace LeaderLease

/-! ## Trees of scopes -/

namespace Tokens

/-- Only scopes that were given out have been cancelled. -/
def Tidy (ts : Tokens) : Prop := ∀ n ∈ ts.cancelled, n < ts.issued

/-- The token was given out, and so were the scopes around it. -/
def Issues (ts : Tokens) (t : Token) : Prop := ∀ n ∈ t.lineage, n < ts.issued

/-- The trees that come about when tokens are given out and cancelled. -/
inductive Grown : Tokens → Prop where
  | empty : Grown {}
  | root {ts : Tokens} : Grown ts → Grown ts.root.2
  | child {ts : Tokens} {parent : Token} : Grown ts → ts.Issues parent → Grown (ts.child parent).2
  | cancel {ts : Tokens} {t : Token} : Grown ts → ts.Issues t → Grown (ts.cancel t)

variable {ts : Tokens} {t parent : Token}

theorem Grown.tidy (grown : ts.Grown) : ts.Tidy := by
  induction grown with
  | empty => nofun
  | root _ ih => exact fun n cancelled => Nat.lt_succ_of_lt (ih n cancelled)
  | child _ _ ih => exact fun n cancelled => Nat.lt_succ_of_lt (ih n cancelled)
  | @cancel ts t _ issued ih =>
      intro n cancelled
      rcases List.mem_cons.mp cancelled with rfl | earlier
      · exact issued _ (List.mem_cons_self ..)
      · exact ih n earlier

theorem issues_root (ts : Tokens) : ts.root.2.Issues ts.root.1 := by
  intro n inside
  simp only [Token.lineage, root, List.mem_singleton] at inside
  simp only [root, inside, Nat.lt_succ_self]

theorem issues_child (issued : ts.Issues parent) :
    (ts.child parent).2.Issues (ts.child parent).1 := by
  intro n inside
  rcases List.mem_cons.mp inside with rfl | around
  · exact Nat.lt_succ_self _
  · exact Nat.lt_succ_of_lt (issued n around)

/-- A new scope is none of those that a token given out earlier lies in. -/
theorem not_mem_lineage_of_issues (issued : ts.Issues t) : ts.issued ∉ t.lineage :=
  fun inside => Nat.lt_irrefl _ (issued _ inside)

/-- A new scope is cancelled exactly if it is made inside one that is. -/
theorem isCancelled_child_iff (tidy : ts.Tidy) (parent : Token) :
    (ts.child parent).2.isCancelled (ts.child parent).1 = true ↔ ts.isCancelled parent = true := by
  have fresh : ts.issued ∉ ts.cancelled := fun cancelled => Nat.lt_irrefl _ (tidy _ cancelled)
  simp [isCancelled, child, Token.lineage, fresh]

theorem isCancelled_cancel_iff (ts : Tokens) (t u : Token) :
    (ts.cancel t).isCancelled u = true ↔ ts.isCancelled u = true ∨ t.number ∈ u.lineage := by
  simp [isCancelled_cancel, or_comm]

end Tokens

namespace Listener

/-! ## Rows of events -/

namespace Event

/-- The event stops the listener, if it has not been stopped before. -/
def isEnd : Event → Bool
  | .stop | .drop => true
  | _ => false

end Event

/-- Among the events the task takes a turn with the trigger complete, and none before stops the
listener. The flag says that the trigger is complete from the start. -/
def HeardIn (complete : Bool) (es : List Event) : Prop :=
  ∃ before after, es = before ++ .turn :: after ∧ (∀ e ∈ before, e.isEnd = false) ∧
    (complete = true ∨ .completeTrigger ∈ before)

theorem not_heardIn_nil (complete : Bool) : ¬ HeardIn complete [] := by
  rintro ⟨before, after, split, -⟩
  cases before <;> cases split

theorem heardIn_cons (complete : Bool) (e : Event) (es : List Event) :
    HeardIn complete (e :: es) ↔ e = .turn ∧ complete = true ∨
      e.isEnd = false ∧ HeardIn (complete || decide (e = .completeTrigger)) es := by
  constructor
  · rintro ⟨before, after, split, running, ready⟩
    cases before with
    | nil =>
        obtain ⟨rfl, -⟩ := List.cons.inj split
        exact .inl ⟨rfl, by simpa using ready⟩
    | cons first before =>
        obtain ⟨rfl, rfl⟩ := List.cons.inj split
        refine .inr ⟨running e (List.mem_cons_self ..), before, after, rfl, ?_, ?_⟩
        · intro other member
          exact running other (List.mem_cons_of_mem _ member)
        · rw [Bool.or_eq_true, decide_eq_true_eq, or_assoc, eq_comm (a := e), ← List.mem_cons]
          exact ready
  · rintro (⟨rfl, rfl⟩ | ⟨runs, before, after, rfl, running, ready⟩)
    · exact ⟨[], es, rfl, nofun, .inl rfl⟩
    · refine ⟨e :: before, after, rfl, ?_, ?_⟩
      · intro other member
        rcases List.mem_cons.mp member with rfl | member
        · exact runs
        · exact running other member
      · rw [List.mem_cons, eq_comm (b := e), ← or_assoc]
        simpa using ready

namespace Watch

variable {w : Watch}

/-- A listener that was just started inside a scope of any tree. The trigger may be complete. -/
def beside (ts : Tokens) (parent : Token) (trigger : Trigger) (complete : Bool) : Watch :=
  let (listener, ts) := Listener.start ts parent trigger
  ⟨ts, parent, complete, listener⟩

def isRequested (w : Watch) : Bool := w.listener.isRequested w.tokens

/-! ## One event -/

@[simp] theorem step_parent (w : Watch) (e : Event) : (w.step e).2.parent = w.parent := by
  cases e <;> rfl

@[simp] theorem step_scope (w : Watch) (e : Event) :
    (w.step e).2.listener.scope = w.listener.scope := by
  cases e <;> rfl

theorem step_complete (w : Watch) (e : Event) :
    (w.step e).2.complete = (w.complete || decide (e = .completeTrigger)) := by
  cases e <;> simp [step]

theorem step_listening (w : Watch) (e : Event) :
    (w.step e).2.listener.listening = (w.listener.listening && !e.isEnd) := by
  cases e <;> simp [step, stop, Event.isEnd]

/-- All that an event can cancel. -/
theorem isCancelled_step (w : Watch) (e : Event) (t : Token) :
    (w.step e).2.tokens.isCancelled t = true ↔ w.tokens.isCancelled t = true ∨
      (e = .cancelParent ∧ w.parent.number ∈ t.lineage) ∨
      ((e = .turn ∧ w.complete = true) ∧ w.listener.listening = true ∧
        w.listener.scope.number ∈ t.lineage) := by
  cases e with
  | cancelParent => simp [step, Tokens.isCancelled_cancel_iff]
  | turn =>
      simp only [step, turn]
      cases w.listener.listening with
      | false => simp
      | true =>
          cases w.complete with
          | false => simp
          | true => simp [Tokens.isCancelled_cancel_iff]
  | completeTrigger | stop | drop => simp [step]

/-! ## Many events -/

@[simp] theorem run_nil (w : Watch) : w.run [] = ([], w) := rfl

theorem run_cons (w : Watch) (e : Event) (es : List Event) :
    w.run (e :: es) =
      ((w.step e).1.toList ++ ((w.step e).2.run es).1, ((w.step e).2.run es).2) := rfl

theorem run_parent (w : Watch) (es : List Event) : (w.run es).2.parent = w.parent := by
  induction es generalizing w with
  | nil => rfl
  | cons e es ih => rw [run_cons, ih, step_parent]

theorem run_scope (w : Watch) (es : List Event) :
    (w.run es).2.listener.scope = w.listener.scope := by
  induction es generalizing w with
  | nil => rfl
  | cons e es ih => rw [run_cons, ih, step_scope]

theorem run_listening (w : Watch) (es : List Event) :
    (w.run es).2.listener.listening = (w.listener.listening && es.all fun e => !e.isEnd) := by
  induction es generalizing w with
  | nil => simp
  | cons e es ih => rw [run_cons, ih, step_listening, List.all_cons, Bool.and_assoc]

theorem isCancelled_run (w : Watch) (es : List Event) (t : Token) :
    (w.run es).2.tokens.isCancelled t = true ↔ w.tokens.isCancelled t = true ∨
      (.cancelParent ∈ es ∧ w.parent.number ∈ t.lineage) ∨
      (HeardIn w.complete es ∧ w.listener.listening = true ∧
        w.listener.scope.number ∈ t.lineage) := by
  induction es generalizing w with
  | nil => simp [not_heardIn_nil]
  | cons e es ih =>
      rw [run_cons, ih, isCancelled_step, heardIn_cons, step_complete, step_listening, step_parent,
        step_scope]
      simp only [List.mem_cons, Bool.and_eq_true, Bool.not_eq_true',
        eq_comm (a := Event.cancelParent)]
      -- Either the first event cancels the token or a later one does, both by the same three ways.
      grind

/-- The first stop is told that it stopped the listener, if that was listening, and no other is. -/
theorem answers_run (w : Watch) (es : List Event) :
    (w.run es).1 = (List.replicate (es.countP Event.isEnd) false).set 0 w.listener.listening := by
  induction es generalizing w with
  | nil => rfl
  | cons e es ih =>
      have stopped (n : Nat) : (List.replicate n false).set 0 false = List.replicate n false := by
        cases n <;> rfl
      rw [run_cons, ih, step_listening, List.countP_cons]
      cases e with
      | stop | drop => simp [step, stop, Event.isEnd, stopped, List.replicate_succ]
      | cancelParent | completeTrigger | turn => simp [step, Event.isEnd]

/-! ## Listeners from their start on -/

/-- What becomes of a listener that was started inside `parent`, and of the scopes around it, when
events have happened in some order. -/
structure KeepsToScope (ts : Tokens) (parent : Token) (complete : Bool) (es : List Event)
    (answers : List Bool) (w : Watch) : Prop where
  requested : w.isRequested = true ↔
    ts.isCancelled parent = true ∨ .cancelParent ∈ es ∨ HeardIn complete es
  /-- A request is not taken back. -/
  stays : w.isRequested = true → ∀ more, (w.run more).2.isRequested = true
  /-- No token given out before is cancelled by the listener, wherever it lies. -/
  others : ∀ t, ts.Issues t → (w.tokens.isCancelled t = true ↔
    ts.isCancelled t = true ∨ .cancelParent ∈ es ∧ parent.number ∈ t.lineage)
  outer : w.tokens.isCancelled parent = true ↔ ts.isCancelled parent = true ∨ .cancelParent ∈ es
  /-- Once stopped, the listener hears of its parent only. -/
  stopped : (∃ e ∈ es, e.isEnd = true) → ∀ more,
    ((w.run more).2.isRequested = true ↔ w.isRequested = true ∨ .cancelParent ∈ more)
  /-- The first stop answers true, and every later one false. -/
  answers : answers = (List.replicate (es.countP Event.isEnd) false).set 0 true

section Start

variable {ts : Tokens} {parent : Token}

theorem isRequested_run (w : Watch) (around : w.parent.number ∈ w.listener.scope.lineage)
    (es : List Event) : (w.run es).2.isRequested = true ↔ w.isRequested = true ∨
      .cancelParent ∈ es ∨ HeardIn w.complete es ∧ w.listener.listening = true := by
  have own : w.listener.scope.number ∈ w.listener.scope.lineage := List.mem_cons_self ..
  rw [isRequested, isRequested, Listener.isRequested, run_scope, isCancelled_run]
  simp [Listener.isRequested, around, own]

/-- A listener is asked to terminate exactly by its parent or by a trigger that its task hears of
before the listener is stopped, and it asks nobody else, in whatever order things happen. -/
theorem keepsToScope (tidy : ts.Tidy) (issued : ts.Issues parent) (trigger : Trigger)
    (complete : Bool) (es : List Event) :
    KeepsToScope ts parent complete es ((beside ts parent trigger complete).run es).1
      ((beside ts parent trigger complete).run es).2 := by
  have around : parent.number ∈ (beside ts parent trigger complete).listener.scope.lineage :=
    List.mem_cons_of_mem _ (List.mem_cons_self ..)
  have atStart : (beside ts parent trigger complete).isRequested = true ↔
      ts.isCancelled parent = true := Tokens.isCancelled_child_iff tidy parent
  have later (more : List Event) :=
    isRequested_run ((beside ts parent trigger complete).run es).2
      (by rw [run_parent, run_scope]; exact around) more
  have others (t : Token) (given : ts.Issues t) :
      ((beside ts parent trigger complete).run es).2.tokens.isCancelled t = true ↔
        ts.isCancelled t = true ∨ .cancelParent ∈ es ∧ parent.number ∈ t.lineage := by
    have outside : ts.issued ∉ t.lineage := Tokens.not_mem_lineage_of_issues given
    rw [isCancelled_run]
    have scope : (beside ts parent trigger complete).listener.scope.number = ts.issued := rfl
    have same : (beside ts parent trigger complete).tokens.isCancelled t = ts.isCancelled t := rfl
    have above : (beside ts parent trigger complete).parent = parent := rfl
    simp [scope, outside, same, above]
  refine {
    requested := ?requested
    stays := fun asked more => (later more).mpr (.inl asked)
    others := others
    outer := ?outer
    stopped := ?stopped
    answers := answers_run _ es }
  case requested =>
    rw [isRequested_run _ around, atStart]
    simp [beside, Listener.start]
  case outer =>
    rw [others parent issued]
    simp [Token.lineage]
  case stopped =>
    rintro ⟨e, member, ends⟩ more
    have silent : ((beside ts parent trigger complete).run es).2.listener.listening = false := by
      rw [run_listening, Bool.and_eq_false_iff]
      refine .inr (List.all_eq_false.mpr ⟨e, member, ?_⟩)
      simp [ends]
    rw [later more, silent]
    simp

end Start

/-- A scope inside another one. -/
def grove : Tokens × Token :=
  let (outer, ts) := Tokens.root {}
  let (inner, ts) := ts.child outer
  (ts, inner)

/-- A trigger that completes behind the first of two stops is not heard of, but the parent is. -/
theorem keepsToScope_lateTrigger :
    grove.1.Tidy ∧ grove.1.Issues grove.2 ∧
      ((beside grove.1 grove.2 .never false).run
        [.turn, .stop, .completeTrigger, .turn, .drop]).1 = [true, false] ∧
      ((beside grove.1 grove.2 .never false).run
        [.turn, .stop, .completeTrigger, .turn, .drop]).2.isRequested = false ∧
      (((beside grove.1 grove.2 .never false).run
        [.turn, .stop, .completeTrigger, .turn, .drop]).2.run [.cancelParent]).2.isRequested =
          true := by
  have tidy : grove.1.Tidy := (Tokens.Grown.empty.root.child (Tokens.issues_root _)).tidy
  have issued : grove.1.Issues grove.2 := Tokens.issues_child (Tokens.issues_root _)
  have kept := keepsToScope tidy issued .never false [.turn, .stop, .completeTrigger, .turn, .drop]
  refine ⟨tidy, issued, kept.answers, ?_, ?_⟩
  · rw [Bool.eq_false_iff, ne_eq, kept.requested]
    rintro (cancelled | asked | heard)
    · exact absurd cancelled (by decide)
    · exact absurd asked (by decide)
    · simp [heardIn_cons, Event.isEnd] at heard
  · exact (kept.stopped ⟨.stop, by decide, rfl⟩ [.cancelParent]).mpr (.inr (by decide))

end Watch

end Listener

end LeaderLease
