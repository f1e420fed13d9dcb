import LeaderLease.Election.Contest
import LeaderLease.Proofs.Deeds

/-!
# What one move of a contest can do

`Contest.Change` lists what a move leads to, with the contest behind it written out: one entry for
each kind of step of one run, and one for each kind of event around it. `change_of_step` says that
the list is complete. The effects of a run's step change nothing of its member but what they name,
and every fact that they add is about that member.
-/

set_option autoImplicit false

namespace LeaderLease

namespace Member

def after (id : Nat) (m : Member) (step : Run × List Effect) : Member :=
  (Contest.affectAll id { m with run := step.1 } step.2).1

def facts (id : Nat) (now : Instant) (m : Member) (step : Run × List Effect) : List Fact :=
  (Contest.affectAll id { m with run := step.1 } step.2).2 ++ Contest.arrival id now step.1

/-- A move by which a member is asked to stop: its context is cancelled, or its listener's task runs
with the trigger complete. -/
def IsAskedBy (id : Nat) (m : Member) : Move → Prop
  | .cancel i => i = id
  | .listen i => i = id ∧ m.listening = true ∧ m.triggered = true
  | _ => False

def requestFacts (id : Nat) (m : Member) : List Fact :=
  .requested id :: if m.work = .running ∧ m.workScope = false then [.workCancelled id] else []

end Member

def readFacts (id : Nat) (now : Instant) : ReadAnswer → List Fact
  | .ok (some e) => [.observed id now e]
  | _ => []

def writeFacts (id : Nat) (now : Instant) (key : String) : WriteAnswer → List Fact
  | .ok e => [.stored (some id) now key e, .observed id now e]
  | .error _ => []

def foreignFacts (now : Instant) (key : String) : WriteAnswer → List Fact
  | .ok e => [.stored none now key e]
  | .error _ => []

namespace Contest

/-- The contests that a move can lead to. -/
inductive Change (c : Contest) : Move → Contest → Prop where
  | start {id : Nat} {candidate : Candidate} (unused : Fact.started id ∉ c.log) :
      Change c (.start id candidate)
        ⟨c.now, c.store, c.members.put id { run := .start candidate c.now },
          c.log ++ [.started id]⟩
  | act {id : Nat} {wall : Timestamp} {m : Member} {next : Run} {effects : List Effect}
      (present : c.members.get? id = some m)
      (acts : m.run.Acts (m.view c.now wall) next effects) :
      Change c (.act id wall)
        ⟨c.now, c.store, c.members.put id (m.after id (next, effects)),
          c.log ++ m.facts id c.now (next, effects)⟩
  | read {id : Nat} {m : Member} {goal : Goal} {wall : Timestamp} {next : Run}
      {effects : List Effect} (present : c.members.get? id = some m)
      (stage : m.run.stage = .reading goal wall)
      (reads : m.run.Reads c.now goal wall (.ok (c.store.get? m.run.candidate.resource))
        next effects) :
      Change c (.call id)
        ⟨c.now, c.store, c.members.put id (m.after id (next, effects)),
          c.log ++ (readFacts id c.now (.ok (c.store.get? m.run.candidate.resource)) ++
            m.facts id c.now (next, effects))⟩
  | write {id : Nat} {m : Member} {w : Write} {next : Run} {effects : List Effect}
      (present : c.members.get? id = some m) (called : m.run.call? = some (.write w))
      (writes : m.run.Writes c.now (c.store.write m.run.candidate.resource w).1 next effects) :
      Change c (.call id)
        ⟨c.now, (c.store.write m.run.candidate.resource w).2,
          c.members.put id (m.after id (next, effects)),
          c.log ++ (writeFacts id c.now m.run.candidate.resource
            (c.store.write m.run.candidate.resource w).1 ++
            m.facts id c.now (next, effects))⟩
  | request {move : Move} {id : Nat} {m : Member} (present : c.members.get? id = some m)
      (asks : m.IsAskedBy id move) (unasked : m.scope = false) :
      Change c move
        ⟨c.now, c.store, c.members.put id { m with scope := true, workScope := true },
          c.log ++ m.requestFacts id⟩
  | repeated {move : Move} {id : Nat} {m : Member} (present : c.members.get? id = some m)
      (asks : m.IsAskedBy id move) (asked : m.scope = true) : Change c move c
  | trigger {id : Nat} {m : Member} (present : c.members.get? id = some m) :
      Change c (.trigger id)
        ⟨c.now, c.store, c.members.put id { m with triggered := true }, c.log⟩
  | finish {id : Nat} {m : Member} {result : WorkResult} (present : c.members.get? id = some m)
      (running : m.work = .running) :
      Change c (.finish id result)
        ⟨c.now, c.store, c.members.put id { m with work := .finished result },
          c.log ++ [.workEnded id result]⟩
  | vanish {id : Nat} {m : Member} (present : c.members.get? id = some m) :
      Change c (.vanish id) ⟨c.now, c.store, c.members.erase id, c.log ++ [.vanished id]⟩
  | foreign {key : String} {w : Write} :
      Change c (.foreign key w)
        ⟨c.now, (c.store.write key w).2, c.members,
          c.log ++ foreignFacts c.now key (c.store.write key w).1⟩
  | pass {time : Duration} :
      Change c (.pass time) ⟨c.now + time.nanos, c.store, c.members, c.log⟩

theorem stage_of_get {r : Run} (called : r.call? = some .get) :
    ∃ goal wall, r.stage = .reading goal wall := by
  cases stage : r.stage with
  | reading goal wall => exact ⟨goal, wall, rfl⟩
  | _ => simp [Run.call?, stage] at called

theorem change_of_request {c : Contest} {id : Nat} {m : Member} {move : Move}
    (present : c.members.get? id = some m) (asks : m.IsAskedBy id move) :
    c.Change move (c.request id m) := by
  cases asked : m.scope with
  | true =>
      have same : c.request id m = c := by simp only [request, asked, if_true]
      rw [same]
      exact .repeated present asks asked
  | false =>
      simp only [request, asked, Bool.false_eq_true, if_false]
      exact .request present asks asked

theorem change_of_read {c : Contest} {id : Nat} {m : Member}
    (present : c.members.get? id = some m) (called : m.run.call? = some .get) :
    c.Change (.call id) (c.read id m) := by
  obtain ⟨goal, wall, stage⟩ := stage_of_get called
  have reads := Run.reads_of_receiveRead stage c.now
    (.ok (c.store.get? m.run.candidate.resource))
  have change := Change.read present stage reads
  cases seen : c.store.get? m.run.candidate.resource <;>
    simpa [read, settle, note, put, Member.after, Member.facts, readFacts, seen] using change

theorem change_of_write {c : Contest} {id : Nat} {m : Member} {w : Write}
    (present : c.members.get? id = some m) (called : m.run.call? = some (.write w)) :
    c.Change (.call id) (c.write id m w) := by
  have writes := Run.writes_of_receiveWrite called c.now
    (c.store.write m.run.candidate.resource w).1
  have change := Change.write present called writes
  cases answer : (c.store.write m.run.candidate.resource w).1 <;>
    simpa [write, settle, note, put, Member.after, Member.facts, writeFacts, answer] using change

theorem change_of_step {c next : Contest} {move : Move} (run : c.step move = some next) :
    c.Change move next := by
  cases move with
  | start id candidate =>
      simp only [step] at run
      split at run
      · cases run
      · rename_i unused
        cases Option.some.inj run
        exact .start (by simpa using unused)
  | act id wall =>
      obtain ⟨m, present, run⟩ := Option.bind_eq_some_iff.mp run
      obtain ⟨⟨after, effects⟩, acts, run⟩ := Option.bind_eq_some_iff.mp run
      cases Option.some.inj run
      exact .act present (Run.acts_of_act acts)
  | call id =>
      obtain ⟨m, present, run⟩ := Option.bind_eq_some_iff.mp run
      obtain ⟨call, called, run⟩ := Option.bind_eq_some_iff.mp run
      cases call with
      | get =>
          cases Option.some.inj run
          exact change_of_read present called
      | write w =>
          cases Option.some.inj run
          exact change_of_write present called
  | cancel id =>
      obtain ⟨m, present, run⟩ := Option.bind_eq_some_iff.mp run
      cases Option.some.inj run
      exact change_of_request present rfl
  | trigger id =>
      obtain ⟨m, present, run⟩ := Option.bind_eq_some_iff.mp run
      cases Option.some.inj run
      exact .trigger present
  | listen id =>
      obtain ⟨m, present, run⟩ := Option.bind_eq_some_iff.mp run
      split at run
      · rename_i complete
        cases Option.some.inj run
        exact change_of_request present ⟨rfl, complete⟩
      · cases run
  | finish id result =>
      obtain ⟨m, present, run⟩ := Option.bind_eq_some_iff.mp run
      split at run
      · rename_i running
        cases Option.some.inj run
        exact .finish present running
      · cases run
  | vanish id =>
      obtain ⟨m, present, run⟩ := Option.bind_eq_some_iff.mp run
      cases Option.some.inj run
      exact .vanish present
  | foreign key w =>
      have change : c.Change (.foreign key w) _ := .foreign
      simp only [step, Option.some.injEq] at run
      subst run
      cases answer : (c.store.write key w).1 <;>
        simpa [note, foreignFacts, answer] using change
  | pass time =>
      cases Option.some.inj run
      exact .pass

/-! ## What the effects of a step leave alone -/

@[simp] theorem affectAll_nil (id : Nat) (m : Member) : affectAll id m [] = (m, []) := rfl

theorem affectAll_cons (id : Nat) (m : Member) (effect : Effect) (effects : List Effect) :
    affectAll id m (effect :: effects) =
      ((affectAll id (affect id m effect).1 effects).1,
        (affect id m effect).2 ++ (affectAll id (affect id m effect).1 effects).2) := rfl

theorem affect_run (id : Nat) (m : Member) (effect : Effect) :
    (affect id m effect).1.run = m.run := by
  cases effect <;> simp only [affect]
  split <;> rfl

theorem affect_scope (id : Nat) (m : Member) (effect : Effect) :
    (affect id m effect).1.scope = m.scope := by
  cases effect <;> simp only [affect]
  split <;> rfl

theorem affect_work {id : Nat} {m : Member} {effect : Effect} (noStart : effect ≠ .startWork)
    (noAbort : effect ≠ .abortWork) : (affect id m effect).1.work = m.work := by
  cases effect with
  | startWork => exact absurd rfl noStart
  | abortWork => exact absurd rfl noAbort
  | _ => rfl

theorem affect_state {id : Nat} {m : Member} {effect : Effect}
    (silent : ∀ state, effect ≠ .publish state) : (affect id m effect).1.state = m.state := by
  cases effect with
  | publish state => exact absurd rfl (silent state)
  | abortWork =>
      simp only [affect]
      split <;> rfl
  | _ => rfl

/-- A fact that goes with an effect: what a member publishes, reports or announces, and what
happens to its work. -/
def IsNotice (id : Nat) : Fact → Prop
  | .reported i _ | .published i _ | .workStarted i _ | .workCancelled i | .workAborted i
  | .announced i => i = id
  | _ => False

theorem isNotice_affect {id : Nat} {m : Member} {effect : Effect} :
    ∀ fact ∈ (affect id m effect).2, IsNotice id fact := by
  intro fact member
  cases effect with
  | cancelWork =>
      simp only [affect] at member
      split at member
      · cases member
      · cases List.mem_singleton.mp member
        rfl
  | abortWork =>
      simp only [affect] at member
      split at member
      · cases List.mem_singleton.mp member
        rfl
      · cases member
  | stopListening => cases member
  | publish state | report holder | startWork | announceDone =>
      cases List.mem_singleton.mp member
      rfl

theorem publish_of_affectAll {id : Nat} {m : Member} {effects : List Effect}
    {state : ElectionState} (published : .published id state ∈ (affectAll id m effects).2) :
    .publish state ∈ effects := by
  induction effects generalizing m with
  | nil => cases published
  | cons effect effects ih =>
      rw [affectAll_cons] at published
      rcases List.mem_append.mp published with here | later
      · cases effect with
        | publish other =>
            cases List.mem_singleton.mp here
            exact List.mem_cons_self
        | cancelWork | abortWork =>
            simp only [affect] at here
            split at here <;> simp at here
        | report | startWork | stopListening | announceDone => simp [affect] at here
      · exact List.mem_cons_of_mem _ (ih later)

theorem affectAll_run (id : Nat) (m : Member) (effects : List Effect) :
    (affectAll id m effects).1.run = m.run := by
  induction effects generalizing m with
  | nil => rfl
  | cons effect effects ih => rw [affectAll_cons, ih, affect_run]

theorem affectAll_scope (id : Nat) (m : Member) (effects : List Effect) :
    (affectAll id m effects).1.scope = m.scope := by
  induction effects generalizing m with
  | nil => rfl
  | cons effect effects ih => rw [affectAll_cons, ih, affect_scope]

theorem affectAll_work {id : Nat} {m : Member} {effects : List Effect}
    (noStart : .startWork ∉ effects) (noAbort : .abortWork ∉ effects) :
    (affectAll id m effects).1.work = m.work := by
  induction effects generalizing m with
  | nil => rfl
  | cons effect effects ih =>
      rw [affectAll_cons, ih (fun member => noStart (List.mem_cons_of_mem _ member))
        (fun member => noAbort (List.mem_cons_of_mem _ member))]
      exact affect_work (fun same => noStart (same ▸ List.mem_cons_self))
        (fun same => noAbort (same ▸ List.mem_cons_self))

theorem affectAll_state {id : Nat} {m : Member} {effects : List Effect}
    (silent : ∀ state, .publish state ∉ effects) :
    (affectAll id m effects).1.state = m.state := by
  induction effects generalizing m with
  | nil => rfl
  | cons effect effects ih =>
      rw [affectAll_cons, ih fun state member => silent state (List.mem_cons_of_mem _ member)]
      exact affect_state fun state same => silent state (same ▸ List.mem_cons_self)

/-- What a reading of facts shows of the effects of a step, if it shows of each effect the same
whatever the member. -/
theorem filterMap_affectAll {α : Type} {id : Nat} {f : Fact → Option α} {g : Effect → Option α}
    (shown : ∀ m effect, (affect id m effect).2.filterMap f = (g effect).toList) (m : Member)
    (effects : List Effect) : (affectAll id m effects).2.filterMap f = effects.filterMap g := by
  induction effects generalizing m with
  | nil => rfl
  | cons effect effects ih =>
      rw [affectAll_cons, List.filterMap_append, shown, ih]
      cases value : g effect <;> simp [value]

theorem isNotice_affectAll (id : Nat) (m : Member) (effects : List Effect) :
    ∀ fact ∈ (affectAll id m effects).2, IsNotice id fact := by
  induction effects generalizing m with
  | nil => intro fact member; cases member
  | cons effect effects ih =>
      intro fact member
      rcases List.mem_append.mp member with member | member
      · exact isNotice_affect fact member
      · exact ih _ fact member

end Contest

namespace Member

@[simp] theorem after_run (id : Nat) (m : Member) (step : Run × List Effect) :
    (m.after id step).run = step.1 := Contest.affectAll_run id _ step.2

@[simp] theorem after_scope (id : Nat) (m : Member) (step : Run × List Effect) :
    (m.after id step).scope = m.scope := Contest.affectAll_scope id _ step.2

theorem after_work {id : Nat} {m : Member} {step : Run × List Effect}
    (noStart : .startWork ∉ step.2) (noAbort : .abortWork ∉ step.2) :
    (m.after id step).work = m.work := Contest.affectAll_work noStart noAbort

theorem after_state {id : Nat} {m : Member} {step : Run × List Effect}
    (silent : ∀ state, .publish state ∉ step.2) : (m.after id step).state = m.state :=
  Contest.affectAll_state silent

theorem publish_of_facts {id : Nat} {now : Instant} {m : Member} {step : Run × List Effect}
    {state : ElectionState} (published : .published id state ∈ m.facts id now step) :
    .publish state ∈ step.2 := by
  rcases List.mem_append.mp published with effect | arrived
  · exact Contest.publish_of_affectAll effect
  · unfold Contest.arrival at arrived
    split at arrived <;> simp at arrived

end Member

/-- A summary of the log does not change by facts that it leaves out. -/
theorem Log.foldl_unchanged {α : Type} {f : α → Fact → α} {facts : Log}
    (silent : ∀ fact ∈ facts, ∀ a, f a fact = a) (a : α) : facts.foldl f a = a := by
  induction facts with
  | nil => rfl
  | cons fact facts ih =>
      rw [List.foldl_cons, silent fact List.mem_cons_self]
      exact ih fun other member => silent other (List.mem_cons_of_mem _ member)

end LeaderLease
