import LeaderLease.Proofs.Passage

/-!
# What shows of a run's life

`Log.milestones` keeps of the log what a run shows of its life: the states that it publishes, the
start of its work, the reason for which leading ends, its announcement and its outcome. `lifetime`
is the whole of it for a run that ends. `marked_of_play` says which part of a lifetime belongs to
each stage of a run.
-/

set_option autoImplicit false

namespace LeaderLease

inductive Milestone where
  | published (state : ElectionState)
  | workStarted
  | relieved (time : Instant) (reason : Reason)
  | announced
  | ended (outcome : Outcome)
deriving DecidableEq, Repr

def Fact.milestone? (id : Nat) : Fact → Option Milestone
  | .published i state => if i = id then some (.published state) else none
  | .workStarted i _ => if i = id then some .workStarted else none
  | .relieved i time reason => if i = id then some (.relieved time reason) else none
  | .announced i => if i = id then some .announced else none
  | .ended i outcome => if i = id then some (.ended outcome) else none
  | _ => none

def Log.milestones (log : Log) (id : Nat) : List Milestone := log.filterMap (Fact.milestone? id)

/-- How a run comes to the end of its candidacy. -/
inductive Departure where
  /-- It was asked to stop before it led. -/
  | withdrawn
  /-- It has led. -/
  | relieved (time : Instant) (reason : Reason)
deriving DecidableEq, Repr

namespace Departure

def verdict : Departure → Verdict
  | .relieved _ (.workEnded result) => Verdict.ofResult result
  | .withdrawn | .relieved _ .requested | .relieved _ .lost => .stopped

def milestones : Departure → List Milestone
  | .withdrawn => [.published .acquiring]
  | .relieved time reason =>
    [.published .acquiring, .published .leading, .workStarted, .relieved time reason]

end Departure

/-- The outcome of a verdict, for a run that was or was not asked to stop by the time it closes. -/
def Verdict.outcome (resource : String) (asked : Bool) : Verdict → Outcome
  | .workFailed message => .workFailed message
  | .stopped => if asked then .graceful else .lost resource

/-- The life of a run that ends. -/
def lifetime (d : Departure) (outcome : Outcome) : List Milestone :=
  d.milestones ++ [.published .released] ++
    (if outcome = .graceful then [.announced] else []) ++ [.ended outcome]

/-! ## The milestones of a step -/

def Effect.milestone? : Effect → Option Milestone
  | .publish state => some (.published state)
  | .startWork => some .workStarted
  | .announceDone => some .announced
  | _ => none

def Stage.milestone? (now : Instant) : Stage → Option Milestone
  | .relieving reason => some (.relieved now reason)
  | .ended outcome => some (.ended outcome)
  | _ => none

/-- The milestones of a step that leads to a run by its effects. -/
def Run.milestones (r : Run) (now : Instant) (effects : List Effect) : List Milestone :=
  effects.filterMap Effect.milestone? ++ (r.stage.milestone? now).toList

theorem Run.milestones_of_silent {r : Run} {now : Instant} {effects : List Effect}
    (silent : effects.filterMap Effect.milestone? = []) (quiet : r.stage.milestone? now = none) :
    r.milestones now effects = [] := by
  rw [milestones, silent, quiet]
  rfl

theorem Run.mem_milestones {r : Run} {now : Instant} {effects : List Effect} {mark : Milestone} :
    mark ∈ r.milestones now effects ↔
      (∃ effect ∈ effects, effect.milestone? = some mark) ∨ r.stage.milestone? now = some mark := by
  simp [milestones]

namespace Log

variable {id : Nat} {now : Instant} {m : Member} {log facts : Log}

theorem milestones_append (log more : Log) (id : Nat) :
    milestones (log ++ more) id = log.milestones id ++ more.milestones id :=
  List.filterMap_append

theorem milestones_of_elsewhere (elsewhere : ∀ fact ∈ facts, fact.member? ≠ some id) :
    facts.milestones id = [] := by
  refine List.filterMap_eq_nil_iff.mpr fun fact member => ?_
  have other := elsewhere fact member
  cases fact with
  | published i _ | workStarted i _ | relieved i _ _ | announced i | ended i _ =>
      exact if_neg fun same => other (congrArg some same)
  | _ => rfl

theorem milestones_affect (id : Nat) (m : Member) (effect : Effect) :
    milestones (Contest.affect id m effect).2 id = effect.milestone?.toList := by
  cases effect with
  | cancelWork | abortWork =>
      simp only [Contest.affect]
      split <;> rfl
  | _ => simp [milestones, Contest.affect, Fact.milestone?, Effect.milestone?]

theorem milestones_facts (id : Nat) (now : Instant) (m : Member) (r : Run)
    (effects : List Effect) :
    milestones (m.facts id now (r, effects)) id = r.milestones now effects := by
  have ofEffects : milestones (Contest.affectAll id { m with run := r } effects).2 id =
      effects.filterMap Effect.milestone? :=
    Contest.filterMap_affectAll (milestones_affect id) _ effects
  have ofArrival : milestones (Contest.arrival id now r) id =
      (r.stage.milestone? now).toList := by
    unfold Contest.arrival
    cases r.stage <;> simp [milestones, Fact.milestone?, Stage.milestone?]
  rw [Member.facts, milestones_append, ofEffects, ofArrival, Run.milestones]

theorem milestones_act {log' : Log} {r : Run} {effects : List Effect}
    (grown : log' = log ++ m.facts id now (r, effects)) :
    log'.milestones id = log.milestones id ++ r.milestones now effects := by
  rw [grown, milestones_append, milestones_facts]

theorem milestones_read {log' : Log} {answer : ReadAnswer} {r : Run} {effects : List Effect}
    (grown : log' = log ++ (readFacts id now answer ++ m.facts id now (r, effects))) :
    log'.milestones id = log.milestones id ++ r.milestones now effects := by
  have looked : milestones (readFacts id now answer) id = [] := by
    unfold readFacts
    split <;> rfl
  rw [grown, milestones_append, milestones_append, looked, List.nil_append, milestones_facts]

theorem milestones_write {log' : Log} {key : String} {answer : WriteAnswer} {r : Run}
    {effects : List Effect}
    (grown : log' = log ++ (writeFacts id now key answer ++ m.facts id now (r, effects))) :
    log'.milestones id = log.milestones id ++ r.milestones now effects := by
  have wrote : milestones (writeFacts id now key answer) id = [] := by
    cases answer <;> rfl
  rw [grown, milestones_append, milestones_append, wrote, List.nil_append, milestones_facts]

theorem milestones_request {log' : Log} (grown : log' = log ++ m.requestFacts id) :
    log'.milestones id = log.milestones id := by
  have asked : milestones (m.requestFacts id) id = [] := by
    unfold Member.requestFacts
    split <;> rfl
  rw [grown, milestones_append, asked, List.append_nil]

theorem milestones_finish {log' : Log} {result : WorkResult}
    (grown : log' = log ++ [.workEnded id result]) :
    log'.milestones id = log.milestones id := by
  rw [grown, milestones_append]
  exact List.append_nil _

theorem milestones_aside {log' : Log} (elsewhere : ∀ fact ∈ facts, fact.member? ≠ some id)
    (grown : log' = log ++ facts) : log'.milestones id = log.milestones id := by
  rw [grown, milestones_append, milestones_of_elsewhere elsewhere, List.append_nil]

end Log

theorem Effect.milestone?_observe (r : Run) (now : Instant) (e : Entry) :
    (r.observe now e).2.filterMap Effect.milestone? = [] := by
  simp only [Run.observe]
  cases r.sighting.news e <;> rfl

/-! ## The milestones of each stage -/

def Goal.Marked (marks : List Milestone) : Goal → Prop
  | .acquire _ => marks = [.published .acquiring]
  | .lead _ _ => marks = [.published .acquiring, .published .leading, .workStarted]
  | .windDown _ _ => ∃ time, marks = (Departure.relieved time .requested).milestones

/-- The milestones of a run at the stage; `Checked` says how the outcome was found. -/
def Stage.Marked (Checked : Verdict → Outcome → Prop) (marks : List Milestone) : Stage → Prop
  | .fresh => marks = []
  | .waiting goal | .reading goal _ | .writing goal _ => goal.Marked marks
  | .elected => marks = [.published .acquiring]
  | .installing => marks = [.published .acquiring, .published .leading]
  | .relieving reason => ∃ time, marks = (Departure.relieved time reason).milestones
  | .aborting => ∃ d : Departure, marks = d.milestones ∧ d.verdict = .stopped
  | .releasing verdict _ _ | .retiring verdict =>
    ∃ d : Departure, marks = d.milestones ∧ d.verdict = verdict
  | .closing verdict =>
    ∃ d : Departure, marks = d.milestones ++ [.published .released] ∧ d.verdict = verdict
  | .announcing => ∃ d : Departure, marks = d.milestones ++ [.published .released] ∧
    d.verdict = .stopped ∧ Checked .stopped .graceful
  | .ended outcome => ∃ d : Departure, marks = lifetime d outcome ∧ Checked d.verdict outcome
  | .broken => ∃ d : Departure, marks <+: d.milestones

theorem Goal.marked_ticked {goal : Goal} {marks : List Milestone} {now : Instant} :
    (goal.ticked now).Marked marks ↔ goal.Marked marks := by
  cases goal <;> simp only [Goal.ticked, Goal.Marked]

/-- A run that has not come to its end shows no more than a part of leaving. -/
theorem Goal.Marked.begun {goal : Goal} {marks : List Milestone} (marked : goal.Marked marks) :
    ∃ d : Departure, marks <+: d.milestones := by
  cases goal with
  | acquire ticker => exact ⟨.withdrawn, marked ▸ List.prefix_rfl⟩
  | lead ticker renewedAt =>
      -- Any departure of a run that has led will do, since all of them begin alike.
      refine ⟨.relieved 0 .lost, marked ▸ ?_⟩
      exact List.prefix_append _ [Milestone.relieved 0 .lost]
  | windDown ticker renewedAt =>
      obtain ⟨time, rfl⟩ := marked
      exact ⟨_, List.prefix_rfl⟩

namespace Stage.Marked

variable {Checked : Verdict → Outcome → Prop} {marks : List Milestone} {r next : Run}
  {effects : List Effect} {now : Instant}

theorem mono {Checked' : Verdict → Outcome → Prop} {stage : Stage}
    (marked : stage.Marked Checked marks)
    (more : ∀ verdict outcome, Checked verdict outcome → Checked' verdict outcome) :
    stage.Marked Checked' marks := by
  cases stage with
  | announcing =>
      obtain ⟨d, shown, verdict, checked⟩ := marked
      exact ⟨d, shown, verdict, more _ _ checked⟩
  | ended outcome =>
      obtain ⟨d, shown, checked⟩ := marked
      exact ⟨d, shown, more _ _ checked⟩
  | _ => exact marked

/-- The step shows nothing. -/
theorem still (silent : effects.filterMap Effect.milestone? = [])
    (quiet : next.stage.milestone? now = none) (marked : next.stage.Marked Checked marks) :
    next.stage.Marked Checked (marks ++ next.milestones now effects) := by
  rw [Run.milestones_of_silent silent quiet, List.append_nil]
  exact marked

theorem handBack {d : Departure} (wall : Timestamp)
    (silent : effects.filterMap Effect.milestone? = []) :
    (r.handBack wall d.verdict).stage.Marked Checked
      (d.milestones ++ (r.handBack wall d.verdict).milestones now effects) := by
  rcases Run.handBack_cases r wall d.verdict with same | ⟨e, -, -, same⟩ <;> rw [same]
  all_goals exact still silent rfl ⟨d, rfl, rfl⟩

theorem act {v : View} (acts : r.Acts v next effects) (marked : r.stage.Marked Checked marks)
    (check : ∀ verdict, r.stage = .closing verdict →
      Checked verdict (verdict.outcome r.candidate.resource v.requested)) :
    next.stage.Marked Checked (marks ++ next.milestones v.now effects) := by
  cases acts with
  | refuse stage =>
      rw [stage] at marked
      subst marked
      exact ⟨.withdrawn, List.prefix_rfl⟩
  | begin stage =>
      rw [stage] at marked
      subst marked
      rfl
  | @attempt goal stage =>
      rw [stage] at marked
      have ticked : (goal.ticked v.now).Marked marks := Goal.marked_ticked.mpr marked
      exact still rfl rfl ticked
  | withdraw stage =>
      rw [stage] at marked
      subst marked
      exact ⟨.withdrawn, rfl, rfl⟩
  | heed stage =>
      rw [stage] at marked
      subst marked
      exact ⟨v.now, rfl⟩
  | notice stage =>
      rw [stage] at marked
      subst marked
      exact ⟨v.now, rfl⟩
  | finish stage =>
      rw [stage] at marked
      obtain ⟨time, rfl⟩ := marked
      exact handBack (d := .relieved time .requested) v.wall rfl
  | proclaim stage =>
      rw [stage] at marked
      subst marked
      rfl
  | install stage =>
      rw [stage] at marked
      subst marked
      rfl
  | installLate stage =>
      rw [stage] at marked
      subst marked
      exact ⟨.relieved v.now .lost, List.prefix_append _ [Milestone.relieved v.now .lost]⟩
  | linger stage =>
      rw [stage] at marked
      obtain ⟨time, rfl⟩ := marked
      exact ⟨time, rfl⟩
  | lingerLate stage =>
      rw [stage] at marked
      obtain ⟨time, rfl⟩ := marked
      exact ⟨.relieved time .requested, List.prefix_rfl⟩
  | dismiss stage =>
      rw [stage] at marked
      obtain ⟨time, rfl⟩ := marked
      exact ⟨.relieved time .lost, rfl, rfl⟩
  | @conclude result stage =>
      rw [stage] at marked
      obtain ⟨time, rfl⟩ := marked
      exact handBack (d := .relieved time (.workEnded result)) v.wall rfl
  | abort stage =>
      rw [stage] at marked
      obtain ⟨d, rfl, verdict⟩ := marked
      exact ⟨d, List.append_nil _, verdict⟩
  | retire stage =>
      rw [stage] at marked
      obtain ⟨d, rfl, verdict⟩ := marked
      exact ⟨d, rfl, verdict⟩
  | @closeFailed message stage =>
      rw [stage] at marked
      obtain ⟨d, rfl, verdict⟩ := marked
      refine ⟨d, ?_, verdict ▸ check _ stage⟩
      simp [lifetime, Run.milestones, Effect.milestone?, Stage.milestone?, Run.goTo]
  | closeAsked stage asked =>
      rw [stage] at marked
      obtain ⟨d, rfl, verdict⟩ := marked
      have checked := check _ stage
      rw [asked] at checked
      exact ⟨d, List.append_nil _, verdict, checked⟩
  | closeLost stage unasked =>
      rw [stage] at marked
      obtain ⟨d, rfl, verdict⟩ := marked
      have checked := check _ stage
      rw [unasked] at checked
      refine ⟨d, ?_, verdict ▸ checked⟩
      simp [lifetime, Run.milestones, Effect.milestone?, Stage.milestone?, Run.goTo]
  | announce stage =>
      rw [stage] at marked
      obtain ⟨d, rfl, verdict, checked⟩ := marked
      refine ⟨d, ?_, verdict ▸ checked⟩
      simp [lifetime, Run.milestones, Effect.milestone?, Stage.milestone?, Run.goTo]

theorem failed {goal : Goal} (silent : effects.filterMap Effect.milestone? = [])
    (marked : goal.Marked marks) :
    (r.failed now goal).stage.Marked Checked
      (marks ++ (r.failed now goal).milestones now effects) := by
  cases goal with
  | acquire ticker => exact still silent rfl marked
  | lead ticker renewedAt =>
      simp only [Run.failed]
      split
      · subst marked
        rw [Run.milestones, silent]
        exact ⟨now, rfl⟩
      · exact still silent rfl marked
  | windDown ticker renewedAt =>
      simp only [Run.failed]
      split
      · obtain ⟨time, rfl⟩ := marked
        exact still silent rfl ⟨.relieved time .requested, rfl, rfl⟩
      · exact still silent rfl marked

theorem read {goal : Goal} {wall : Timestamp} {answer : ReadAnswer}
    (stage : r.stage = .reading goal wall) (reads : r.Reads now goal wall answer next effects)
    (marked : r.stage.Marked Checked marks) :
    next.stage.Marked Checked (marks ++ next.milestones now effects) := by
  rw [stage] at marked
  have silent := fun e => Effect.milestone?_observe r now e
  cases reads with
  | unreadable => exact failed rfl marked
  | held e => exact failed (silent e) marked
  | absent => exact still rfl rfl marked
  | own e | free e => exact still (silent e) rfl marked
  | overflow e =>
      refine still ?_ rfl (Goal.Marked.begun marked)
      rw [List.filterMap_append, silent e]
      rfl

theorem write {answer : WriteAnswer} {w : Write} (called : r.call? = some (.write w))
    (writes : r.Writes now answer next effects) (marked : r.stage.Marked Checked marks) :
    next.stage.Marked Checked (marks ++ next.milestones now effects) := by
  have silent := fun e => Effect.milestone?_observe r now e
  cases writes with
  | @succeeded goal _ e stage =>
      rw [stage] at marked
      cases goal <;> exact still (silent e) rfl marked
  | failed stage =>
      rw [stage] at marked
      exact failed rfl marked
  | released e stage =>
      rw [stage] at marked
      exact still (silent e) rfl marked
  | kept stage =>
      rw [stage] at marked
      exact still rfl rfl marked
  | exhausted =>
      refine still rfl rfl ?_
      rcases Run.stage_of_write called with ⟨goal, stage⟩ | ⟨verdict, version, lease, stage, -⟩
      · rw [stage] at marked
        exact Goal.Marked.begun marked
      · rw [stage] at marked
        obtain ⟨d, rfl, -⟩ := marked
        exact ⟨d, List.prefix_rfl⟩

end Stage.Marked

/-! ## A life that has come to its end -/

namespace Departure

variable {d : Departure}

theorem milestones_prefix (d : Departure) (outcome : Outcome) :
    d.milestones <+: lifetime d outcome := by
  simp only [lifetime, List.append_assoc]
  exact List.prefix_append _ _

theorem retired_prefix (d : Departure) (outcome : Outcome) :
    d.milestones ++ [.published .released] <+: lifetime d outcome := by
  simp only [lifetime, List.append_assoc]
  rw [← List.append_assoc]
  exact List.prefix_append _ _

theorem not_retired (d : Departure) : .published .released ∉ d.milestones := by
  cases d <;> simp [milestones]

theorem not_announced (d : Departure) : .announced ∉ d.milestones := by
  cases d <;> simp [milestones]

theorem relieved_mem {time : Instant} {reason : Reason} :
    .relieved time reason ∈ d.milestones ↔ d = .relieved time reason := by
  cases d with
  | withdrawn => simp [milestones]
  | relieved time' reason' =>
      simp only [milestones, List.mem_cons, Milestone.relieved.injEq, relieved.injEq, reduceCtorEq,
        List.not_mem_nil, false_or, or_false]
      exact and_congr eq_comm eq_comm

end Departure

theorem announced_mem_lifetime {d : Departure} {outcome : Outcome} :
    .announced ∈ lifetime d outcome ↔ outcome = .graceful := by
  by_cases graceful : outcome = .graceful <;> simp [lifetime, d.not_announced, graceful]

theorem relieved_mem_lifetime {d : Departure} {outcome : Outcome} {time : Instant}
    {reason : Reason} :
    .relieved time reason ∈ lifetime d outcome ↔ d = .relieved time reason := by
  by_cases graceful : outcome = .graceful <;> simp [lifetime, graceful, Departure.relieved_mem]

/-- The end of the run is published. -/
def Stage.hasRetired : Stage → Bool
  | .closing _ | .announcing | .ended _ => true
  | _ => false

theorem Stage.not_ended {stage : Stage} (early : stage.hasRetired = false) (outcome : Outcome) :
    stage ≠ .ended outcome := by
  rintro rfl
  cases early

namespace Run

variable {r next : Run} {now : Instant} {effects : List Effect}

theorem hasRetired_failed (r : Run) (now : Instant) (goal : Goal) :
    (r.failed now goal).stage.hasRetired = false := by
  rcases failed_cases r now goal with same | ⟨-, same | same⟩ <;> rw [same] <;> rfl

theorem hasRetired_handBack (r : Run) (wall : Timestamp) (verdict : Verdict) :
    (r.handBack wall verdict).stage.hasRetired = false := by
  rcases handBack_cases r wall verdict with same | ⟨e, -, -, same⟩ <;> rw [same] <;> rfl

theorem Reads.hasRetired {goal : Goal} {wall : Timestamp} {answer : ReadAnswer}
    (reads : r.Reads now goal wall answer next effects) : next.stage.hasRetired = false := by
  cases reads with
  | unreadable | held => exact hasRetired_failed _ now goal
  | absent | own | free | overflow => rfl

theorem Writes.hasRetired {answer : WriteAnswer} (writes : r.Writes now answer next effects) :
    next.stage.hasRetired = false := by
  cases writes with
  | @succeeded goal => cases goal <;> rfl
  | failed => exact hasRetired_failed r now _
  | released | kept | exhausted => rfl

end Run

namespace Stage.Marked

variable {Checked : Verdict → Outcome → Prop} {marks : List Milestone} {stage : Stage}

/-- A run that has not retired shows a part of what it shows before. -/
theorem unretired (marked : stage.Marked Checked marks) (early : stage.hasRetired = false) :
    ∃ d : Departure, marks <+: d.milestones := by
  cases stage with
  | fresh => exact ⟨.withdrawn, marked ▸ List.nil_prefix⟩
  | waiting | reading | writing => exact Goal.Marked.begun marked
  | elected => exact ⟨.withdrawn, marked ▸ List.prefix_rfl⟩
  | installing =>
      refine ⟨.relieved 0 .lost, marked ▸ ?_⟩
      exact List.prefix_append _ [.workStarted, Milestone.relieved 0 .lost]
  | relieving =>
      obtain ⟨time, rfl⟩ := marked
      exact ⟨_, List.prefix_rfl⟩
  | aborting | releasing | retiring =>
      obtain ⟨d, rfl, -⟩ := marked
      exact ⟨d, List.prefix_rfl⟩
  | broken => exact marked
  | closing | announcing | ended => cases early

theorem course (marked : stage.Marked Checked marks) :
    ∃ d outcome, marks <+: lifetime d outcome := by
  cases retired : stage.hasRetired with
  | false =>
      obtain ⟨d, part⟩ := marked.unretired retired
      exact ⟨d, .graceful, part.trans (d.milestones_prefix _)⟩
  | true =>
      cases stage with
      | closing | announcing =>
          obtain ⟨d, rfl, -⟩ := marked
          exact ⟨d, .graceful, d.retired_prefix _⟩
      | ended outcome =>
          obtain ⟨d, rfl, -⟩ := marked
          exact ⟨d, outcome, List.prefix_rfl⟩
      | _ => cases retired

theorem hasRetired_of_mem (marked : stage.Marked Checked marks)
    (shown : .published .released ∈ marks) : stage.hasRetired = true := by
  cases retired : stage.hasRetired with
  | true => rfl
  | false =>
      obtain ⟨d, part⟩ := marked.unretired retired
      exact absurd (part.subset shown) d.not_retired

theorem announced_iff (marked : stage.Marked Checked marks) :
    .announced ∈ marks ↔ stage = .ended .graceful := by
  cases retired : stage.hasRetired with
  | false =>
      obtain ⟨d, part⟩ := marked.unretired retired
      refine ⟨fun shown => absurd (part.subset shown) d.not_announced, ?_⟩
      rintro rfl
      cases retired
  | true =>
      cases stage with
      | closing | announcing =>
          obtain ⟨d, rfl, -⟩ := marked
          simp [d.not_announced]
      | ended outcome =>
          obtain ⟨d, rfl, -⟩ := marked
          rw [announced_mem_lifetime, ended.injEq]
      | _ => cases retired

end Stage.Marked

namespace Contest

/-- How the outcome of a member was found: at its last step but one or two, as its run closed. -/
def Checked (moves : List Move) (id : Nat) (candidate : Candidate) (verdict : Verdict)
    (outcome : Outcome) : Prop :=
  ∃ before c wall m, Passes moves before c (.act id wall) ∧ c.members.get? id = some m ∧
    m.run.stage = .closing verdict ∧ outcome = verdict.outcome candidate.resource m.scope

theorem milestones_of_start {moves : List Move} {c : Contest} {id : Nat} {log : Log}
    (run : Contest.empty.play moves = some c) (unused : Fact.started id ∉ c.log)
    (grown : log = c.log ++ [.started id]) : log.milestones id = [] := by
  have unknown : ∀ fact ∈ c.log, fact.member? ≠ some id := fun fact member about =>
    unused ((chronicle_of_play run).started fact member id about)
  rw [grown, Log.milestones_append, Log.milestones_of_elsewhere unknown]
  rfl

theorem marked_of_play {moves : List Move} {c : Contest} {id : Nat} {m : Member}
    (run : Contest.empty.play moves = some c) (present : c.members.get? id = some m) :
    m.run.stage.Marked (Checked moves id m.run.candidate) (c.log.milestones id) := by
  refine member_induction (P := fun moves c m =>
    m.run.stage.Marked (Checked moves id m.run.candidate) (c.log.milestones id)) ?_ run present
  intro moves c next move n reached step bearing ih
  have later : ∀ candidate verdict outcome, Checked moves id candidate verdict outcome →
      Checked (moves ++ [move]) id candidate verdict outcome := by
    rintro candidate verdict outcome ⟨before, c, wall, m, passes, rest⟩
    exact ⟨before, c, wall, m, passes.mono [move], rest⟩
  cases bearing with
  | start unused log =>
      rw [milestones_of_start reached unused log]
      rfl
  | @act wall m r effects present acts log =>
      rw [Log.milestones_act log, Member.after_run, acts.candidate]
      refine Stage.Marked.act acts ((ih m present).mono (later _)) fun verdict stage => ?_
      exact ⟨moves, c, wall, m, .last reached _, present, stage, rfl⟩
  | @read m goal wall r effects present stage reads log =>
      rw [Log.milestones_read log, Member.after_run, reads.candidate]
      exact Stage.Marked.read stage reads ((ih m present).mono (later _))
  | @write m w r effects present called writes log =>
      rw [Log.milestones_write log, Member.after_run, writes.candidate]
      exact Stage.Marked.write called writes ((ih m present).mono (later _))
  | @request move m present asks unasked log =>
      rw [Log.milestones_request log]
      exact (ih m present).mono (later _)
  | @trigger m present log =>
      rw [log]
      exact (ih m present).mono (later _)
  | @finish m result present running log =>
      rw [Log.milestones_finish log]
      exact (ih m present).mono (later _)
  | aside present heard elsewhere log =>
      rw [Log.milestones_aside elsewhere log]
      exact (ih n present).mono (later _)

end Contest

end LeaderLease
