import LeaderLease.Proofs.Milestones
import LeaderLease.Proofs.Work

/-!
# What becomes of the work

The milestones of a member tell whether its work was started. Once its run has come to a stage of
`Stage.hasDismissed`, the work was told to stop; and only the stages of `Stage.mayWork` leave it
running. `employs_of_play` proves this after any moves in any order.
-/

set_option autoImplicit false

namespace LeaderLease

def Goal.isWindDown : Goal → Bool
  | .windDown _ _ => true
  | _ => false

theorem Goal.isWindDown_ticked (now : Instant) (goal : Goal) :
    (goal.ticked now).isWindDown = goal.isWindDown := by
  cases goal <;> simp only [ticked, isWindDown]

/-- The work, if there was any, has been told to stop by now. -/
def Stage.hasDismissed : Stage → Bool
  | .waiting goal | .reading goal _ | .writing goal _ => goal.isWindDown
  | .aborting | .releasing _ _ _ | .retiring _ | .closing _ | .announcing | .ended _ => true
  | _ => false

theorem Run.failed_hasDismissed (r : Run) (now : Instant) (goal : Goal) :
    (r.failed now goal).stage.hasDismissed = goal.isWindDown := by
  cases goal with
  | acquire ticker => rfl
  | lead ticker renewedAt | windDown ticker renewedAt =>
      simp only [Run.failed]
      split <;> rfl

theorem Member.after_workScope {id : Nat} {m : Member} {r : Run} {effects : List Effect}
    (noStart : .startWork ∉ effects) (cancelled : m.workScope = true) :
    (m.after id (r, effects)).workScope = true := by
  suffices all : ∀ m : Member, m.workScope = true →
      (Contest.affectAll id m effects).1.workScope = true from all { m with run := r } cancelled
  induction effects with
  | nil => exact fun m cancelled => cancelled
  | cons effect effects ih =>
      intro m cancelled
      rw [Contest.affectAll_cons]
      refine ih (fun member => noStart (List.mem_cons_of_mem _ member)) _ ?_
      cases effect with
      | startWork => exact absurd List.mem_cons_self noStart
      | abortWork =>
          simp only [Contest.affect]
          split <;> exact cancelled
      | publish | report | stopListening | announceDone => exact cancelled
      | cancelWork => rfl

theorem Run.workStarted_mem_milestones {r : Run} {now : Instant} {effects : List Effect} :
    .workStarted ∈ r.milestones now effects ↔ .startWork ∈ effects := by
  rw [mem_milestones]
  constructor
  · rintro (⟨effect, member, shown⟩ | arrived)
    · cases effect with
      | startWork => exact member
      | _ => simp [Effect.milestone?] at shown
    · cases stage : r.stage <;> simp [stage, Stage.milestone?] at arrived
  · intro member
    exact .inl ⟨_, member, rfl⟩

/-- The work of a member, as its milestones tell of it. -/
structure Member.Employs (m : Member) (marks : List Milestone) : Prop where
  started : .workStarted ∈ marks ↔ m.work ≠ .idle
  dismissed : m.run.stage.hasDismissed = true → .workStarted ∈ marks → m.workScope = true
  attends : m.Attends

namespace Member.Employs

variable {id : Nat} {m : Member} {next : Run} {now : Instant} {effects : List Effect}
  {marks : List Milestone}

theorem started_quiet (employs : m.Employs marks) (noStart : .startWork ∉ effects)
    (noAbort : .abortWork ∉ effects) :
    .workStarted ∈ marks ++ next.milestones now effects ↔
      (m.after id (next, effects)).work ≠ .idle := by
  rw [after_work noStart noAbort, ← employs.started, List.mem_append,
    Run.workStarted_mem_milestones]
  simp [noStart]

theorem started_act {wall : Timestamp} (acts : m.run.Acts (m.view now wall) next effects)
    (employs : m.Employs marks) :
    .workStarted ∈ marks ++ next.milestones now effects ↔
      (m.after id (next, effects)).work ≠ .idle := by
  cases acts with
  | install | installLate =>
      constructor
      · intro _ idle
        cases idle
      · intro _
        exact List.mem_append_right _ (Run.workStarted_mem_milestones.mpr List.mem_cons_self)
  | abort =>
      have silent : .startWork ∉ [Effect.abortWork] := by simp
      rw [List.mem_append, Run.workStarted_mem_milestones, employs.started]
      by_cases running : m.work = .running <;>
        simp [Member.after, Contest.affectAll, Contest.affect, running]
  | _ => exact employs.started_quiet (by simp) (by simp)

/-- Work that was told to stop stays so. -/
theorem dismissed_quiet (employs : m.Employs marks) (noStart : .startWork ∉ effects)
    (before : next.stage.hasDismissed = true → m.run.stage.hasDismissed = true)
    (dismisses : next.stage.hasDismissed = true)
    (started : .workStarted ∈ marks ++ next.milestones now effects) :
    (m.after id (next, effects)).workScope = true := by
  rcases List.mem_append.mp started with already | new
  · exact after_workScope noStart (employs.dismissed (before dismisses) already)
  · exact absurd (Run.workStarted_mem_milestones.mp new) noStart

theorem dismissed_act {wall : Timestamp} {Checked : Verdict → Outcome → Prop}
    (acts : m.run.Acts (m.view now wall) next effects) (employs : m.Employs marks)
    (marked : m.run.stage.Marked Checked marks) (dismisses : next.stage.hasDismissed = true)
    (started : .workStarted ∈ marks ++ next.milestones now effects) :
    (m.after id (next, effects)).workScope = true := by
  cases acts with
  | linger | dismiss | conclude => rfl
  | withdraw stage =>
      -- A run that has not led has started no work.
      rw [stage] at marked
      subst marked
      cases started with
      | tail _ member => cases member
  | @attempt goal stage =>
      refine employs.dismissed_quiet (by simp) (fun winding => ?_) dismisses started
      rw [stage]
      exact (goal.isWindDown_ticked now).symm.trans winding
  | finish stage | abort stage | retire stage | closeFailed stage | closeAsked stage
  | closeLost stage | announce stage =>
      exact employs.dismissed_quiet (by simp) (fun _ => by rw [stage]; rfl) dismisses started
  | _ => cases dismisses

theorem act {wall : Timestamp} {Checked : Verdict → Outcome → Prop}
    (acts : m.run.Acts (m.view now wall) next effects) (employs : m.Employs marks)
    (marked : m.run.stage.Marked Checked marks) :
    (m.after id (next, effects)).Employs (marks ++ next.milestones now effects) where
  started := employs.started_act acts
  dismissed := by
    rw [after_run]
    exact employs.dismissed_act acts marked
  attends := attends_act acts employs.attends

theorem read {goal : Goal} {wall : Timestamp} {answer : ReadAnswer}
    (stage : m.run.stage = .reading goal wall)
    (reads : m.run.Reads now goal wall answer next effects) (employs : m.Employs marks) :
    (m.after id (next, effects)).Employs (marks ++ next.milestones now effects) where
  started := employs.started_quiet reads.effects.1 reads.effects.2
  dismissed := by
    rw [after_run]
    refine employs.dismissed_quiet reads.effects.1 fun dismisses => ?_
    rw [stage]
    cases reads with
    | unreadable | held => exact (Run.failed_hasDismissed _ now goal).symm.trans dismisses
    | absent | own | free => exact dismisses
    | overflow => cases dismisses
  attends := attends_read stage reads employs.attends

theorem write {answer : WriteAnswer} (writes : m.run.Writes now answer next effects)
    (employs : m.Employs marks) :
    (m.after id (next, effects)).Employs (marks ++ next.milestones now effects) where
  started := employs.started_quiet writes.effects.1 writes.effects.2
  dismissed := by
    rw [after_run]
    refine employs.dismissed_quiet writes.effects.1 fun dismisses => ?_
    cases writes with
    | @succeeded goal w e stage =>
        rw [stage]
        cases goal with
        | windDown => rfl
        | acquire | lead => cases dismisses
    | failed stage =>
        rw [stage]
        exact (Run.failed_hasDismissed _ now _).symm.trans dismisses
    | released e stage | kept stage =>
        rw [stage]
        rfl
    | exhausted => cases dismisses
  attends := attends_write writes employs.attends

end Member.Employs

namespace Contest

theorem employs_of_play {moves : List Move} {c : Contest} {id : Nat} {m : Member}
    (run : Contest.empty.play moves = some c) (present : c.members.get? id = some m) :
    m.Employs (c.log.milestones id) := by
  refine member_induction (P := fun _ c m => m.Employs (c.log.milestones id)) ?_ run present
  intro moves c next move n reached step bearing ih
  cases bearing with
  | start unused log =>
      rw [milestones_of_start reached unused log]
      exact ⟨by simp, nofun, nofun⟩
  | @act wall m r effects present acts log =>
      rw [Log.milestones_act log]
      exact (ih m present).act acts (marked_of_play reached present)
  | @read m goal wall r effects present stage reads log =>
      rw [Log.milestones_read log]
      exact (ih m present).read stage reads
  | @write m w r effects present called writes log =>
      rw [Log.milestones_write log]
      exact (ih m present).write writes
  | @request move m present asks unasked log =>
      rw [Log.milestones_request log]
      exact ⟨(ih m present).started, fun _ _ => rfl, (ih m present).attends⟩
  | @trigger m present log =>
      rw [log]
      exact ⟨(ih m present).started, (ih m present).dismissed, (ih m present).attends⟩
  | @finish m result present running log =>
      rw [Log.milestones_finish log]
      refine ⟨?_, (ih m present).dismissed, nofun⟩
      rw [(ih m present).started, running]
      simp
  | aside present heard elsewhere log =>
      rw [Log.milestones_aside elsewhere log]
      exact ih n present

end Contest

end LeaderLease
