import LeaderLease.Proofs.Career

/-!
# Where work runs

Work runs only while its run leads, winds down, or is about to stop it: `Stage.mayWork` lists the
stages, and `attends_of_career` proves it along every career.
-/

set_option autoImplicit false

namespace LeaderLease

/-- Work may be running while the run is at the stage. -/
def Stage.mayWork : Stage → Bool
  | .waiting goal | .reading goal _ | .writing goal _ => goal.isRenewal
  | .relieving .requested | .relieving .lost | .aborting | .broken => true
  | _ => false

/-- A member whose work runs is at a stage that knows of it. -/
def Member.Attends (m : Member) : Prop := m.work = .running → m.run.stage.mayWork = true

theorem attends_act {id : Nat} {now : Instant} {wall : Timestamp} {m : Member} {next : Run}
    {effects : List Effect} (acts : m.run.Acts (m.view now wall) next effects)
    (attends : m.Attends) : (m.after id (next, effects)).Attends := by
  intro running
  rw [Member.after_run]
  cases acts with
  | install | installLate | linger | lingerLate | heed | dismiss | refuse => rfl
  | begin stage | withdraw stage | proclaim stage | retire stage | closeFailed stage
  | closeAsked stage | closeLost stage | announce stage =>
      rw [Member.after_work (by simp) (by simp)] at running
      have working := attends running
      rw [stage] at working
      cases working
  | @attempt goal stage =>
      rw [Member.after_work (by simp) (by simp)] at running
      have working := attends running
      rw [stage] at working
      cases goal with
      | acquire ticker => cases working
      | lead ticker renewedAt | windDown ticker renewedAt => rfl
  | notice stage unasked finished | finish stage finished =>
      rw [Member.after_work (by simp) (by simp)] at running
      cases running.symm.trans finished
  | conclude stage =>
      rw [Member.after_work (by simp) (by simp)] at running
      have working := attends running
      rw [stage] at working
      cases working
  | abort =>
      by_cases before : m.work = .running <;>
        simp [Member.after, Contest.affectAll, Contest.affect, before] at running

theorem mayWork_failed {r : Run} {now : Instant} {goal : Goal} :
    (r.failed now goal).stage.mayWork = (Stage.waiting goal).mayWork := by
  rcases Run.failed_cases r now goal with same | ⟨renewal, same | same⟩ <;> rw [same]
  · rfl
  all_goals exact renewal.symm

theorem mayWork_succeeded {r : Run} {now : Instant} {goal : Goal}
    (renewal : (Stage.waiting goal).mayWork = true) :
    (r.succeeded now goal).stage.mayWork = true := by
  cases goal with
  | acquire ticker => cases renewal
  | lead ticker renewedAt | windDown ticker renewedAt => rfl

theorem attends_read {id : Nat} {now : Instant} {m : Member} {goal : Goal} {wall : Timestamp}
    {answer : ReadAnswer} {next : Run} {effects : List Effect}
    (stage : m.run.stage = .reading goal wall)
    (reads : m.run.Reads now goal wall answer next effects) (attends : m.Attends) :
    (m.after id (next, effects)).Attends := by
  intro running
  rw [Member.after_work reads.effects.1 reads.effects.2] at running
  have working := attends running
  rw [stage] at working
  rw [Member.after_run]
  have renewal : (Stage.waiting goal).mayWork = true := by
    cases goal with
    | acquire ticker => cases working
    | lead ticker renewedAt | windDown ticker renewedAt => rfl
  cases reads with
  | unreadable e => exact mayWork_failed.trans renewal
  | held e => exact mayWork_failed.trans renewal
  | absent | own e | free e =>
      cases goal with
      | acquire ticker => cases working
      | lead ticker renewedAt | windDown ticker renewedAt => rfl
  | overflow e => rfl

theorem attends_write {id : Nat} {now : Instant} {m : Member} {answer : WriteAnswer} {next : Run}
    {effects : List Effect} (writes : m.run.Writes now answer next effects)
    (attends : m.Attends) : (m.after id (next, effects)).Attends := by
  intro running
  rw [Member.after_work writes.effects.1 writes.effects.2] at running
  have working := attends running
  rw [Member.after_run]
  have renewal : ∀ {goal : Goal} {w : Write}, m.run.stage = .writing goal w →
      (Stage.waiting goal).mayWork = true := by
    intro goal w stage
    rw [stage] at working
    cases goal with
    | acquire ticker => cases working
    | lead ticker renewedAt | windDown ticker renewedAt => rfl
  cases writes with
  | succeeded e stage => exact mayWork_succeeded (renewal stage)
  | failed stage => exact mayWork_failed.trans (renewal stage)
  | released e stage | kept stage =>
      rw [stage] at working
      cases working
  | exhausted => rfl

theorem attends_of_career {id : Nat} {now : Instant} {m : Member} {log : Log}
    (career : Career id now m log) : m.Attends := by
  induction career with
  | start unknown => intro running; cases running
  | turn before step ih =>
      cases step with
      | act acts => exact attends_act acts ih
      | read stage reads => exact attends_read stage reads ih
      | write called writes => exact attends_write writes ih
      | request unasked | trigger => exact ih
      | finish running => intro running; cases running
  | others before elsewhere ih => exact ih
  | wait before idle ih => exact ih

/-- The work of a member runs, and its run has not given up. -/
def Member.IsWorking (m : Member) : Prop := m.work = .running ∧ m.run.stage ≠ .broken

end LeaderLease
