import LeaderLease.Proofs.Dismissal
import LeaderLease.Proofs.Handover

/-!
# The life of a run

`lifecycle_of_play` puts together what holds of the life of one run, whatever the others do: the
order of what it shows, the stored record that it needs before it leads, the reason for which
leading ends and the turn of the loop that found it, the outcome, and what has become of its work by
the time it shows that it has left.
-/

set_option autoImplicit false

namespace LeaderLease

/-! ## The record behind leading -/

/-- The member has stored a record that names it. -/
def Candidate.HasStored (candidate : Candidate) (id : Nat) (records : List Record) : Prop :=
  ∃ x ∈ records, x.author = some id ∧ x.entry.lease.holder = candidate.identity

theorem Candidate.HasStored.append {candidate : Candidate} {id : Nat} {records : List Record}
    (stored : candidate.HasStored id records) (more : List Record) :
    candidate.HasStored id (records ++ more) := by
  obtain ⟨x, member, own⟩ := stored
  exact ⟨x, List.mem_append_left _ member, own⟩

def Run.HasWon (id : Nat) (r : Run) (records : List Record) : Prop :=
  r.stage.keepsLease = true → r.candidate.HasStored id records

namespace Run

variable {id : Nat} {r next : Run} {now : Instant} {effects : List Effect}

theorem Acts.keepsLease {v : View} (acts : r.Acts v next effects)
    (keeps : next.stage.keepsLease = true) : r.stage.keepsLease = true := by
  cases acts with
  | @attempt goal stage =>
      rw [stage]
      exact (goal.isRenewal_ticked v.now).symm.trans keeps
  | heed stage | notice stage | finish stage | proclaim stage | install stage | linger stage
  | dismiss stage | conclude stage =>
      rw [stage]
      rfl
  | _ => cases keeps

theorem Reads.keepsLease {goal : Goal} {wall : Timestamp} {answer : ReadAnswer}
    (reads : r.Reads now goal wall answer next effects) (keeps : next.stage.keepsLease = true) :
    goal.isRenewal = true := by
  cases reads with
  | unreadable | held => exact (failed_keepsLease _ now goal).symm.trans keeps
  | absent | own | free => exact keeps
  | overflow => cases keeps

theorem hasWon_dealing {records after : List Record} (recalls : r.Recalls records)
    (dealing : Dealing id r records next after) (won : r.HasWon id records) :
    next.HasWon id after := by
  intro keeps
  cases dealing with
  | idle => exact won keeps
  | act acts =>
      rw [acts.candidate]
      exact won (acts.keepsLease keeps)
  | read stage reads =>
      rw [reads.candidate]
      exact won (by rw [stage]; exact reads.keepsLease keeps)
  | @stored now w e next effects called writes version lease =>
      rw [writes.candidate]
      refine ⟨_, List.mem_append_right _ (List.mem_singleton_self _), rfl, ?_⟩
      cases writes with
      | succeeded _ stage =>
          rw [lease]
          rcases stage_of_write called with ⟨goal, attempt⟩ | ⟨verdict, version, l, handed, -⟩
          · exact holder_of_plans recalls.plans attempt
          · cases stage.symm.trans handed
      | released => cases keeps
  | @refused now w err next effects called writes =>
      rw [writes.candidate]
      cases writes with
      | failed stage =>
          rw [failed_keepsLease] at keeps
          exact won (by rw [stage]; exact keeps)
      | kept | exhausted => cases keeps
  | other => exact (won keeps).append _

end Run

/-! ## Why leading ends -/

namespace Contest

/-- The leading loop of the member comes to a turn. -/
structure Polls (moves : List Move) (id : Nat) (c : Contest) (m : Member) (ticker : Ticker)
    (renewedAt : Instant) : Prop where
  passes : ∃ before wall, Passes moves before c (.act id wall)
  present : c.members.get? id = some m
  stage : m.run.stage = .waiting (.lead ticker renewedAt)

theorem Polls.mono {moves : List Move} {id : Nat} {c : Contest} {m : Member} {ticker : Ticker}
    {renewedAt : Instant} (polls : Polls moves id c m ticker renewedAt) (more : List Move) :
    Polls (moves ++ more) id c m ticker renewedAt := by
  obtain ⟨before, wall, passes⟩ := polls.passes
  exact ⟨⟨before, wall, passes.mono more⟩, polls.present, polls.stage⟩

/-- A turn of the leading loop at which nothing was to do but to attempt a renewal. -/
def Tries (moves : List Move) (id : Nat) (renewedAt : Instant) : Prop :=
  ∃ c m ticker, Polls moves id c m ticker renewedAt ∧ m.scope = false ∧
    (∀ result, m.work ≠ .finished result) ∧ ticker.due ≤ c.now

/-- The turn of the leading loop that ends leading: a request to stop comes before the end of the
work, and that before an attempt, which ends leading if it fails past the deadline. -/
inductive Decides (moves : List Move) (id : Nat) (candidate : Candidate) :
    Instant → Reason → Prop where
  | requested {c : Contest} {m : Member} {ticker : Ticker} {renewedAt : Instant}
      (polls : Polls moves id c m ticker renewedAt) (asked : m.scope = true) :
      Decides moves id candidate c.now .requested
  | workEnded {c : Contest} {m : Member} {ticker : Ticker} {renewedAt : Instant}
      {result : WorkResult} (polls : Polls moves id c m ticker renewedAt)
      (unasked : m.scope = false) (finished : m.work = .finished result) :
      Decides moves id candidate c.now (.workEnded result)
  | lost {renewedAt time : Instant} (tries : Tries moves id renewedAt)
      (late : candidate.renewDeadline.nanos ≤ time - renewedAt) :
      Decides moves id candidate time .lost

end Contest

def Stage.attempt? : Stage → Option Goal
  | .reading goal _ | .writing goal _ => some goal
  | _ => none

namespace Run

variable {r next : Run} {now : Instant} {effects : List Effect}

theorem relieved_mem_milestones {time : Instant} {reason : Reason}
    (shown : .relieved time reason ∈ r.milestones now effects) :
    r.stage = .relieving reason ∧ time = now := by
  rcases mem_milestones.mp shown with ⟨effect, -, same⟩ | arrived
  · cases effect <;> simp [Effect.milestone?] at same
  · cases stage : r.stage <;> simp [stage, Stage.milestone?] at arrived
    exact ⟨by rw [arrived.2], arrived.1.symm⟩

theorem published_mem_milestones {state : ElectionState}
    (shown : .published state ∈ r.milestones now effects) : .publish state ∈ effects := by
  rcases mem_milestones.mp shown with ⟨effect, member, same⟩ | arrived
  · cases effect with
    | publish other =>
        cases same
        exact member
    | _ => simp [Effect.milestone?] at same
  · cases stage : r.stage <;> simp [stage, Stage.milestone?] at arrived

theorem relieving_failed {goal : Goal} {reason : Reason}
    (relieved : (r.failed now goal).stage = .relieving reason) :
    reason = .lost ∧ ∃ ticker renewedAt, goal = .lead ticker renewedAt ∧
      r.candidate.renewDeadline.nanos ≤ now - renewedAt := by
  cases goal with
  | acquire ticker => cases relieved
  | lead ticker renewedAt =>
      simp only [failed] at relieved
      split at relieved
      · rename_i late
        cases relieved
        exact ⟨rfl, ticker, renewedAt, rfl, late⟩
      · cases relieved
  | windDown ticker renewedAt =>
      simp only [failed] at relieved
      split at relieved <;> cases relieved

theorem attempt_failed (r : Run) (now : Instant) (goal : Goal) :
    (r.failed now goal).stage.attempt? = none := by
  rcases failed_cases r now goal with same | ⟨-, same | same⟩ <;> rw [same] <;> rfl

theorem Reads.relieving {goal : Goal} {wall : Timestamp} {answer : ReadAnswer} {reason : Reason}
    (reads : r.Reads now goal wall answer next effects)
    (relieved : next.stage = .relieving reason) :
    reason = .lost ∧ ∃ ticker renewedAt, goal = .lead ticker renewedAt ∧
      r.candidate.renewDeadline.nanos ≤ now - renewedAt := by
  cases reads with
  | unreadable => exact relieving_failed relieved
  | held e => exact relieving_failed (r := (r.observe now e).1) relieved
  | absent | own | free | overflow => cases relieved

theorem Writes.relieving {answer : WriteAnswer} {reason : Reason}
    (writes : r.Writes now answer next effects) (relieved : next.stage = .relieving reason) :
    reason = .lost ∧ ∃ ticker renewedAt, r.stage.attempt? = some (.lead ticker renewedAt) ∧
      r.candidate.renewDeadline.nanos ≤ now - renewedAt := by
  cases writes with
  | @succeeded goal => cases goal <;> cases relieved
  | failed stage =>
      obtain ⟨lost, ticker, renewedAt, rfl, late⟩ := relieving_failed relieved
      exact ⟨lost, ticker, renewedAt, by rw [stage]; rfl, late⟩
  | released | kept | exhausted => cases relieved

theorem Reads.tries {goal goal' : Goal} {wall : Timestamp} {answer : ReadAnswer}
    (reads : r.Reads now goal wall answer next effects)
    (attempts : next.stage.attempt? = some goal') : goal' = goal := by
  cases reads with
  | unreadable | held => cases (attempt_failed _ now goal).symm.trans attempts
  | absent | own | free => exact (Option.some.inj attempts).symm
  | overflow => cases attempts

theorem Writes.tries {answer : WriteAnswer} (writes : r.Writes now answer next effects) :
    next.stage.attempt? = none := by
  cases writes with
  | @succeeded goal => cases goal <;> rfl
  | failed => exact attempt_failed r now _
  | released | kept | exhausted => rfl

theorem attempt_handBack (r : Run) (wall : Timestamp) (verdict : Verdict) :
    (r.handBack wall verdict).stage.attempt? = none := by
  rcases handBack_cases r wall verdict with same | ⟨e, -, -, same⟩ <;> rw [same] <;> rfl

theorem relieving_handBack (r : Run) (wall : Timestamp) (verdict : Verdict) (reason : Reason) :
    (r.handBack wall verdict).stage ≠ .relieving reason := by
  rcases handBack_cases r wall verdict with same | ⟨e, -, -, same⟩ <;> rw [same] <;> nofun

theorem Acts.tries {v : View} {ticker : Ticker} {renewedAt : Instant}
    (acts : r.Acts v next effects)
    (attempts : next.stage.attempt? = some (.lead ticker renewedAt)) :
    ∃ ticker, r.stage = .waiting (.lead ticker renewedAt) ∧
      Undisturbed v (.lead ticker renewedAt) ∧ ticker.due ≤ v.now := by
  cases acts with
  | @attempt goal stage free due =>
      cases goal with
      | lead ticker' renewedAt' =>
          cases attempts
          exact ⟨ticker', stage, free, due⟩
      | acquire | windDown => cases attempts
  | finish | conclude => cases (attempt_handBack r v.wall _).symm.trans attempts
  | _ => cases attempts

theorem Acts.relieving {v : View} {reason : Reason} (acts : r.Acts v next effects)
    (relieved : next.stage = .relieving reason) :
    ∃ ticker renewedAt, r.stage = .waiting (.lead ticker renewedAt) ∧
      (reason = .requested ∧ v.requested = true ∨
        ∃ result, reason = .workEnded result ∧ v.requested = false ∧ v.work = .finished result) := by
  cases acts with
  | @heed ticker renewedAt stage asked =>
      cases relieved
      exact ⟨ticker, renewedAt, stage, .inl ⟨rfl, asked⟩⟩
  | @notice ticker renewedAt result stage unasked finished =>
      cases relieved
      exact ⟨ticker, renewedAt, stage, .inr ⟨result, rfl, unasked, finished⟩⟩
  | finish | conclude => exact absurd relieved (relieving_handBack r v.wall _ _)
  | _ => cases relieved

end Run

namespace Contest

/-- The turns of the leading loop behind the attempt under way and behind the end of leading. -/
structure Reasoned (moves : List Move) (id : Nat) (m : Member) (marks : List Milestone) :
    Prop where
  tries : ∀ ticker renewedAt, m.run.stage.attempt? = some (.lead ticker renewedAt) →
    Tries moves id renewedAt
  decides : ∀ time reason, .relieved time reason ∈ marks →
    Decides moves id m.run.candidate time reason

theorem Tries.mono {moves : List Move} {id : Nat} {renewedAt : Instant}
    (tries : Tries moves id renewedAt) (more : List Move) : Tries (moves ++ more) id renewedAt := by
  obtain ⟨c, m, ticker, polls, rest⟩ := tries
  exact ⟨c, m, ticker, polls.mono more, rest⟩

theorem Decides.mono {moves : List Move} {id : Nat} {candidate : Candidate} {time : Instant}
    {reason : Reason} (decides : Decides moves id candidate time reason) (more : List Move) :
    Decides (moves ++ more) id candidate time reason := by
  cases decides with
  | requested polls asked => exact .requested (polls.mono more) asked
  | workEnded polls unasked finished => exact .workEnded (polls.mono more) unasked finished
  | lost tries late => exact .lost (tries.mono more) late

namespace Reasoned

variable {moves : List Move} {c : Contest} {id : Nat} {m : Member} {marks : List Milestone}
  {next : Run} {effects : List Effect}

theorem mono (reasoned : Reasoned moves id m marks) (more : List Move) :
    Reasoned (moves ++ more) id m marks where
  tries := fun ticker renewedAt attempts => (reasoned.tries ticker renewedAt attempts).mono more
  decides := fun time reason shown => (reasoned.decides time reason shown).mono more

theorem act {wall : Timestamp} (run : Contest.empty.play moves = some c)
    (present : c.members.get? id = some m)
    (acts : m.run.Acts (m.view c.now wall) next effects) (reasoned : Reasoned moves id m marks) :
    Reasoned (moves ++ [.act id wall]) id (m.after id (next, effects))
      (marks ++ next.milestones c.now effects) where
  tries := by
    intro ticker renewedAt attempts
    rw [Member.after_run] at attempts
    -- The turn that is taken here is the one at which nothing was to do but to attempt a renewal.
    obtain ⟨ticker', stage, ⟨unasked, unfinished⟩, due⟩ := acts.tries attempts
    exact ⟨c, m, ticker', ⟨⟨moves, wall, .last run _⟩, present, stage⟩, unasked, unfinished, due⟩
  decides := by
    intro time reason shown
    rw [Member.after_run, acts.candidate]
    rcases List.mem_append.mp shown with already | new
    · exact (reasoned.decides time reason already).mono _
    · obtain ⟨relieved, rfl⟩ := Run.relieved_mem_milestones new
      obtain ⟨ticker, renewedAt, stage, why⟩ := acts.relieving relieved
      have polls : Polls (moves ++ [.act id wall]) id c m ticker renewedAt :=
        ⟨⟨moves, wall, .last run _⟩, present, stage⟩
      rcases why with ⟨rfl, asked⟩ | ⟨result, rfl, unasked, finished⟩
      · exact .requested polls asked
      · exact .workEnded polls unasked finished

/-- An answer of the store ends leading only by a failed attempt, past the deadline. -/
theorem answer {move : Move} (reasoned : Reasoned moves id m marks)
    (candidate : next.candidate = m.run.candidate)
    (attempts : ∀ goal, next.stage.attempt? = some goal → m.run.stage.attempt? = some goal)
    (relieves : ∀ reason, next.stage = .relieving reason → reason = .lost ∧
      ∃ ticker renewedAt, m.run.stage.attempt? = some (.lead ticker renewedAt) ∧
        m.run.candidate.renewDeadline.nanos ≤ c.now - renewedAt) :
    Reasoned (moves ++ [move]) id (m.after id (next, effects))
      (marks ++ next.milestones c.now effects) where
  tries := by
    intro ticker renewedAt trying
    rw [Member.after_run] at trying
    exact (reasoned.tries ticker renewedAt (attempts _ trying)).mono _
  decides := by
    intro time reason shown
    rw [Member.after_run, candidate]
    rcases List.mem_append.mp shown with already | new
    · exact (reasoned.decides time reason already).mono _
    · obtain ⟨relieved, rfl⟩ := Run.relieved_mem_milestones new
      obtain ⟨rfl, ticker, renewedAt, trying, late⟩ := relieves reason relieved
      exact .lost ((reasoned.tries ticker renewedAt trying).mono _) late

end Reasoned

theorem reasoned_of_play {moves : List Move} {c : Contest} {id : Nat} {m : Member}
    (run : Contest.empty.play moves = some c) (present : c.members.get? id = some m) :
    Reasoned moves id m (c.log.milestones id) := by
  refine member_induction (P := fun moves c m => Reasoned moves id m (c.log.milestones id)) ?_
    run present
  intro moves c next move n reached step bearing ih
  cases bearing with
  | start unused log =>
      rw [milestones_of_start reached unused log]
      exact ⟨nofun, nofun⟩
  | @act wall m r effects present acts log =>
      rw [Log.milestones_act log]
      exact (ih m present).act reached present acts
  | @read m goal wall r effects present stage reads log =>
      rw [Log.milestones_read log]
      refine (ih m present).answer reads.candidate (fun goal' trying => ?_) fun reason relieved => ?_
      · rw [stage, reads.tries trying]
        rfl
      · obtain ⟨lost, ticker, renewedAt, rfl, late⟩ := reads.relieving relieved
        exact ⟨lost, ticker, renewedAt, by rw [stage]; rfl, late⟩
  | @write m w r effects present called writes log =>
      rw [Log.milestones_write log]
      refine (ih m present).answer writes.candidate (fun goal' trying => ?_) fun reason relieved => ?_
      · cases writes.tries.symm.trans trying
      · exact writes.relieving relieved
  | @request move m present asks unasked log =>
      rw [Log.milestones_request log]
      obtain ⟨tries, decides⟩ := (ih m present).mono [move]
      exact ⟨tries, decides⟩
  | @trigger m present log =>
      rw [log]
      obtain ⟨tries, decides⟩ := (ih m present).mono [.trigger id]
      exact ⟨tries, decides⟩
  | @finish m result present running log =>
      rw [Log.milestones_finish log]
      obtain ⟨tries, decides⟩ := (ih m present).mono [.finish id result]
      exact ⟨tries, decides⟩
  | aside present heard elsewhere log =>
      rw [Log.milestones_aside elsewhere log]
      exact (ih n present).mono [move]

/-! ## The life of a run -/

/-- A member had published the state before, or publishes it in the turn that it takes. -/
theorem Bearing.published {moves : List Move} {c next : Contest} {move : Move} {id : Nat}
    {n : Member} {state : ElectionState} (bearing : Bearing id c next move n)
    (reached : Contest.empty.play moves = some c)
    (shown : .published state ∈ next.log.milestones id) :
    ∃ m, c.members.get? id = some m ∧ n.run.candidate = m.run.candidate ∧
      (.published state ∈ c.log.milestones id ∨
        ∃ wall effects, m.run.Acts (m.view c.now wall) n.run effects ∧
          .publish state ∈ effects) := by
  cases bearing with
  | start unused log =>
      rw [milestones_of_start reached unused log] at shown
      cases shown
  | @act wall m r effects present acts log =>
      rw [Log.milestones_act log] at shown
      rw [Member.after_run]
      refine ⟨m, present, acts.candidate, ?_⟩
      rcases List.mem_append.mp shown with already | new
      · exact .inl already
      · exact .inr ⟨wall, effects, acts, Run.published_mem_milestones new⟩
  | @read m goal wall r effects present stage reads log =>
      rw [Log.milestones_read log] at shown
      rw [Member.after_run]
      refine ⟨m, present, reads.candidate, .inl ?_⟩
      rcases List.mem_append.mp shown with already | new
      · exact already
      · exact absurd (Run.published_mem_milestones new) (reads.publish _)
  | @write m w r effects present called writes log =>
      rw [Log.milestones_write log] at shown
      rw [Member.after_run]
      refine ⟨m, present, writes.candidate, .inl ?_⟩
      rcases List.mem_append.mp shown with already | new
      · exact already
      · exact absurd (Run.published_mem_milestones new) (writes.publish _)
  | @request move m present asks unasked log =>
      rw [Log.milestones_request log] at shown
      exact ⟨m, present, rfl, .inl shown⟩
  | @trigger m present log =>
      rw [log] at shown
      exact ⟨m, present, rfl, .inl shown⟩
  | @finish m result present running log =>
      rw [Log.milestones_finish log] at shown
      exact ⟨m, present, rfl, .inl shown⟩
  | aside present repeated elsewhere log =>
      rw [Log.milestones_aside elsewhere log] at shown
      exact ⟨n, present, rfl, .inl shown⟩

theorem hasStored_of_play {moves : List Move} {c : Contest} {id : Nat} {m : Member}
    (run : Contest.empty.play moves = some c) (present : c.members.get? id = some m) :
    .published .leading ∈ c.log.milestones id →
      m.run.candidate.HasStored id (c.log.records m.run.candidate.resource) := by
  refine member_induction (P := fun _ c m => .published .leading ∈ c.log.milestones id →
    m.run.candidate.HasStored id (c.log.records m.run.candidate.resource)) ?_ run present
  intro moves c next move n reached step bearing ih led
  obtain ⟨m, present, same, published⟩ := bearing.published reached led
  obtain ⟨facts, log⟩ := log_of_step step
  rw [log, Log.records_append, same]
  refine Candidate.HasStored.append ?_ _
  rcases published with already | ⟨wall, effects, acts, proclaims⟩
  · exact ih m present already
  · -- Only a run that keeps the lease proclaims that it leads.
    have elected := elected_of_publish acts proclaims
    have deals : c.Deals Run.HasWon :=
      dealings_of_play (fun recalls _ dealing won => Run.hasWon_dealing recalls dealing won)
        (fun _ _ _ _ _ => nofun) reached
    exact deals.deals id m present (by rw [elected]; rfl)

/-- What holds of the life of a member's run. -/
structure Lifecycle (moves : List Move) (c : Contest) (id : Nat) (m : Member) : Prop where
  /-- It acquires first, then it leads and starts its work at most once, and it is released last. -/
  course : ∃ d outcome, c.log.milestones id <+: lifetime d outcome
  complete : ∀ outcome, m.run.stage = .ended outcome →
    ∃ d : Departure, c.log.milestones id = lifetime d outcome ∧
      Checked moves id m.run.candidate d.verdict outcome
  won : .published .leading ∈ c.log.milestones id →
    m.run.candidate.HasStored id (c.log.records m.run.candidate.resource)
  decides : ∀ time reason, .relieved time reason ∈ c.log.milestones id →
    Decides moves id m.run.candidate time reason
  failed : ∀ outcome, m.run.stage = .ended outcome → ((∃ message, outcome = .workFailed message) ↔
    ∃ time result, .relieved time (.workEnded result) ∈ c.log.milestones id ∧ result ≠ .done)
  announced : .announced ∈ c.log.milestones id ↔ m.run.stage = .ended .graceful
  /-- By the time it shows that it has left, its work was told to stop, and has ended or was
  aborted. -/
  dismissed : .published .released ∈ c.log.milestones id → .workStarted ∈ c.log.milestones id →
    m.workScope = true ∧ ((∃ result, m.work = .finished result) ∨ m.work = .aborted)
  /-- By then it also has given its lease back, or somebody else has replaced it. -/
  parted : .published .released ∈ c.log.milestones id → m.run.candidate.identity ≠ "" →
    ∀ x, (c.log.records m.run.candidate.resource).getLast? = some x →
      ¬ x.Claims id m.run.candidate.identity

theorem failed_iff {d : Departure} {resource : String} {asked : Bool} :
    (∃ message, d.verdict.outcome resource asked = .workFailed message) ↔
      ∃ time result, d = .relieved time (.workEnded result) ∧ result ≠ .done := by
  have stopped : ∀ message, Verdict.stopped.outcome resource asked ≠ .workFailed message := by
    intro message
    cases asked <;> simp [Verdict.outcome]
  constructor
  · rintro ⟨message, same⟩
    cases d with
    | withdrawn => exact absurd same (stopped message)
    | relieved time reason =>
        cases reason with
        | requested | lost => exact absurd same (stopped message)
        | workEnded result =>
            refine ⟨time, result, rfl, ?_⟩
            rintro rfl
            exact absurd same (stopped message)
  · rintro ⟨time, result, rfl, failed⟩
    cases result with
    | done => exact absurd rfl failed
    | failed message | crashed message => exact ⟨message, rfl⟩

end Contest

namespace Stage

variable {stage : Stage} (retired : stage.hasRetired = true)

include retired

theorem hasDismissed_of_hasRetired : stage.hasDismissed = true := by
  cases stage with
  | closing | announcing | ended => rfl
  | _ => cases retired

theorem mayWork_of_hasRetired : stage.mayWork = false := by
  cases stage with
  | closing | announcing | ended => rfl
  | _ => cases retired

theorem hasParted_of_hasRetired : stage.hasParted = true := by
  cases stage with
  | closing | announcing | ended => rfl
  | _ => cases retired

end Stage

namespace Contest

theorem lifecycle_of_play {moves : List Move} {c : Contest} {id : Nat} {m : Member}
    (run : Contest.empty.play moves = some c) (present : c.members.get? id = some m) :
    Lifecycle moves c id m := by
  have marked := marked_of_play run present
  have employs := employs_of_play run present
  have complete : ∀ outcome, m.run.stage = .ended outcome →
      ∃ d : Departure, c.log.milestones id = lifetime d outcome ∧
        Checked moves id m.run.candidate d.verdict outcome := by
    intro outcome ended
    rw [ended] at marked
    exact marked
  refine ⟨marked.course, complete, hasStored_of_play run present, (reasoned_of_play run present).decides,
    fun outcome ended => ?_, marked.announced_iff, fun shown started => ?_, fun shown named => ?_⟩
  · obtain ⟨d, whole, before, c', wall, m', -, -, -, found⟩ := complete outcome ended
    rw [whole, found, failed_iff]
    simp only [relieved_mem_lifetime]
  · have retired := marked.hasRetired_of_mem shown
    refine ⟨employs.dismissed (Stage.hasDismissed_of_hasRetired retired) started, ?_⟩
    have begun := employs.started.mp started
    cases work : m.work with
    | idle => exact absurd work begun
    | running =>
        have working := employs.attends work
        rw [Stage.mayWork_of_hasRetired retired] at working
        cases working
    | finished result => exact .inl ⟨result, rfl⟩
    | aborted => exact .inr rfl
  · have settles := settles_of_play run present named
    exact settles.parted (Stage.hasParted_of_hasRetired (marked.hasRetired_of_mem shown))

/-- The work of a run fails, and before the run takes its next turn it is asked to stop: it heeds
the request, and the failure is no matter. -/
def askedAfterFailure : List Move :=
  [.start 1 ⟨"a", "test/lease", .ofSeconds 10, .ofSeconds 2⟩, .act 1 (.ofUnix 0 0),
    .act 1 (.ofUnix 0 0), .call 1, .call 1, .act 1 (.ofUnix 0 0), .act 1 (.ofUnix 0 0),
    .pass (.ofSeconds 1), .finish 1 (.failed "no input"), .cancel 1, .act 1 (.ofUnix 1 0),
    .act 1 (.ofUnix 1 0), .act 1 (.ofUnix 1 0), .call 1, .act 1 (.ofUnix 1 0),
    .act 1 (.ofUnix 1 0), .act 1 (.ofUnix 1 0)]

theorem lifecycle_of_play_askedAfterFailure :
    ∃ c m, Contest.empty.play askedAfterFailure = some c ∧ c.members.get? 1 = some m ∧
      Lifecycle askedAfterFailure c 1 m ∧ m.run.stage = .ended .graceful ∧
      c.log.milestones 1 =
        lifetime (.relieved (Duration.ofSeconds 1).nanos .requested) .graceful := by
  have played : ((Contest.empty.play askedAfterFailure).bind fun c => (c.members.get? 1).map
      fun m => (m.run.stage, c.log.milestones 1)) = some (.ended .graceful,
        lifetime (.relieved (Duration.ofSeconds 1).nanos .requested) .graceful) := by
    decide +kernel
  obtain ⟨c, run, rest⟩ := Option.bind_eq_some_iff.mp played
  obtain ⟨m, present, found⟩ := Option.map_eq_some_iff.mp rest
  obtain ⟨ended, whole⟩ := Prod.mk.inj found
  exact ⟨c, m, run, present, lifecycle_of_play run present, ended, whole⟩

end Contest

end LeaderLease
