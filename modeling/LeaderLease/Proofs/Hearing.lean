import LeaderLease.Proofs.Lifecycle

/-!
# Who hears of a request to stop

A cancelled context asks a member to stop at once; a trigger asks it by the listener's task, whenever
that takes its turn. When the work of a run has returned, its outcome depends on whether one of them
has asked by the time the run closes: `graceful_iff_asked` proves it for any moves in any order.
-/

set_option autoImplicit false

namespace LeaderLease

namespace Contest

variable {moves : List Move} {c : Contest} {id : Nat} {m : Member}

/-- The scope of an election is cancelled exactly if some move has asked for it. -/
theorem scope_iff (run : Contest.empty.play moves = some c)
    (present : c.members.get? id = some m) :
    m.scope = true ↔ ∃ move ∈ moves, move.Asks id := by
  refine member_induction (P := fun moves _ m => m.scope = true ↔ ∃ move ∈ moves, move.Asks id) ?_
    run present
  intro moves c next move n reached step bearing ih
  have idle : ¬ move.Asks id → ((∃ other ∈ moves ++ [move], other.Asks id) ↔
      ∃ other ∈ moves, other.Asks id) := by
    intro silent
    simp [List.mem_append, or_and_right, exists_or, silent]
  cases bearing with
  | start unused log =>
      rw [idle nofun]
      constructor
      · intro scope
        cases scope
      · -- Nobody asks a member to stop before its start.
        rintro ⟨other, member, asks⟩
        obtain ⟨before, here, passes⟩ := passes_of_mem reached member
        refine absurd (passes.started reached asks.member? ?_) unused
        rintro candidate rfl
        exact asks
  | @act wall m r effects present acts log =>
      rw [idle nofun, Member.after_scope]
      exact ih m present
  | @read m goal wall r effects present stage reads log =>
      rw [idle nofun, Member.after_scope]
      exact ih m present
  | @write m w r effects present called writes log =>
      rw [idle nofun, Member.after_scope]
      exact ih m present
  | @request move m present asks unasked log =>
      refine ⟨fun _ => ⟨move, ?_, asks⟩, fun _ => rfl⟩
      exact List.mem_append_right _ (List.mem_singleton_self _)
  | @trigger m present log =>
      rw [idle nofun]
      exact ih m present
  | @finish m result present running log =>
      rw [idle nofun]
      exact ih m present
  | aside present repeated elsewhere log =>
      by_cases asks : move.Asks id
      · refine ⟨fun _ => ⟨move, ?_, asks⟩, fun _ => (repeated asks.member?).2⟩
        exact List.mem_append_right _ (List.mem_singleton_self _)
      · rw [idle asks]
        exact ih n present

/-! ## Work that has returned -/

theorem idle_of_installing (run : Contest.empty.play moves = some c)
    (present : c.members.get? id = some m) (stage : m.run.stage = .installing) :
    m.work = .idle := by
  have marked := marked_of_play run present
  rw [stage] at marked
  refine Decidable.byContradiction fun begun => ?_
  have started := (employs_of_play run present).started.mpr begun
  rw [marked] at started
  simp at started

theorem finished_after_act {now : Instant} {wall : Timestamp} {r : Run} {effects : List Effect}
    {result : WorkResult} (acts : m.run.Acts (m.view now wall) r effects)
    (unstarted : m.run.stage = .installing → m.work = .idle) :
    (m.after id (r, effects)).work = .finished result ↔ m.work = .finished result := by
  cases acts with
  | install stage | installLate stage =>
      rw [unstarted stage]
      constructor <;> nofun
  | abort =>
      by_cases running : m.work = .running <;>
        simp [Member.after, affectAll, affect, running]
  | _ => rw [Member.after_work (by simp) (by simp)]

/-- Work has a result exactly if it has returned with it. -/
theorem finished_iff {result : WorkResult} (run : Contest.empty.play moves = some c)
    (present : c.members.get? id = some m) :
    m.work = .finished result ↔ ∃ before here, Passes moves before here (.finish id result) := by
  refine member_induction (P := fun moves _ m => m.work = .finished result ↔
    ∃ before here, Passes moves before here (.finish id result)) ?_ run present
  intro moves c next move n reached step bearing ih
  have other : move ≠ .finish id result →
      ((∃ before here, Passes (moves ++ [move]) before here (.finish id result)) ↔
        ∃ before here, Passes moves before here (.finish id result)) := by
    intro different
    constructor
    · rintro ⟨before, here, passes⟩
      rcases passes.of_concat with earlier | ⟨-, same⟩
      · exact ⟨before, here, earlier⟩
      · exact absurd same.symm different
    · rintro ⟨before, here, passes⟩
      exact ⟨before, here, passes.mono [move]⟩
  cases bearing with
  | start unused log =>
      rw [other nofun]
      constructor
      · intro finished
        cases finished
      · rintro ⟨before, here, passes⟩
        exact absurd (passes.started reached rfl nofun) unused
  | @act wall m r effects present acts log =>
      rw [other nofun, finished_after_act acts (idle_of_installing reached present)]
      exact ih m present
  | @read m goal wall r effects present stage reads log =>
      rw [other nofun, Member.after_work reads.effects.1 reads.effects.2]
      exact ih m present
  | @write m w r effects present called writes log =>
      rw [other nofun, Member.after_work writes.effects.1 writes.effects.2]
      exact ih m present
  | @request move m present asks unasked log =>
      rw [other (by rintro rfl; exact asks)]
      exact ih m present
  | @trigger m present log =>
      rw [other nofun]
      exact ih m present
  | @finish m result' present running log =>
      constructor
      · intro finished
        cases finished
        exact ⟨moves, c, .last reached _⟩
      · rintro ⟨before, here, passes⟩
        rcases passes.of_concat with earlier | ⟨-, same⟩
        · -- Work that has returned does not run, so it returns only once.
          have finished := (ih m present).mpr ⟨before, here, earlier⟩
          cases running.symm.trans finished
        · cases same
          rfl
  | aside present repeated elsewhere log =>
      rw [other (by rintro rfl; exact (repeated rfl).1)]
      exact ih n present

/-- A run whose work has returned well does not leave for a failure of it. -/
theorem verdict_of_returned {before : List Move} {there : Contest} {d : Departure}
    {outcome : Outcome} (run : Contest.empty.play moves = some c)
    (present : c.members.get? id = some m) (returned : Passes moves before there (.finish id .done))
    (whole : c.log.milestones id = lifetime d outcome) : d.verdict = .stopped := by
  cases d with
  | withdrawn => rfl
  | relieved time reason =>
      cases reason with
      | requested | lost => rfl
      | workEnded result =>
          have shown : .relieved time (.workEnded result) ∈ c.log.milestones id := by
            rw [whole, relieved_mem_lifetime]
          cases (reasoned_of_play run present).decides time _ shown with
          | workEnded polls unasked finished =>
              -- The loop has seen the result with which the work returned.
              obtain ⟨early, wall, passes⟩ := polls.passes
              obtain ⟨first, here, ended⟩ := (finished_iff passes.2 polls.present).mp finished
              have part := (List.prefix_append early [.act id wall]).trans passes.1
              have same := (finished_iff run present).mpr ⟨first, here, ended.trans part⟩
              have done := (finished_iff run present).mpr ⟨before, there, returned⟩
              cases same.symm.trans done
              rfl

end Contest

namespace Run

variable {r next : Run} {now : Instant} {effects : List Effect} {resource : String}

theorem Acts.unasked_of_lost {v : View} (acts : r.Acts v next effects)
    (lost : next.stage = .ended (.lost resource)) : v.requested = false := by
  cases acts with
  | closeLost stage unasked => exact unasked
  | finish | conclude => exact absurd lost (Stage.not_ended (hasRetired_handBack r v.wall _) _)
  | _ => cases lost

end Run

namespace Contest

variable {moves : List Move} {c : Contest} {id : Nat} {m : Member}

/-- A run that was asked to stop before its work returned is not lost. -/
theorem not_lost_of_asked {resource : String} (run : Contest.empty.play moves = some c)
    (present : c.members.get? id = some m) :
    (∃ before there, Passes moves before there (.finish id .done) ∧
      ∃ move ∈ before, move.Asks id) → m.run.stage ≠ .ended (.lost resource) := by
  refine member_induction (P := fun moves _ m => (∃ before there,
    Passes moves before there (.finish id .done) ∧ ∃ move ∈ before, move.Asks id) →
    m.run.stage ≠ .ended (.lost resource)) ?_ run present
  rintro moves c next move n reached step bearing ih ⟨before, there, returned, other, member, asks⟩
  cases bearing with
  | start => nofun
  | @act wall m r effects present acts =>
      rw [Member.after_run]
      intro lost
      rcases returned.of_concat with earlier | ⟨-, same⟩
      · have asked := (scope_iff reached present).mpr
          ⟨other, ((List.prefix_append before _).trans earlier.1).subset member, asks⟩
        cases asked.symm.trans (acts.unasked_of_lost lost)
      · cases same
  | @read m goal wall r effects present stage reads =>
      rw [Member.after_run]
      exact Stage.not_ended reads.hasRetired _
  | @write m w r effects present called writes =>
      rw [Member.after_run]
      exact Stage.not_ended writes.hasRetired _
  | @finish m result present running =>
      intro lost
      have working := (employs_of_play reached present).attends running
      rw [lost] at working
      cases working
  | @request move m present asks' =>
      rcases returned.of_concat with earlier | ⟨-, same⟩
      · exact ih m present ⟨before, there, earlier, other, member, asks⟩
      · subst same
        cases asks'
  | @trigger m present =>
      rcases returned.of_concat with earlier | ⟨-, same⟩
      · exact ih m present ⟨before, there, earlier, other, member, asks⟩
      · cases same
  | aside present repeated =>
      rcases returned.of_concat with earlier | ⟨-, same⟩
      · exact ih n present ⟨before, there, earlier, other, member, asks⟩
      · subst same
        cases (repeated rfl).1

/-- A run whose work has returned well ends gracefully, and announces it, exactly if it was asked to
stop by the time it closes; so it does if it was asked before the work returned. -/
theorem graceful_iff_asked {before : List Move} {there : Contest} {outcome : Outcome}
    (run : Contest.empty.play moves = some c) (present : c.members.get? id = some m)
    (ended : m.run.stage = .ended outcome) (returned : Passes moves before there (.finish id .done)) :
    (outcome = .graceful ∨ outcome = .lost m.run.candidate.resource) ∧
      (.announced ∈ c.log.milestones id ↔ outcome = .graceful) ∧
      (∃ closing here wall n, Passes moves closing here (.act id wall) ∧
        here.members.get? id = some n ∧ n.run.stage = .closing .stopped ∧
        (outcome = .graceful ↔ ∃ move ∈ closing, move.Asks id)) ∧
      ((∃ move ∈ before, move.Asks id) → outcome = .graceful) := by
  have marked := marked_of_play run present
  have announced := marked.announced_iff
  rw [ended] at marked
  obtain ⟨d, whole, closing, here, wall, n, passes, found, stage, outcomeOf⟩ := marked
  rw [verdict_of_returned run present returned whole] at stage outcomeOf
  have either : outcome = .graceful ∨ outcome = .lost m.run.candidate.resource := by
    rw [outcomeOf]
    cases n.scope <;> simp [Verdict.outcome]
  refine ⟨either, ?_, ⟨closing, here, wall, n, passes, found, stage, ?_⟩, fun asked => ?_⟩
  · rw [announced, ended, Stage.ended.injEq]
  · rw [← scope_iff passes.2 found, outcomeOf]
    cases n.scope <;> simp [Verdict.outcome]
  · rcases either with graceful | lost
    · exact graceful
    · rw [lost] at ended
      exact absurd ended (not_lost_of_asked run present ⟨before, there, returned, asked⟩)

/-- The work of a run completes the trigger, two seconds after its start. -/
def triggeredByWork : List Move :=
  [.start 1 ⟨"a", "test/lease", .ofSeconds 10, .ofSeconds 2⟩, .act 1 (.ofUnix 0 0),
    .act 1 (.ofUnix 0 0), .call 1, .call 1, .act 1 (.ofUnix 0 0), .act 1 (.ofUnix 0 0),
    .pass (.ofSeconds 2), .trigger 1]

theorem triggeredByWork_passes (part : triggeredByWork ++ [.finish 1 .done] <+: moves) :
    ∃ there, Passes moves triggeredByWork there (.finish 1 .done) := by
  have played : (Contest.empty.play triggeredByWork).isSome = true := by decide +kernel
  obtain ⟨there, reached⟩ := Option.isSome_iff_exists.mp played
  exact ⟨there, part, reached⟩

/-- The listener's task takes its turn after the lease was handed back and before the run closes. -/
def heardInTime : List Move :=
  triggeredByWork ++ [.finish 1 .done] ++ [.act 1 (.ofUnix 2 0), .act 1 (.ofUnix 2 0), .call 1,
    .listen 1, .act 1 (.ofUnix 2 0), .act 1 (.ofUnix 2 0), .act 1 (.ofUnix 2 0)]

theorem graceful_iff_asked_heardInTime :
    ∃ c m there, Contest.empty.play heardInTime = some c ∧ c.members.get? 1 = some m ∧
      m.run.stage = .ended .graceful ∧ Passes heardInTime triggeredByWork there (.finish 1 .done) ∧
      (¬ ∃ move ∈ triggeredByWork, move.Asks 1) ∧
      ∃ closing here wall, Passes heardInTime closing here (.act 1 wall) ∧
        ∃ move ∈ closing, move.Asks 1 := by
  have played : ((Contest.empty.play heardInTime).bind fun c => (c.members.get? 1).map fun m =>
      m.run.stage) = some (.ended .graceful) := by
    decide +kernel
  obtain ⟨c, run, rest⟩ := Option.bind_eq_some_iff.mp played
  obtain ⟨m, present, ended⟩ := Option.map_eq_some_iff.mp rest
  obtain ⟨there, returned⟩ : ∃ there, Passes heardInTime triggeredByWork there (.finish 1 .done) :=
    triggeredByWork_passes (List.prefix_append _ _)
  obtain ⟨-, -, ⟨closing, here, wall, n, passes, -, -, heard⟩, -⟩ :=
    graceful_iff_asked run present ended returned
  refine ⟨c, m, there, run, present, ended, returned, ?_, closing, here, wall, passes,
    heard.mp rfl⟩
  simp [triggeredByWork, Move.Asks]

/-- A request to stop that came before the work returned makes the end graceful, however it came. -/
def StopsGracefully (moves : List Move) (c : Contest) (id : Nat) (m : Member) : Prop :=
  ∀ before there outcome, Passes moves before there (.finish id .done) →
    (.cancel id ∈ before ∨ .trigger id ∈ before) → m.run.stage = .ended outcome →
      outcome = .graceful ∧ .announced ∈ c.log.milestones id

/-- The run takes all its turns before the listener's task takes one. -/
def closedUnheard : List Move :=
  triggeredByWork ++ [.finish 1 .done] ++ [.act 1 (.ofUnix 2 0), .act 1 (.ofUnix 2 0), .call 1,
    .act 1 (.ofUnix 2 0), .act 1 (.ofUnix 2 0)]

theorem closedUnheard_not_stopsGracefully :
    ∃ c m, Contest.empty.play closedUnheard = some c ∧ c.members.get? 1 = some m ∧
      m.run.stage = .ended (.lost "test/lease") ∧ ¬ StopsGracefully closedUnheard c 1 m := by
  have played : ((Contest.empty.play closedUnheard).bind fun c => (c.members.get? 1).map fun m =>
      m.run.stage) = some (.ended (.lost "test/lease")) := by
    decide +kernel
  obtain ⟨c, run, rest⟩ := Option.bind_eq_some_iff.mp played
  obtain ⟨m, present, ended⟩ := Option.map_eq_some_iff.mp rest
  refine ⟨c, m, run, present, ended, fun graceful => ?_⟩
  obtain ⟨there, returned⟩ :
      ∃ there, Passes closedUnheard triggeredByWork there (.finish 1 .done) :=
    triggeredByWork_passes (List.prefix_append _ _)
  have triggered : .trigger 1 ∈ triggeredByWork := by simp [triggeredByWork]
  cases (graceful _ there _ returned (.inr triggered) ended).1

end Contest

end LeaderLease
