import LeaderLease.Proofs.Dismissal

/-!
# Runs that break down

A run gives up when a sum leaves its range: the instant at which another's lease runs out, the count
of terms, the version, the instant of its next tick. `Run.Falters` names these sums for the step that
a run is about to take. `leavesCleanly_iff` says that a run breaks down for nothing else, and that
it leaves cleanly unless it breaks down, after any moves in any order.
-/

set_option autoImplicit false

namespace LeaderLease

namespace Run

/-- Another's lease runs out at an instant that the clock cannot show. -/
def Mistimes (r : Run) (now : Instant) (e : Entry) : Prop :=
  e.lease.holder ≠ "" ∧ e.lease.holder ≠ r.candidate.identity ∧
    Instant.limit ≤ r.sighting.standsSince now e.lease + e.lease.duration.nanos

/-- A lease that is free to be taken has had as many terms as can be counted. -/
def Miscounts (r : Run) (now : Instant) (e : Entry) : Prop :=
  e.lease.isHeldBy r.candidate.identity = false ∧
    (e.lease.holder ≠ "" →
      r.sighting.standsSince now e.lease + e.lease.duration.nanos ≤ now) ∧
    Lease.transitionLimit ≤ e.lease.transitions + 1

/-- The next step of the run, with the entry in the store, takes a sum out of its range. -/
def Falters (r : Run) (now : Instant) (current : Option Entry) : Prop :=
  match r.stage with
  | .fresh => r.candidate.retryPeriod.nanos = 0
  | .installing | .relieving .requested => Instant.limit ≤ now + r.candidate.retryPeriod.nanos
  | .reading _ _ => ∃ e, current = some e ∧ (r.Mistimes now e ∨ r.Miscounts now e)
  | .writing _ (.update version _) | .releasing _ version _ =>
    Entry.versionLimit ≤ version + 1 ∧ ∃ e, current = some e ∧ e.version = version
  | _ => False

end Run

/-- What is found is remembered with the instant since which it has stood. -/
theorem Sighting.since_observe (s : Sighting) (now : Instant) (e : Entry) :
    (s.observe now e).since = s.standsSince now e.lease := by
  obtain ⟨seen, since, reported⟩ := s
  cases seen with
  | none => rfl
  | some last =>
      by_cases same : last.lease = e.lease
      · simp [observe, standsSince, same]
      · simp [observe, standsSince, same]

theorem Instant.after?_eq_none_iff {t : Instant} {d : Duration} :
    t.after? d = none ↔ limit ≤ t + d.nanos := by
  simp only [after?, ite_eq_right_iff, reduceCtorEq, imp_false, Nat.not_lt]

theorem Ticker.delayed?_eq_none_iff {now : Instant} {period : Duration} :
    delayed? now period = none ↔ Instant.limit ≤ now + period.nanos := by
  rw [delayed?, Option.map_eq_none_iff, Instant.after?_eq_none_iff]

theorem Lease.nextTransitions?_eq_none_iff {l : Lease} :
    l.nextTransitions? = none ↔ transitionLimit ≤ l.transitions + 1 := by
  simp only [nextTransitions?, ite_eq_right_iff, reduceCtorEq, imp_false, Nat.not_lt]

theorem Entry.nextVersion?_eq_none_iff {version : Nat} :
    nextVersion? version = none ↔ versionLimit ≤ version + 1 := by
  simp only [nextVersion?, ite_eq_right_iff, reduceCtorEq, imp_false, Nat.not_lt]

/-! ## The steps that break a run -/

namespace Candidate

theorem claim_eq_overflow_iff (candidate : Candidate) (wall : Timestamp) (e : Entry) :
    candidate.claim wall e = .overflow ↔
      e.lease.isHeldBy candidate.identity = false ∧
        Lease.transitionLimit ≤ e.lease.transitions + 1 := by
  rw [← Lease.nextTransitions?_eq_none_iff]
  cases mine : e.lease.isHeldBy candidate.identity with
  | true => simp [claim, mine]
  | false => cases next : e.lease.nextTransitions? <;> simp [claim, mine, next]

/-- A foreign lease is waited for, or claimed once it has run out. -/
theorem decide_foreign_eq_overflow_iff (candidate : Candidate) (since now : Instant)
    (wall : Timestamp) (e : Entry) (held : e.lease.holder ≠ "")
    (other : e.lease.holder ≠ candidate.identity) :
    candidate.decide since now wall e = .overflow ↔
      Instant.limit ≤ since + e.lease.duration.nanos ∨
        since + e.lease.duration.nanos ≤ now ∧
          Lease.transitionLimit ≤ e.lease.transitions + 1 := by
  have isHeld : e.lease.isHeld = true := by simp [Lease.isHeld, held]
  have notMine : e.lease.isHeldBy candidate.identity = false := by simp [Lease.isHeldBy, other]
  cases expiry : Instant.after? since e.lease.duration with
  | none =>
      have beyond := Instant.after?_eq_none_iff.mp expiry
      simp [Candidate.decide, isHeld, other, expiry, beyond]
  | some instant =>
      have sum := Instant.after?_eq_some expiry
      have inRange : ¬ Instant.limit ≤ since + e.lease.duration.nanos := by
        intro beyond
        cases (Instant.after?_eq_none_iff.mpr beyond).symm.trans expiry
      subst sum
      by_cases live : now < since + e.lease.duration.nanos
      · have unspent := Nat.not_le.mpr live
        simp [Candidate.decide, isHeld, other, expiry, live, inRange, unspent]
      · have spent := Nat.le_of_not_lt live
        simp [Candidate.decide, isHeld, other, expiry, live, inRange, spent, notMine,
          claim_eq_overflow_iff]

theorem decide_eq_overflow_iff (candidate : Candidate) (since now : Instant) (wall : Timestamp)
    (e : Entry) :
    candidate.decide since now wall e = .overflow ↔
      (e.lease.holder ≠ "" ∧ e.lease.holder ≠ candidate.identity ∧
        Instant.limit ≤ since + e.lease.duration.nanos) ∨
      (e.lease.isHeldBy candidate.identity = false ∧
        (e.lease.holder ≠ "" → since + e.lease.duration.nanos ≤ now) ∧
        Lease.transitionLimit ≤ e.lease.transitions + 1) := by
  by_cases held : e.lease.holder = ""
  · have isHeld : e.lease.isHeld = false := by simp [Lease.isHeld, held]
    have claimed : candidate.decide since now wall e = candidate.claim wall e := by
      simp [Candidate.decide, isHeld]
    rw [claimed, claim_eq_overflow_iff]
    simp [held]
  · by_cases mine : e.lease.holder = candidate.identity
    · have claimed : candidate.decide since now wall e = candidate.claim wall e := by
        simp [Candidate.decide, mine]
      have isMine := (Lease.isHeldBy_iff _ _).mpr ⟨mine, mine ▸ held⟩
      rw [claimed, claim_eq_overflow_iff]
      simp [mine, isMine]
    · have notMine : e.lease.isHeldBy candidate.identity = false := by simp [Lease.isHeldBy, mine]
      rw [decide_foreign_eq_overflow_iff candidate since now wall e held mine]
      simp [held, mine, notMine]

end Candidate

namespace Run

variable {r next : Run} {now : Instant} {effects : List Effect}

theorem not_broken_failed (r : Run) (now : Instant) (goal : Goal) :
    (r.failed now goal).stage ≠ .broken := by
  rcases failed_cases r now goal with same | ⟨-, same | same⟩ <;> rw [same] <;> nofun

theorem not_broken_handBack (r : Run) (wall : Timestamp) (verdict : Verdict) :
    (r.handBack wall verdict).stage ≠ .broken := by
  rcases handBack_cases r wall verdict with same | ⟨e, -, -, same⟩ <;> rw [same] <;> nofun

theorem broken_act_iff {v : View} (acts : r.Acts v next effects) (current : Option Entry) :
    next.stage = .broken ↔ r.Falters v.now current := by
  cases acts with
  | refuse stage still => simp [Falters, stage, goTo, still]
  | begin stage ticking => simp [Falters, stage, goTo, ticking]
  | install stage following | linger stage following =>
      simp [Falters, stage, goTo, ← Ticker.delayed?_eq_none_iff, following]
  | installLate stage none | lingerLate stage none =>
      simp [Falters, stage, goTo, ← Ticker.delayed?_eq_none_iff, none]
  | finish stage | conclude stage =>
      simp [Falters, stage, not_broken_handBack]
  | attempt stage | withdraw stage | heed stage | notice stage | proclaim stage | dismiss stage
  | abort stage | retire stage | closeFailed stage | closeAsked stage | closeLost stage
  | announce stage =>
      simp [Falters, stage, goTo]

theorem broken_read_iff {goal : Goal} {wall : Timestamp} (stage : r.stage = .reading goal wall)
    (current : Option Entry) :
    (r.receiveRead now (.ok current)).1.stage = .broken ↔ r.Falters now current := by
  -- `Reads` does not keep why a decision overflows, so the decision itself is opened here.
  simp only [receiveRead, stage, Falters]
  cases current with
  | none => simp [afterRead, goTo]
  | some e =>
      have overflow := r.candidate.decide_eq_overflow_iff (r.sighting.observe now e).since now wall e
      simp only [Option.some.injEq, exists_eq_left', Mistimes, Miscounts, ← Sighting.since_observe,
        ← overflow]
      cases decision : r.candidate.decide (r.sighting.observe now e).since now wall e with
      | wait => simp [afterRead, observe, decision, not_broken_failed]
      | write w => simp [afterRead, observe, decision, goTo]
      | overflow => simp [afterRead, observe, decision, goTo]

end Run

theorem MemoryStore.update_exhausted_iff {s : MemoryStore} {key : String} {version : Nat}
    {l : Lease} :
    (s.update key version l).1 = .error .exhausted ↔
      Entry.versionLimit ≤ version + 1 ∧ ∃ e, s.get? key = some e ∧ e.version = version := by
  rw [← Entry.nextVersion?_eq_none_iff]
  cases found : s.get? key with
  | none => simp [update, found]
  | some e =>
      by_cases same : e.version = version
      · cases next : Entry.nextVersion? version <;> simp [update, found, same, next]
      · simp [update, found, same]

theorem MemoryStore.create_not_exhausted {s : MemoryStore} {key : String} {l : Lease} :
    (s.create key l).1 ≠ .error .exhausted := by
  cases found : s.get? key <;> simp [create, found]

theorem Run.broken_write_iff {r next : Run} {now : Instant} {w : Write} {s : MemoryStore}
    {key : String} {effects : List Effect} (called : r.call? = some (.write w))
    (writes : r.Writes now (s.write key w).1 next effects) :
    next.stage = .broken ↔ r.Falters now (s.get? key) := by
  have faltering : r.Falters now (s.get? key) ↔ (s.write key w).1 = .error .exhausted := by
    rcases stage_of_write called with ⟨goal, stage⟩ | ⟨verdict, version, l, stage, rfl⟩
    · cases w with
      | create l => simp [Falters, stage, MemoryStore.write, MemoryStore.create_not_exhausted]
      | update version l =>
          rw [MemoryStore.write, MemoryStore.update_exhausted_iff, Falters, stage]
    · rw [MemoryStore.write, MemoryStore.update_exhausted_iff, Falters, stage]
  rw [faltering]
  generalize (s.write key w).1 = answer at writes
  cases writes with
  | @succeeded goal => cases goal <;> simp [succeeded, goTo]
  | failed stage inRange => simp [not_broken_failed, inRange]
  | released => simp [goTo]
  | kept stage inRange => simp [goTo, inRange]
  | exhausted => simp [goTo]

theorem Run.Acts.not_broken {r next : Run} {v : View} {effects : List Effect}
    (acts : r.Acts v next effects) : r.stage ≠ .broken := by
  intro broken
  cases acts with
  | refuse stage | begin stage | attempt stage | withdraw stage | heed stage | notice stage
  | finish stage | proclaim stage | install stage | installLate stage | linger stage
  | lingerLate stage | dismiss stage | conclude stage | abort stage | retire stage
  | closeFailed stage | closeAsked stage | closeLost stage | announce stage =>
      cases stage.symm.trans broken

/-- A move that is a step of the member's run. -/
def Move.Steps (id : Nat) : Move → Prop
  | .act i _ | .call i => i = id
  | _ => False

theorem Move.Steps.member? {id : Nat} {move : Move} (steps : move.Steps id) :
    move.member? = some id := by
  cases move with
  | act i | call i => exact congrArg some steps
  | _ => exact False.elim steps

theorem Move.Steps.not_asks {id : Nat} {move : Move} (steps : move.Steps id) :
    ¬ move.Asks id := by
  cases move with
  | act | call => exact fun asks => asks
  | _ => exact False.elim steps

namespace Contest

variable {moves : List Move} {c next : Contest} {id : Nat} {m n : Member} {move : Move}

theorem run_of_read {goal : Goal} {wall : Timestamp} (step : c.step (.call id) = some next)
    (present : c.members.get? id = some m) (stage : m.run.stage = .reading goal wall)
    (found : next.members.get? id = some n) :
    n.run = (m.run.receiveRead c.now (.ok (c.store.get? m.run.candidate.resource))).1 := by
  have called : m.run.call? = some .get := by simp only [Run.call?, stage]
  have same : c.step (.call id) = some (c.read id m) := by
    simp [Contest.step, present, called]
  cases Option.some.inj (step.symm.trans same)
  simp only [read, settle, note, put, Table.get?_put, if_true, Option.some.injEq] at found
  rw [← found, affectAll_run]

theorem broken_step_iff (run : Contest.empty.play moves = some c) (step : c.step move = some next)
    (present : c.members.get? id = some m) (found : next.members.get? id = some n) :
    n.run.stage = .broken ↔ m.run.stage = .broken ∨
      move.Steps id ∧ m.run.Falters c.now (c.store.get? m.run.candidate.resource) := by
  cases bearing_of_step step found with
  | start unused => exact absurd ((chronicle_of_play run).present id m present) unused
  | act present' acts =>
      cases Option.some.inj (present.symm.trans present')
      have breaks := Run.broken_act_iff acts (c.store.get? m.run.candidate.resource)
      rw [Member.after_run, breaks]
      simp [acts.not_broken, Move.Steps, Member.view]
  | read present' stage reads =>
      cases Option.some.inj (present.symm.trans present')
      rw [run_of_read step present stage found, Run.broken_read_iff stage]
      simp [stage, Move.Steps]
  | write present' called writes =>
      cases Option.some.inj (present.symm.trans present')
      have live : m.run.stage ≠ .broken := by
        intro broken
        rw [Run.call?, broken] at called
        cases called
      rw [Member.after_run, Run.broken_write_iff called writes]
      simp [live, Move.Steps]
  | request present' asks =>
      cases Option.some.inj (present.symm.trans present')
      have other : ¬ move.Steps id := fun steps => steps.not_asks asks
      simp [other]
  | trigger present' | finish present' =>
      cases Option.some.inj (present.symm.trans present')
      simp [Move.Steps]
  | aside present' repeated =>
      cases Option.some.inj (present.symm.trans present')
      have other : ¬ move.Steps id := fun steps => steps.not_asks (repeated steps.member?).1
      simp [other]

/-- On the way of the moves, a step of the member's run took a sum out of its range. -/
def Faltered (moves : List Move) (id : Nat) : Prop :=
  ∃ before here move n, Passes moves before here move ∧ move.Steps id ∧
    here.members.get? id = some n ∧
    n.run.Falters here.now (here.store.get? n.run.candidate.resource)

theorem faltered_concat_iff (run : Contest.empty.play moves = some c) :
    Faltered (moves ++ [move]) id ↔ Faltered moves id ∨
      move.Steps id ∧ ∃ m, c.members.get? id = some m ∧
        m.run.Falters c.now (c.store.get? m.run.candidate.resource) := by
  constructor
  · rintro ⟨before, here, other, n, passes, steps, present, falters⟩
    rcases passes.of_concat with earlier | ⟨rfl, rfl⟩
    · exact .inl ⟨before, here, other, n, earlier, steps, present, falters⟩
    · cases Option.some.inj (run.symm.trans passes.2)
      exact .inr ⟨steps, n, present, falters⟩
  · rintro (⟨before, here, other, n, passes, rest⟩ | ⟨steps, m, present, falters⟩)
    · exact ⟨before, here, other, n, passes.mono [move], rest⟩
    · exact ⟨moves, c, move, m, .last run move, steps, present, falters⟩

theorem Faltered.started (faltered : Faltered moves id)
    (run : Contest.empty.play moves = some c) : Fact.started id ∈ c.log := by
  obtain ⟨before, here, move, n, passes, steps, -⟩ := faltered
  refine passes.started run steps.member? ?_
  rintro candidate rfl
  exact steps

theorem broken_iff_of_play (run : Contest.empty.play moves = some c)
    (present : c.members.get? id = some m) : m.run.stage = .broken ↔ Faltered moves id := by
  suffices all : ∀ m, c.members.get? id = some m → (m.run.stage = .broken ↔ Faltered moves id) from
    all m present
  refine moves_induction (P := fun moves c => ∀ m, c.members.get? id = some m →
    (m.run.stage = .broken ↔ Faltered moves id)) ?_ ?_ run
  · intro m present
    cases present
  intro moves c next move reached ih step n found
  rw [faltered_concat_iff reached]
  cases before : c.members.get? id with
  | some m =>
      rw [broken_step_iff reached step before found, ih m before]
      simp
  | none =>
      cases bearing_of_step step found with
      | start unused =>
          have unknown : ¬ Faltered moves id := fun faltered => unused (faltered.started reached)
          simp [Run.start, unknown]
      | act present | read present | write present | request present | trigger present
      | finish present | aside present => cases before.symm.trans present

end Contest

/-! ## What a run leaves behind -/

/-- The state that a member shows last is that it is released, if its run has retired. -/
def Member.IsCandid (m : Member) : Prop :=
  m.state = .released ↔ m.run.stage.hasRetired = true

namespace Member.IsCandid

variable {id : Nat} {m : Member} {r : Run} {effects : List Effect} {now : Instant}

theorem quiet (candid : m.IsCandid) (silent : ∀ state, .publish state ∉ effects)
    (same : r.stage.hasRetired = m.run.stage.hasRetired) :
    (m.after id (r, effects)).IsCandid := by
  rw [IsCandid, after_state silent, after_run, same]
  exact candid

theorem act {wall : Timestamp} (acts : m.run.Acts (m.view now wall) r effects)
    (candid : m.IsCandid) : (m.after id (r, effects)).IsCandid := by
  cases acts with
  | refuse | begin | proclaim =>
      rw [IsCandid, after_run]
      constructor <;> nofun
  | retire =>
      rw [IsCandid, after_run]
      exact ⟨fun _ => rfl, fun _ => rfl⟩
  | finish stage | conclude stage =>
      refine candid.quiet (by simp) ?_
      rw [stage, Run.hasRetired_handBack]
      rfl
  | attempt stage | withdraw stage | heed stage | notice stage | install stage | installLate stage
  | linger stage | lingerLate stage | dismiss stage | abort stage | closeFailed stage
  | closeAsked stage | closeLost stage | announce stage =>
      refine candid.quiet (by simp) ?_
      rw [stage]
      rfl

theorem read {goal : Goal} {wall : Timestamp} {answer : ReadAnswer}
    (stage : m.run.stage = .reading goal wall) (reads : m.run.Reads now goal wall answer r effects)
    (candid : m.IsCandid) : (m.after id (r, effects)).IsCandid := by
  refine candid.quiet reads.publish ?_
  rw [reads.hasRetired, stage]
  rfl

theorem write {w : Write} {answer : WriteAnswer} (called : m.run.call? = some (.write w))
    (writes : m.run.Writes now answer r effects) (candid : m.IsCandid) :
    (m.after id (r, effects)).IsCandid := by
  refine candid.quiet writes.publish ?_
  rw [writes.hasRetired]
  rcases Run.stage_of_write called with ⟨goal, stage⟩ | ⟨verdict, version, lease, stage, -⟩ <;>
    rw [stage] <;> rfl

end Member.IsCandid

namespace Contest

variable {moves : List Move} {c : Contest} {id : Nat} {m : Member}

theorem isCandid_of_play (run : Contest.empty.play moves = some c)
    (present : c.members.get? id = some m) : m.IsCandid := by
  refine member_induction (P := fun _ _ m => m.IsCandid) ?_ run present
  intro moves c next move n reached step bearing ih
  cases bearing with
  | start => exact ⟨nofun, nofun⟩
  | act present acts => exact (ih _ present).act acts
  | read present stage reads => exact (ih _ present).read stage reads
  | write present called writes => exact (ih _ present).write called writes
  | @request _ m present => exact ih m present
  | @trigger m present => exact ih m present
  | @finish m result present => exact ih m present
  | aside present => exact ih n present

/-- A run that takes no further step has come to an outcome. It shows that it is released, and its
work, if there was any, was told to stop and has stopped. -/
def LeavesCleanly (m : Member) : Prop :=
  m.run.hasEnded = true → (∃ outcome, m.run.stage = .ended outcome) ∧ m.state = .released ∧
    m.work ≠ .running ∧ (m.work = .idle ∨ m.workScope = true)

theorem leavesCleanly_of_ended {outcome : Outcome} (run : Contest.empty.play moves = some c)
    (present : c.members.get? id = some m) (ended : m.run.stage = .ended outcome) :
    LeavesCleanly m := by
  have employs := employs_of_play run present
  refine fun _ => ⟨⟨outcome, ended⟩, ?_, ?_, ?_⟩
  · apply (isCandid_of_play run present).mpr
    rw [ended]
    rfl
  · intro running
    have working := employs.attends running
    rw [ended] at working
    cases working
  · by_cases idle : m.work = .idle
    · exact .inl idle
    · exact .inr (employs.dismissed (by rw [ended]; rfl) (employs.started.mpr idle))

/-- A run breaks down exactly if a step of it takes a sum out of its range, and every other run
leaves cleanly. -/
theorem leavesCleanly_iff (run : Contest.empty.play moves = some c)
    (present : c.members.get? id = some m) :
    (m.run.stage = .broken ↔ Faltered moves id) ∧ (LeavesCleanly m ↔ ¬ Faltered moves id) ∧
      (m.run.stage = .broken → m.state ≠ .released) := by
  have broken_iff := broken_iff_of_play run present
  refine ⟨broken_iff, ?_, fun broken released => ?_⟩
  · rw [← broken_iff]
    constructor
    · intro clean broken
      obtain ⟨⟨outcome, ended⟩, -⟩ := clean (by rw [Run.hasEnded, broken])
      cases broken.symm.trans ended
    · intro whole done
      have ended : ∃ outcome, m.run.stage = .ended outcome := by
        cases stage : m.run.stage with
        | ended outcome => exact ⟨outcome, rfl⟩
        | broken => exact absurd stage whole
        | _ =>
            rw [Run.hasEnded, stage] at done
            cases done
      obtain ⟨outcome, ended⟩ := ended
      exact leavesCleanly_of_ended run present ended done
  · have retired := (isCandid_of_play run present).mp released
    rw [broken] at retired
    cases retired

/-- A run leads. Somebody else stores a lease of the longest duration, and the run, at its next
attempt, asks when that lease runs out. -/
def endlessLease : List Move :=
  [.start 1 ⟨"a", "test/lease", .ofSeconds 10, .ofSeconds 2⟩, .act 1 (.ofUnix 0 0),
    .act 1 (.ofUnix 0 0), .call 1, .call 1, .act 1 (.ofUnix 0 0), .act 1 (.ofUnix 0 0),
    .pass (.ofSeconds 1),
    .foreign "test/lease"
      (.update 1 ⟨"x", .ofSeconds 18446744073709551615, .ofUnix 1 0, .ofUnix 1 0, 1⟩),
    .pass (.ofSeconds 1), .act 1 (.ofUnix 2 0), .call 1]

theorem played_endlessLease :
    ∃ c m, Contest.empty.play endlessLease = some c ∧ c.members.get? 1 = some m ∧
      m.run.stage = .broken ∧ m.state = .leading ∧ m.work = .running ∧ m.workScope = false := by
  have played : ((Contest.empty.play endlessLease).bind fun c => (c.members.get? 1).map fun m =>
      (m.run.stage, m.state, m.work, m.workScope)) =
      some (.broken, .leading, .running, false) := by
    decide +kernel
  obtain ⟨c, run, rest⟩ := Option.bind_eq_some_iff.mp played
  obtain ⟨m, present, found⟩ := Option.map_eq_some_iff.mp rest
  simp only [Prod.mk.injEq] at found
  exact ⟨c, m, run, present, found⟩

theorem leavesCleanly_iff_endlessLease :
    ∃ c m, Contest.empty.play endlessLease = some c ∧ c.members.get? 1 = some m ∧
      m.run.stage = .broken ∧ Faltered endlessLease 1 := by
  obtain ⟨c, m, run, present, broken, -⟩ := played_endlessLease
  exact ⟨c, m, run, present, broken, (leavesCleanly_iff run present).1.mp broken⟩

/-- The work goes on, and nothing has told it to stop. -/
theorem endlessLease_not_leavesCleanly :
    ∃ c m, Contest.empty.play endlessLease = some c ∧ c.members.get? 1 = some m ∧
      m.state = .leading ∧ m.work = .running ∧ m.workScope = false ∧ ¬ LeavesCleanly m := by
  obtain ⟨c, m, run, present, broken, leading, running, live⟩ := played_endlessLease
  refine ⟨c, m, run, present, leading, running, live, fun clean => ?_⟩
  have gone : m.run.hasEnded = true := by rw [Run.hasEnded, broken]
  exact (clean gone).2.2.1 running

end Contest

end LeaderLease
