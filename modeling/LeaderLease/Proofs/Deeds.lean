import LeaderLease.Election.Run

/-!
# What one step of a run can do

`Run.Acts`, `Run.Reads` and `Run.Writes` list the ways in which a run takes a step: by itself, with
the answer to a read, and with the answer to a write, each with the condition under which it is
taken, the run behind it and its effects. `acts_of_act`, `reads_of_receiveRead` and
`writes_of_receiveWrite` say that the lists are complete; what holds of every step is proved by one
case for each entry.
-/

set_option autoImplicit false

namespace LeaderLease

theorem Ticker.taken_onTime {t : Ticker} {now : Instant} (onTime : t.due = now) :
    t.taken now = ⟨now + t.period.nanos, t.period⟩ := by
  have close : ¬ t.due + slack.nanos < now := by
    rw [onTime]
    exact Nat.not_lt.mpr (Nat.le_add_right _ _)
  rw [taken, if_neg close, onTime]

theorem Lease.eq_of_nextTransitions? {l : Lease} {count : Nat}
    (next : l.nextTransitions? = some count) : count = l.transitions + 1 := by
  unfold nextTransitions? at next
  split at next
  · exact (Option.some.inj next).symm
  · cases next

namespace Goal

def ticker : Goal → Ticker
  | .acquire ticker | .lead ticker _ | .windDown ticker _ => ticker

/-- The lease is kept, not acquired. -/
def isRenewal : Goal → Bool
  | .acquire _ => false
  | .lead _ _ | .windDown _ _ => true

/-- The same goal after its tick is taken. -/
def ticked (now : Instant) : Goal → Goal
  | .acquire ticker => .acquire (ticker.taken now)
  | .lead ticker renewedAt => .lead (ticker.taken now) renewedAt
  | .windDown ticker renewedAt => .windDown (ticker.taken now) renewedAt

theorem isRenewal_ticked (now : Instant) (goal : Goal) :
    (goal.ticked now).isRenewal = goal.isRenewal := by
  cases goal <;> simp only [ticked, isRenewal]

end Goal

namespace Run

/-- A waiting run has nothing to do but to take a tick. -/
def Undisturbed (v : View) : Goal → Prop
  | .acquire _ => v.requested = false
  | .lead _ _ => v.requested = false ∧ ∀ result, v.work ≠ .finished result
  | .windDown _ _ => ∀ result, v.work ≠ .finished result

/-- The steps without the store. -/
inductive Acts (r : Run) (v : View) : Run → List Effect → Prop where
  | refuse (stage : r.stage = .fresh) (still : r.candidate.retryPeriod.nanos = 0) :
      Acts r v (r.goTo .broken) [.publish .acquiring, .stopListening]
  | begin (stage : r.stage = .fresh) (ticking : r.candidate.retryPeriod.nanos ≠ 0) :
      Acts r v (r.goTo (.waiting (.acquire (.immediate v.now r.candidate.retryPeriod))))
        [.publish .acquiring]
  | attempt {goal : Goal} (stage : r.stage = .waiting goal) (free : Undisturbed v goal)
      (due : goal.ticker.due ≤ v.now) :
      Acts r v (r.goTo (.reading (goal.ticked v.now) v.wall)) []
  | withdraw {ticker : Ticker} (stage : r.stage = .waiting (.acquire ticker))
      (asked : v.requested = true) : Acts r v (r.goTo (.retiring .stopped)) []
  | heed {ticker : Ticker} {renewedAt : Instant}
      (stage : r.stage = .waiting (.lead ticker renewedAt)) (asked : v.requested = true) :
      Acts r v (r.goTo (.relieving .requested)) []
  | notice {ticker : Ticker} {renewedAt : Instant} {result : WorkResult}
      (stage : r.stage = .waiting (.lead ticker renewedAt)) (unasked : v.requested = false)
      (finished : v.work = .finished result) : Acts r v (r.goTo (.relieving (.workEnded result))) []
  | finish {ticker : Ticker} {renewedAt : Instant} {result : WorkResult}
      (stage : r.stage = .waiting (.windDown ticker renewedAt))
      (finished : v.work = .finished result) : Acts r v (r.handBack v.wall .stopped) []
  | proclaim (stage : r.stage = .elected) : Acts r v (r.goTo .installing) [.publish .leading]
  | install {ticker : Ticker} (stage : r.stage = .installing)
      (next : Ticker.delayed? v.now r.candidate.retryPeriod = some ticker) :
      Acts r v (r.goTo (.waiting (.lead ticker v.now))) [.startWork]
  | installLate (stage : r.stage = .installing)
      (none : Ticker.delayed? v.now r.candidate.retryPeriod = none) :
      Acts r v (r.goTo .broken) [.startWork, .stopListening]
  | linger {ticker : Ticker} (stage : r.stage = .relieving .requested)
      (next : Ticker.delayed? v.now r.candidate.retryPeriod = some ticker) :
      Acts r v (r.goTo (.waiting (.windDown ticker v.now))) [.cancelWork]
  | lingerLate (stage : r.stage = .relieving .requested)
      (none : Ticker.delayed? v.now r.candidate.retryPeriod = none) :
      Acts r v (r.goTo .broken) [.cancelWork, .stopListening]
  | dismiss (stage : r.stage = .relieving .lost) : Acts r v (r.goTo .aborting) [.cancelWork]
  | conclude {result : WorkResult} (stage : r.stage = .relieving (.workEnded result)) :
      Acts r v (r.handBack v.wall (Verdict.ofResult result)) [.cancelWork]
  | abort (stage : r.stage = .aborting) : Acts r v (r.goTo (.retiring .stopped)) [.abortWork]
  | retire {verdict : Verdict} (stage : r.stage = .retiring verdict) :
      Acts r v (r.goTo (.closing verdict)) [.publish .released]
  | closeFailed {message : String} (stage : r.stage = .closing (.workFailed message)) :
      Acts r v (r.goTo (.ended (.workFailed message))) [.stopListening]
  | closeAsked (stage : r.stage = .closing .stopped) (asked : v.requested = true) :
      Acts r v (r.goTo .announcing) [.stopListening]
  | closeLost (stage : r.stage = .closing .stopped) (unasked : v.requested = false) :
      Acts r v (r.goTo (.ended (.lost r.candidate.resource))) [.stopListening]
  | announce (stage : r.stage = .announcing) :
      Acts r v (r.goTo (.ended .graceful)) [.announceDone]

/-- The ways to take the answer to a read. -/
inductive Reads (r : Run) (now : Instant) (goal : Goal) (wall : Timestamp) :
    ReadAnswer → Run → List Effect → Prop where
  | unreadable (e : StoreError) : Reads r now goal wall (.error e) (r.failed now goal) []
  | absent : Reads r now goal wall (.ok none)
      (r.goTo (.writing goal (.create (r.candidate.firstLease wall)))) []
  | held (e : Entry) (other : e.lease.holder ≠ "" ∧ e.lease.holder ≠ r.candidate.identity)
      (live : now < (r.sighting.observe now e).since + e.lease.duration.nanos) :
      Reads r now goal wall (.ok (some e)) ((r.observe now e).1.failed now goal)
        (r.observe now e).2
  | own (e : Entry) (mine : e.lease.isHeldBy r.candidate.identity = true) :
      Reads r now goal wall (.ok (some e))
        ((r.observe now e).1.goTo
          (.writing goal (.update e.version (r.candidate.renewedLease wall e.lease))))
        (r.observe now e).2
  | free (e : Entry) {count : Nat} (notMine : e.lease.isHeldBy r.candidate.identity = false)
      (spent : e.lease.holder ≠ "" → e.lease.holder ≠ r.candidate.identity →
        (r.sighting.observe now e).since + e.lease.duration.nanos ≤ now)
      (next : e.lease.nextTransitions? = some count) :
      Reads r now goal wall (.ok (some e))
        ((r.observe now e).1.goTo
          (.writing goal (.update e.version (r.candidate.takenLease wall count))))
        (r.observe now e).2
  | overflow (e : Entry)
      (beyond : Instant.after? (r.sighting.observe now e).since e.lease.duration = none ∨
        e.lease.nextTransitions? = none) :
      Reads r now goal wall (.ok (some e)) ((r.observe now e).1.goTo .broken)
        ((r.observe now e).2 ++ [.stopListening])

/-- The ways to take the answer to a write. -/
inductive Writes (r : Run) (now : Instant) : WriteAnswer → Run → List Effect → Prop where
  | succeeded {goal : Goal} {w : Write} (e : Entry) (stage : r.stage = .writing goal w) :
      Writes r now (.ok e) ((r.observe now e).1.succeeded now goal) (r.observe now e).2
  | failed {goal : Goal} {w : Write} {e : StoreError} (stage : r.stage = .writing goal w)
      (inRange : e ≠ .exhausted) : Writes r now (.error e) (r.failed now goal) []
  | released {verdict : Verdict} {version : Nat} {lease : Lease} (e : Entry)
      (stage : r.stage = .releasing verdict version lease) :
      Writes r now (.ok e) ((r.observe now e).1.goTo (.retiring verdict)) (r.observe now e).2
  | kept {verdict : Verdict} {version : Nat} {lease : Lease} {e : StoreError}
      (stage : r.stage = .releasing verdict version lease) (inRange : e ≠ .exhausted) :
      Writes r now (.error e) (r.goTo (.retiring verdict)) []
  | exhausted : Writes r now (.error .exhausted) (r.goTo .broken) [.stopListening]

theorem acts_of_tick {r next : Run} {v : View} {goal : Goal} {effects : List Effect}
    {make : Ticker → Goal} (stage : r.stage = .waiting goal) (free : Undisturbed v goal)
    (made : make (goal.ticker.taken v.now) = goal.ticked v.now)
    (run : r.tick v goal.ticker make = some (next, effects)) : r.Acts v next effects := by
  unfold tick at run
  split at run
  · rename_i due
    rw [made] at run
    cases Option.some.inj run
    exact .attempt stage free (of_decide_eq_true due)
  · cases run

theorem acts_of_wake {r next : Run} {v : View} {goal : Goal} {effects : List Effect}
    (stage : r.stage = .waiting goal) (run : r.wake v goal = some (next, effects)) :
    r.Acts v next effects := by
  cases goal with
  | acquire ticker =>
      cases asked : v.requested with
      | true =>
          simp only [wake, asked, if_true] at run
          cases Option.some.inj run
          exact .withdraw stage asked
      | false =>
          simp only [wake, asked, Bool.false_eq_true, if_false] at run
          exact acts_of_tick stage asked rfl run
  | lead ticker renewedAt =>
      cases asked : v.requested with
      | true =>
          simp only [wake, asked, if_true] at run
          cases Option.some.inj run
          exact .heed stage asked
      | false =>
          cases work : v.work with
          | finished result =>
              simp only [wake, asked, work] at run
              cases Option.some.inj run
              exact .notice stage asked work
          | idle | running | aborted =>
              simp only [wake, asked, work, Bool.false_eq_true, if_false] at run
              exact acts_of_tick stage ⟨asked, by simp [work]⟩ rfl run
  | windDown ticker renewedAt =>
      cases work : v.work with
      | finished result =>
          simp only [wake, work] at run
          cases Option.some.inj run
          exact .finish stage work
      | idle | running | aborted =>
          simp only [wake, work] at run
          exact acts_of_tick stage (by simp [Undisturbed, work]) rfl run

theorem acts_of_act {r next : Run} {v : View} {effects : List Effect}
    (run : r.act v = some (next, effects)) : r.Acts v next effects := by
  cases stage : r.stage with
  | fresh =>
      simp only [act, stage] at run
      split at run
      · rename_i still
        cases Option.some.inj run
        exact .refuse stage still
      · rename_i ticking
        cases Option.some.inj run
        exact .begin stage ticking
  | waiting goal =>
      simp only [act, stage] at run
      exact acts_of_wake stage run
  | elected =>
      simp only [act, stage] at run
      cases Option.some.inj run
      exact .proclaim stage
  | installing =>
      cases next : Ticker.delayed? v.now r.candidate.retryPeriod with
      | some ticker =>
          simp only [act, stage, await, next] at run
          cases Option.some.inj run
          exact .install stage next
      | none =>
          simp only [act, stage, await, next] at run
          cases Option.some.inj run
          exact .installLate stage next
  | relieving reason =>
      cases reason with
      | requested =>
          cases next : Ticker.delayed? v.now r.candidate.retryPeriod with
          | some ticker =>
              simp only [act, stage, await, next] at run
              cases Option.some.inj run
              exact .linger stage next
          | none =>
              simp only [act, stage, await, next] at run
              cases Option.some.inj run
              exact .lingerLate stage next
      | lost =>
          simp only [act, stage] at run
          cases Option.some.inj run
          exact .dismiss stage
      | workEnded result =>
          simp only [act, stage] at run
          cases Option.some.inj run
          exact .conclude stage
  | aborting =>
      simp only [act, stage] at run
      cases Option.some.inj run
      exact .abort stage
  | retiring verdict =>
      simp only [act, stage] at run
      cases Option.some.inj run
      exact .retire stage
  | closing verdict =>
      cases verdict with
      | workFailed message =>
          simp only [act, stage] at run
          cases Option.some.inj run
          exact .closeFailed stage
      | stopped =>
          cases asked : v.requested with
          | true =>
              simp only [act, stage, asked, if_true] at run
              cases Option.some.inj run
              exact .closeAsked stage asked
          | false =>
              simp only [act, stage, asked] at run
              cases Option.some.inj run
              exact .closeLost stage asked
  | announcing =>
      simp only [act, stage] at run
      cases Option.some.inj run
      exact .announce stage
  | reading goal wall => simp [act, stage] at run
  | writing goal w => simp [act, stage] at run
  | releasing verdict version lease => simp [act, stage] at run
  | ended outcome => simp [act, stage] at run
  | broken => simp [act, stage] at run

theorem handBack_cases (r : Run) (wall : Timestamp) (verdict : Verdict) :
    r.handBack wall verdict = r.goTo (.retiring verdict) ∨
      ∃ e, r.sighting.seen = some e ∧ e.lease.isHeldBy r.candidate.identity = true ∧
        r.handBack wall verdict = r.goTo
          (.releasing verdict e.version (Candidate.releasedLease wall e.lease.transitions)) := by
  cases seen : r.sighting.seen with
  | none => exact Or.inl (by simp only [handBack, seen])
  | some e =>
      by_cases mine : e.lease.isHeldBy r.candidate.identity = true
      · exact Or.inr ⟨e, rfl, mine, by simp only [handBack, seen, if_pos mine]⟩
      · exact Or.inl (by simp only [handBack, seen, if_neg mine])

/-- After a failed attempt a run waits again, or it has led for too long without a renewal. -/
theorem failed_cases (r : Run) (now : Instant) (goal : Goal) :
    r.failed now goal = r.goTo (.waiting goal) ∨
      goal.isRenewal = true ∧
        (r.failed now goal = r.goTo (.relieving .lost) ∨ r.failed now goal = r.goTo .aborting) := by
  cases goal with
  | acquire ticker => exact Or.inl rfl
  | lead ticker renewedAt =>
      by_cases old : r.candidate.renewDeadline.nanos ≤ now - renewedAt
      · exact Or.inr ⟨rfl, Or.inl (if_pos old)⟩
      · exact Or.inl (if_neg old)
  | windDown ticker renewedAt =>
      by_cases old : r.candidate.renewDeadline.nanos ≤ now - renewedAt
      · exact Or.inr ⟨rfl, Or.inr (if_pos old)⟩
      · exact Or.inl (if_neg old)

theorem reads_of_claim {r : Run} {now : Instant} {goal : Goal} {wall : Timestamp} {e : Entry}
    (free : e.lease.holder ≠ "" → e.lease.holder ≠ r.candidate.identity →
      (r.sighting.observe now e).since + e.lease.duration.nanos ≤ now)
    (decision : r.candidate.decide (r.sighting.observe now e).since now wall e =
      r.candidate.claim wall e) :
    r.Reads now goal wall (.ok (some e)) (r.afterRead now goal wall (.ok (some e))).1
      (r.afterRead now goal wall (.ok (some e))).2 := by
  by_cases mine : e.lease.isHeldBy r.candidate.identity = true
  · simp only [afterRead, observe, decision, Candidate.claim, if_pos mine]
    exact .own e mine
  · cases next : e.lease.nextTransitions? with
    | none =>
        simp only [afterRead, observe, decision, Candidate.claim, if_neg mine, next]
        exact .overflow e (Or.inr next)
    | some count =>
        simp only [afterRead, observe, decision, Candidate.claim, if_neg mine, next]
        exact .free e (Bool.eq_false_iff.mpr mine) free next

theorem reads_of_afterRead (r : Run) (now : Instant) (goal : Goal) (wall : Timestamp)
    (answer : ReadAnswer) :
    r.Reads now goal wall answer (r.afterRead now goal wall answer).1
      (r.afterRead now goal wall answer).2 := by
  match answer with
  | .error e => exact .unreadable e
  | .ok none => exact .absent
  | .ok (some e) =>
      by_cases foreign : e.lease.holder ≠ "" ∧ e.lease.holder ≠ r.candidate.identity
      · have isForeign :
            (e.lease.isHeld && decide (e.lease.holder ≠ r.candidate.identity)) = true := by
          simp [Lease.isHeld, foreign.1, foreign.2]
        cases expiry : Instant.after? (r.sighting.observe now e).since e.lease.duration with
        | none =>
            have decision : r.candidate.decide (r.sighting.observe now e).since now wall e =
                .overflow := by
              simp only [Candidate.decide, if_pos isForeign, expiry]
            simp only [afterRead, observe, decision]
            exact .overflow e (Or.inl expiry)
        | some instant =>
            have sum := Instant.after?_eq_some expiry
            by_cases live : now < instant
            · have decision : r.candidate.decide (r.sighting.observe now e).since now wall e =
                  .wait := by
                simp only [Candidate.decide, if_pos isForeign, expiry, if_pos live]
              simp only [afterRead, observe, decision]
              exact .held e foreign (sum ▸ live)
            · refine reads_of_claim (fun _ _ => sum ▸ Nat.le_of_not_lt live) ?_
              simp only [Candidate.decide, if_pos isForeign, expiry, if_neg live]
      · have notForeign :
            ¬ (e.lease.isHeld && decide (e.lease.holder ≠ r.candidate.identity)) = true := by
          simp only [Lease.isHeld, Bool.and_eq_true, decide_eq_true_eq]
          exact foreign
        refine reads_of_claim (fun held other => absurd ⟨held, other⟩ foreign) ?_
        simp only [Candidate.decide, if_neg notForeign]

theorem reads_of_receiveRead {r : Run} {goal : Goal} {wall : Timestamp}
    (stage : r.stage = .reading goal wall) (now : Instant) (answer : ReadAnswer) :
    r.Reads now goal wall answer (r.receiveRead now answer).1 (r.receiveRead now answer).2 := by
  simp only [receiveRead, stage]
  exact reads_of_afterRead r now goal wall answer

theorem writes_of_receiveWrite {r : Run} {w : Write} (called : r.call? = some (.write w))
    (now : Instant) (answer : WriteAnswer) :
    r.Writes now answer (r.receiveWrite now answer).1 (r.receiveWrite now answer).2 := by
  cases stage : r.stage with
  | writing goal w =>
      simp only [receiveWrite, stage]
      match answer with
      | .ok e => exact .succeeded e stage
      | .error e =>
          by_cases inRange : e = .exhausted
          · subst inRange
            exact .exhausted
          · have failed : r.afterWrite now goal (.error e) = (r.failed now goal, []) := by
              cases e <;> first | rfl | exact absurd rfl inRange
            rw [failed]
            exact .failed stage inRange
  | releasing verdict version lease =>
      simp only [receiveWrite, stage]
      match answer with
      | .ok e => exact .released e stage
      | .error e =>
          by_cases inRange : e = .exhausted
          · subst inRange
            exact .exhausted
          · have kept :
                r.afterRelease now verdict (.error e) = (r.goTo (.retiring verdict), []) := by
              cases e <;> first | rfl | exact absurd rfl inRange
            rw [kept]
            exact .kept stage inRange
  | _ => simp [call?, stage] at called

/-! ## What every step keeps -/

theorem failed_candidate (r : Run) (now : Instant) (goal : Goal) :
    (r.failed now goal).candidate = r.candidate := by
  cases goal <;> simp only [failed] <;> try split
  all_goals rfl

theorem failed_sighting (r : Run) (now : Instant) (goal : Goal) :
    (r.failed now goal).sighting = r.sighting := by
  cases goal <;> simp only [failed] <;> try split
  all_goals rfl

theorem succeeded_candidate (r : Run) (now : Instant) (goal : Goal) :
    (r.succeeded now goal).candidate = r.candidate := by
  cases goal <;> rfl

theorem succeeded_sighting (r : Run) (now : Instant) (goal : Goal) :
    (r.succeeded now goal).sighting = r.sighting := by
  cases goal <;> rfl

theorem handBack_candidate (r : Run) (wall : Timestamp) (verdict : Verdict) :
    (r.handBack wall verdict).candidate = r.candidate := by
  rcases handBack_cases r wall verdict with same | ⟨e, seen, mine, same⟩ <;> rw [same] <;> rfl

theorem handBack_sighting (r : Run) (wall : Timestamp) (verdict : Verdict) :
    (r.handBack wall verdict).sighting = r.sighting := by
  rcases handBack_cases r wall verdict with same | ⟨e, seen, mine, same⟩ <;> rw [same] <;> rfl

theorem Acts.candidate {r next : Run} {v : View} {effects : List Effect}
    (acts : r.Acts v next effects) : next.candidate = r.candidate := by
  cases acts <;> first | rfl | exact handBack_candidate r _ _

theorem Acts.sighting {r next : Run} {v : View} {effects : List Effect}
    (acts : r.Acts v next effects) : next.sighting = r.sighting := by
  cases acts <;> first | rfl | exact handBack_sighting r _ _

theorem Reads.candidate {r next : Run} {now : Instant} {goal : Goal} {wall : Timestamp}
    {answer : ReadAnswer} {effects : List Effect}
    (reads : r.Reads now goal wall answer next effects) : next.candidate = r.candidate := by
  cases reads <;> first | rfl | exact failed_candidate _ now goal

theorem Writes.candidate {r next : Run} {now : Instant} {answer : WriteAnswer}
    {effects : List Effect} (writes : r.Writes now answer next effects) :
    next.candidate = r.candidate := by
  cases writes <;>
    first | rfl | exact failed_candidate _ now _ | exact succeeded_candidate _ now _

theorem effects_of_observe (r : Run) (now : Instant) (e : Entry) :
    .startWork ∉ (r.observe now e).2 ∧ .abortWork ∉ (r.observe now e).2 := by
  constructor
  all_goals
    intro member
    simp only [observe, Option.mem_toList, Option.map_eq_some_iff, reduceCtorEq, and_false,
      exists_false] at member

/-- An answer of the store makes a run report or give up, but never touch its work. -/
theorem Reads.effects {r next : Run} {now : Instant} {goal : Goal} {wall : Timestamp}
    {answer : ReadAnswer} {effects : List Effect}
    (reads : r.Reads now goal wall answer next effects) :
    .startWork ∉ effects ∧ .abortWork ∉ effects := by
  cases reads with
  | unreadable | absent => simp
  | held e | own e | free e => exact effects_of_observe r now e
  | overflow e =>
      obtain ⟨noStart, noAbort⟩ := effects_of_observe r now e
      simp [noStart, noAbort]

theorem publish_of_observe (r : Run) (now : Instant) (e : Entry) (state : ElectionState) :
    .publish state ∉ (r.observe now e).2 := by
  intro member
  simp [observe, Option.map_eq_some_iff] at member

theorem Reads.publish {r next : Run} {now : Instant} {goal : Goal} {wall : Timestamp}
    {answer : ReadAnswer} {effects : List Effect}
    (reads : r.Reads now goal wall answer next effects) (state : ElectionState) :
    .publish state ∉ effects := by
  have quiet := fun e => publish_of_observe r now e state
  cases reads with
  | unreadable | absent => simp
  | held e | own e | free e => exact quiet e
  | overflow e => simp [quiet e]

theorem Writes.publish {r next : Run} {now : Instant} {answer : WriteAnswer}
    {effects : List Effect} (writes : r.Writes now answer next effects) (state : ElectionState) :
    .publish state ∉ effects := by
  cases writes with
  | failed | kept | exhausted => simp
  | succeeded e | released e => exact publish_of_observe r now e state

theorem Writes.effects {r next : Run} {now : Instant} {answer : WriteAnswer}
    {effects : List Effect} (writes : r.Writes now answer next effects) :
    .startWork ∉ effects ∧ .abortWork ∉ effects := by
  cases writes with
  | failed | kept | exhausted => simp
  | succeeded e | released e => exact effects_of_observe r now e

end Run

end LeaderLease
