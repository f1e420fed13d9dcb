import LeaderLease.Proofs.Pace

/-!
# A leader whose renewals fail

The schedule behind the bounds on failing renewals. One run wins its lease, a rival writes the lease
for so long that it does not run out, and every tick of the run fails from then on. `Stalled` says
what stays the same from tick to tick, `stalled_cycles` runs any number of ticks, and `stalled_asked`
goes from leading to winding down. The rhythm may thus be followed up to the instant at which
patience ends, first in leading and then once more in winding down.
-/

set_option autoImplicit false

namespace LeaderLease

namespace Goal

def retimed (ticker : Ticker) : Goal → Goal
  | .acquire _ => .acquire ticker
  | .lead _ renewedAt => .lead ticker renewedAt
  | .windDown _ renewedAt => .windDown ticker renewedAt

/-- Since when renewals may be failing. -/
def renewedAt : Goal → Instant
  | .acquire _ => 0
  | .lead _ renewedAt | .windDown _ renewedAt => renewedAt

@[simp] theorem ticker_retimed (ticker : Ticker) (goal : Goal) :
    (goal.retimed ticker).ticker = ticker := by cases goal <;> rfl

@[simp] theorem renewedAt_retimed (ticker : Ticker) (goal : Goal) :
    (goal.retimed ticker).renewedAt = goal.renewedAt := by cases goal <;> rfl

theorem ticked_retimed (ticker : Ticker) (goal : Goal) (now : Instant) :
    (goal.retimed ticker).ticked now = goal.retimed (ticker.taken now) := by cases goal <;> rfl

end Goal

theorem Sighting.since_observe_le {s : Sighting} {now : Instant} {e : Entry}
    (since : s.since ≤ now) : (s.observe now e).since ≤ now := by
  simp only [observe]
  split
  · exact since
  · exact Nat.le_refl now

namespace Run

theorem undisturbed_retimed {v : View} {goal : Goal} (ticker : Ticker)
    (free : Undisturbed v goal) : Undisturbed v (goal.retimed ticker) := by
  cases goal <;> exact free

theorem wake_early {r : Run} {v : View} {goal : Goal} (free : Undisturbed v goal)
    (early : v.now < goal.ticker.due) : r.wake v goal = none := by
  have notDue : ∀ make, r.tick v goal.ticker make = none := by
    intro make
    have late : ¬ goal.ticker.due ≤ v.now := Nat.not_le.mpr early
    simp only [tick, Ticker.isDue, decide_eq_true_eq, if_neg late]
  cases goal with
  | acquire ticker =>
      have unasked : v.requested = false := free
      simp only [wake, unasked, Bool.false_eq_true, if_false]
      exact notDue _
  | lead ticker renewedAt =>
      obtain ⟨unasked, unfinished⟩ := free
      cases work : v.work with
      | finished result => exact absurd work (unfinished result)
      | _ =>
          simp only [wake, unasked, work, Bool.false_eq_true, if_false]
          exact notDue _
  | windDown ticker renewedAt =>
      cases work : v.work with
      | finished result => exact absurd work (free result)
      | _ =>
          simp only [wake, work]
          exact notDue _

theorem wake_due {r : Run} {v : View} {goal : Goal} (free : Undisturbed v goal)
    (due : goal.ticker.due ≤ v.now) :
    r.wake v goal = some (r.goTo (.reading (goal.ticked v.now) v.wall), []) := by
  have taken : ∀ make, r.tick v goal.ticker make =
      some (r.goTo (.reading (make (goal.ticker.taken v.now)) v.wall), []) := by
    intro make
    simp only [tick, Ticker.isDue, decide_eq_true_eq, if_pos due]
  cases goal with
  | acquire ticker =>
      have unasked : v.requested = false := free
      simp only [wake, unasked, Bool.false_eq_true, if_false]
      exact taken _
  | lead ticker renewedAt =>
      obtain ⟨unasked, unfinished⟩ := free
      cases work : v.work with
      | finished result => exact absurd work (unfinished result)
      | _ =>
          simp only [wake, unasked, work, Bool.false_eq_true, if_false]
          exact taken _
  | windDown ticker renewedAt =>
      cases work : v.work with
      | finished result => exact absurd work (free result)
      | _ =>
          simp only [wake, work]
          exact taken _

/-- A renewal that fails while the last one is young changes nothing. -/
theorem failed_of_young {r : Run} {now : Instant} {goal : Goal}
    (young : now - goal.renewedAt < r.candidate.renewDeadline.nanos) :
    r.failed now goal = r.goTo (.waiting goal) := by
  cases goal with
  | acquire ticker => rfl
  | lead ticker renewedAt | windDown ticker renewedAt =>
      have bears : ¬ r.candidate.renewDeadline.nanos ≤ now - renewedAt := Nat.not_le.mpr young
      simp only [failed, if_neg bears]

theorem receiveRead_of_held {r : Run} {now : Instant} {goal : Goal} {wall : Timestamp} {e : Entry}
    (stage : r.stage = .reading goal wall) (held : e.lease.holder ≠ "")
    (other : e.lease.holder ≠ r.candidate.identity) (since : r.sighting.since ≤ now)
    (lasting : now < e.lease.duration.nanos)
    (inRange : now + e.lease.duration.nanos < Instant.limit) :
    r.receiveRead now (.ok (some e)) =
      ((r.observe now e).1.failed now goal, (r.observe now e).2) := by
  have seen := Sighting.since_observe_le (e := e) since
  have expiry : Instant.after? (r.sighting.observe now e).since e.lease.duration =
      some ((r.sighting.observe now e).since + e.lease.duration.nanos) := by
    rw [Instant.after?, if_pos (by lia)]
  have early : now < (r.sighting.observe now e).since + e.lease.duration.nanos := by lia
  have decision : r.candidate.decide (r.sighting.observe now e).since now wall e = .wait := by
    simp [Candidate.decide, Lease.isHeld, held, other, expiry, early]
  simp only [receiveRead, stage, afterRead, observe, decision]

end Run

theorem written_arrive (t : Tenure) (now : Instant) (stage : Stage) :
    (t.arrive now stage).written = t.written := by
  unfold Tenure.arrive
  split
  · simp only [Tenure.beat]
    split <;> rfl
  · rfl
  · rfl

theorem written_facts (log : Log) (id : Nat) (now : Instant) (m : Member)
    (step : Run × List Effect) :
    (Log.tenure (log ++ m.facts id now step) id).written = (log.tenure id).written := by
  rw [Log.tenure_facts, written_arrive]

/-- The contest has one member, which wrote its lease last at a given instant. -/
structure Contest.Alone (c : Contest) (m : Member) (written : Option Instant) : Prop where
  reached : c.Reached
  members : c.members = ⟨[(1, m)]⟩
  written : (c.log.tenure 1).written = written

namespace Contest.Alone

variable {c : Contest} {m : Member} {written : Option Instant}

theorem present (alone : c.Alone m written) : c.members.get? 1 = some m := by
  rw [alone.members]
  simp [Table.get?, Table.lookup]

theorem put_members (alone : c.Alone m written) (next : Member) :
    c.members.put 1 next = ⟨[(1, next)]⟩ := by
  rw [alone.members]
  simp [Table.put, Table.putEntry]

theorem act {wall : Timestamp} {step : Run × List Effect} (alone : c.Alone m written)
    (acted : m.run.act (m.view c.now wall) = some step) :
    ∃ next : Contest, next.Alone (m.after 1 step) written ∧ next.now = c.now ∧
      next.store = c.store := by
  refine ⟨c.settle 1 m step, ⟨?_, alone.put_members _, ?_⟩, rfl, rfl⟩
  · refine alone.reached.step (.act 1 wall) ?_
    exact Option.bind_eq_some_iff.mpr
      ⟨m, alone.present, Option.bind_eq_some_iff.mpr ⟨step, acted, rfl⟩⟩
  · exact (written_facts c.log 1 c.now m step).trans alone.written

theorem cancel (alone : c.Alone m written) (unasked : m.scope = false) :
    ∃ next : Contest, next.Alone { m with scope := true, workScope := true } written ∧
      next.now = c.now ∧ next.store = c.store := by
  refine ⟨c.request 1 m, ⟨?_, ?_, ?_⟩, ?_, ?_⟩
  · refine alone.reached.step (.cancel 1) ?_
    exact Option.bind_eq_some_iff.mpr ⟨m, alone.present, rfl⟩
  · simp only [Contest.request, unasked, Bool.false_eq_true, if_false]
    exact alone.put_members _
  · simp only [Contest.request, unasked, Bool.false_eq_true, if_false]
    exact (congrArg Tenure.written (Log.tenure_requestFacts c.log 1 m)).trans alone.written
  · simp only [Contest.request, unasked, Bool.false_eq_true, if_false]
    rfl
  · simp only [Contest.request, unasked, Bool.false_eq_true, if_false]
    rfl

theorem read {seen : Option Entry} (alone : c.Alone m written)
    (called : m.run.call? = some .get)
    (found : c.store.get? m.run.candidate.resource = seen) :
    ∃ next : Contest, next.Alone (m.after 1 (m.run.receiveRead c.now (.ok seen))) written ∧
      next.now = c.now ∧ next.store = c.store := by
  subst found
  refine ⟨c.read 1 m, ⟨?_, alone.put_members _, ?_⟩, rfl, rfl⟩
  · refine alone.reached.step (.call 1) ?_
    exact Option.bind_eq_some_iff.mpr
      ⟨m, alone.present, Option.bind_eq_some_iff.mpr ⟨.get, called, rfl⟩⟩
  · refine (written_facts _ 1 c.now m _).trans ?_
    cases c.store.get? m.run.candidate.resource with
    | none =>
        simp only [Contest.note, Option.map_none, Option.toList_none, List.append_nil]
        exact alone.written
    | some e =>
        exact (congrArg Tenure.written (Log.tenure_readFacts c.log 1 c.now (.ok (some e)))).trans
          alone.written

theorem write {w : Write} {e : Entry} {store : MemoryStore} (alone : c.Alone m written)
    (called : m.run.call? = some (.write w))
    (stored : c.store.write m.run.candidate.resource w = (.ok e, store)) :
    ∃ next : Contest, next.Alone (m.after 1 (m.run.receiveWrite c.now (.ok e))) (some c.now) ∧
      next.now = c.now ∧ next.store = store := by
  refine ⟨c.write 1 m w, ⟨?_, ?_, ?_⟩, rfl, ?_⟩
  · refine alone.reached.step (.call 1) ?_
    exact Option.bind_eq_some_iff.mpr
      ⟨m, alone.present, Option.bind_eq_some_iff.mpr ⟨.write w, called, rfl⟩⟩
  · simp only [Contest.write, stored]
    exact alone.put_members _
  · simp only [Contest.write, stored]
    refine (written_facts _ 1 c.now m _).trans ?_
    exact congrArg Tenure.written
      (Log.tenure_writeFacts c.log 1 c.now m.run.candidate.resource (.ok e))
  · simp only [Contest.write, stored]
    rfl

theorem foreign {key : String} {w : Write} {e : Entry} {store : MemoryStore}
    (alone : c.Alone m written) (stored : c.store.write key w = (.ok e, store)) :
    ∃ next : Contest, next.Alone m written ∧ next.now = c.now ∧ next.store = store := by
  let next : Contest := ⟨c.now, store, c.members, c.log ++ [.stored none c.now key e]⟩
  refine ⟨next, ⟨?_, alone.members, ?_⟩, rfl, rfl⟩
  · refine alone.reached.step (.foreign key w) ?_
    simp only [Contest.punctualStep, Contest.step, stored]
    rfl
  · exact (congrArg Tenure.written (Log.tenure_append c.log _ 1)).trans alone.written

end Contest.Alone

/-- The lease that a rival holds, for longer than two patiences of the candidate. -/
def Candidate.rival (c : Candidate) : Lease :=
  ⟨c.identity ++ "*", ⟨c.ttl.nanos + 3 * c.retryPeriod.nanos⟩, .ofUnix 0 0, .ofUnix 0 0, 0⟩

theorem rival_held (c : Candidate) : c.rival.holder ≠ "" := by
  intro empty
  have length := congrArg String.length empty
  simp [Candidate.rival] at length

theorem rival_other (c : Candidate) : c.rival.holder ≠ c.identity := by
  intro same
  have length := congrArg String.length same
  simp [Candidate.rival] at length

/-- A member whose work runs waits for its next tick, all alone, while a rival holds its lease. It
has won the lease at the beginning and never written it again. -/
structure Stalled (candidate : Candidate) (goal : Goal) (due : Instant) (c : Contest) (m : Member) :
    Prop where
  alone : c.Alone m (some 0)
  runs : m.run.candidate = candidate
  stage : m.run.stage = .waiting (goal.retimed ⟨due, candidate.retryPeriod⟩)
  free : ∀ now wall, Run.Undisturbed (m.view now wall) goal
  work : m.work = .running
  untriggered : m.triggered = false
  since : m.run.sighting.since ≤ c.now
  blocked : ∃ version, c.store.get? candidate.resource = some ⟨version, candidate.rival⟩

theorem after_reports (id : Nat) (m : Member) (next : Run) (news : Option String) :
    m.after id (next, (news.map Effect.report).toList) = { m with run := next } := by
  cases news <;> rfl

section Schedule

variable {candidate : Candidate} {goal : Goal} {due : Instant} {c : Contest} {m : Member}

theorem stalled_pass (stalled : Stalled candidate goal due c m) (later : Instant)
    (early : c.now < due) (passed : c.now ≤ later) (notLate : later ≤ due) :
    ∃ next, Stalled candidate goal due next m ∧ next.now = later := by
  have idle : m.run.act (m.view c.now (.ofUnix 0 0)) = none := by
    simp only [Run.act, stalled.stage]
    refine Run.wake_early (Run.undisturbed_retimed _ (stalled.free _ _)) ?_
    rw [Goal.ticker_retimed]
    exact early
  have noCall : m.run.call? = none := by simp only [Run.call?, stalled.stage]
  have tick : ∀ due', Contest.nextTick? m = some due' → c.now + (later - c.now) ≤ due' := by
    intro due' found
    have same : due = due' := by
      simp only [Contest.nextTick?, stalled.stage] at found
      cases goal <;> exact Option.some.inj found
    rw [← same, Nat.add_sub_cancel' passed]
    exact notLate
  have waits : Contest.canWait c.now ⟨later - c.now⟩ m = true := by
    simp only [Contest.canWait, Contest.isBusy, idle, noCall, stalled.untriggered]
    cases found : Contest.nextTick? m with
    | none => simp
    | some due' => simpa using tick due' found
  have mayPass : c.mayPass ⟨later - c.now⟩ = true := by
    simp only [Contest.mayPass, Table.values, stalled.alone.members, List.map_cons, List.map_nil,
      List.all_cons, List.all_nil, waits, Bool.and_true]
  have step : c.punctualStep (.pass ⟨later - c.now⟩) = some { c with now := later } := by
    simp only [Contest.punctualStep, if_pos mayPass, Contest.step, Nat.add_sub_cancel' passed]
  refine ⟨{ c with now := later }, ?_, rfl⟩
  exact { stalled with
    alone := { stalled.alone with reached := stalled.alone.reached.step _ step }
    since := Nat.le_trans stalled.since passed }

theorem act_of_stalled (stalled : Stalled candidate goal due c m) (onTime : c.now = due) :
    m.run.act (m.view c.now (.ofUnix 0 0)) =
      some (m.run.goTo (.reading (goal.retimed ⟨due + candidate.retryPeriod.nanos,
        candidate.retryPeriod⟩) (.ofUnix 0 0)), []) := by
  have free := Run.undisturbed_retimed ⟨due, candidate.retryPeriod⟩
    (stalled.free c.now (.ofUnix 0 0))
  simp only [Run.act, stalled.stage]
  rw [Run.wake_due free (by rw [Goal.ticker_retimed]; exact Nat.le_of_eq onTime.symm),
    Goal.ticked_retimed]
  have taken : Ticker.taken ⟨due, candidate.retryPeriod⟩ due =
      ⟨due + candidate.retryPeriod.nanos, candidate.retryPeriod⟩ := Ticker.taken_onTime rfl
  simp only [Member.view, onTime, taken]

theorem receiveRead_of_stalled (stalled : Stalled candidate goal due c m) (onTime : c.now = due)
    (young : due - goal.renewedAt < candidate.renewDeadline.nanos)
    (lasting : due < candidate.rival.duration.nanos)
    (inRange : due + candidate.rival.duration.nanos < Instant.limit) (ticker : Ticker)
    (version : Nat) :
    (m.run.goTo (.reading (goal.retimed ticker) (.ofUnix 0 0))).receiveRead due
        (.ok (some ⟨version, candidate.rival⟩)) =
      ((m.run.observe due ⟨version, candidate.rival⟩).1.goTo (.waiting (goal.retimed ticker)),
        (m.run.observe due ⟨version, candidate.rival⟩).2) := by
  have other : candidate.rival.holder ≠ m.run.candidate.identity := by
    rw [stalled.runs]
    exact rival_other candidate
  rw [Run.receiveRead_of_held rfl (rival_held candidate) other (onTime ▸ stalled.since) lasting
    inRange, Run.failed_of_young]
  · rfl
  · rw [Goal.renewedAt_retimed]
    simpa only [Run.observe, Run.goTo, stalled.runs] using young

theorem stalled_tick (stalled : Stalled candidate goal due c m) (onTime : c.now = due)
    (young : due - goal.renewedAt < candidate.renewDeadline.nanos)
    (lasting : due < candidate.rival.duration.nanos)
    (inRange : due + candidate.rival.duration.nanos < Instant.limit) :
    ∃ next m', Stalled candidate goal (due + candidate.retryPeriod.nanos) next m' ∧
      next.now = due := by
  obtain ⟨version, blocked⟩ := stalled.blocked
  have since := stalled.since
  rw [onTime] at since
  have failing := receiveRead_of_stalled stalled onTime young lasting inRange
    ⟨due + candidate.retryPeriod.nanos, candidate.retryPeriod⟩ version
  obtain ⟨reading, alone, sameNow, sameStore⟩ := stalled.alone.act (act_of_stalled stalled onTime)
  have found : reading.store.get? m.run.candidate.resource = some ⟨version, candidate.rival⟩ := by
    rw [sameStore, stalled.runs]
    exact blocked
  obtain ⟨next, alone, nextNow, nextStore⟩ := alone.read rfl found
  rw [sameNow, onTime] at nextNow alone
  simp only [Member.after_run, failing, Run.observe, after_reports] at alone
  refine ⟨next, _, {
    alone := alone
    runs := stalled.runs
    stage := rfl
    free := stalled.free
    work := stalled.work
    untriggered := stalled.untriggered
    since := by
      rw [nextNow]
      exact Sighting.since_observe_le since
    blocked := ⟨version, by rw [nextStore, sameStore]; exact blocked⟩ }, nextNow⟩

theorem stalled_cycles (ticking : 0 < candidate.retryPeriod.nanos) (count : Nat)
    (stalled : Stalled candidate goal (c.now + candidate.retryPeriod.nanos) c m)
    (young : count = 0 ∨
      c.now + count * candidate.retryPeriod.nanos - goal.renewedAt < candidate.renewDeadline.nanos)
    (lasting : c.now + count * candidate.retryPeriod.nanos < candidate.rival.duration.nanos)
    (inRange : c.now + count * candidate.retryPeriod.nanos + candidate.rival.duration.nanos <
      Instant.limit) :
    ∃ next m', Stalled candidate goal (next.now + candidate.retryPeriod.nanos) next m' ∧
      next.now = c.now + count * candidate.retryPeriod.nanos := by
  induction count with
  | zero => exact ⟨c, m, stalled, by rw [Nat.zero_mul, Nat.add_zero]⟩
  | succ count ih =>
      rw [Nat.succ_mul] at young lasting inRange ⊢
      have shorter : c.now + count * candidate.retryPeriod.nanos - goal.renewedAt <
          candidate.renewDeadline.nanos := by lia
      obtain ⟨before, m', stalled, sameTime⟩ :=
        ih (Or.inr shorter) (by lia) (by lia)
      obtain ⟨ready, stalled, onTime⟩ := stalled_pass stalled _ (by lia) (by lia) (Nat.le_refl _)
      rw [sameTime] at onTime stalled
      obtain ⟨next, m'', stalled, nextTime⟩ :=
        stalled_tick stalled onTime (by lia) (by lia) (by lia)
      refine ⟨next, m'', ?_, by rw [nextTime, Nat.add_assoc]⟩
      rw [nextTime]
      exact stalled

theorem delayed_of_inRange {now : Instant} {period : Duration}
    (inRange : now + period.nanos < Instant.limit) :
    Ticker.delayed? now period = some ⟨now + period.nanos, period⟩ := by
  simp only [Ticker.delayed?, Instant.after?, if_pos inRange, Option.map_some]

/-- A stalled leader is asked to stop, and the time for renewals starts again. -/
theorem stalled_asked {ticker : Ticker} {renewedAt : Instant}
    (stalled : Stalled candidate (.lead ticker renewedAt) due c m)
    (inRange : c.now + candidate.retryPeriod.nanos < Instant.limit) :
    ∃ next m', Stalled candidate (.windDown ticker c.now) (c.now + candidate.retryPeriod.nanos)
      next m' ∧ next.now = c.now := by
  obtain ⟨unasked, -⟩ := stalled.free c.now (.ofUnix 0 0)
  obtain ⟨asked, alone, askedNow, askedStore⟩ := stalled.alone.cancel unasked
  have heeds : m.run.act (Member.view { m with scope := true, workScope := true } asked.now
      (.ofUnix 0 0)) = some (m.run.goTo (.relieving .requested), []) := by
    simp only [Run.act, stalled.stage, Goal.retimed, Run.wake, Member.view, if_true]
  obtain ⟨heeded, alone, heededNow, heededStore⟩ := alone.act heeds
  have delayed : Ticker.delayed? heeded.now m.run.candidate.retryPeriod =
      some ⟨c.now + candidate.retryPeriod.nanos, candidate.retryPeriod⟩ := by
    rw [heededNow, askedNow, stalled.runs]
    exact delayed_of_inRange inRange
  have lingers : (m.run.goTo (.relieving .requested)).act
      (Member.view { m with
        run := m.run.goTo (.relieving .requested), scope := true, workScope := true }
        heeded.now (.ofUnix 0 0)) =
      some (m.run.goTo (.waiting (.windDown
        ⟨c.now + candidate.retryPeriod.nanos, candidate.retryPeriod⟩ heeded.now)),
        [.cancelWork]) := by
    simp only [Run.act, Run.goTo, Run.await, Member.view, delayed]
  obtain ⟨next, alone, nextNow, nextStore⟩ := alone.act lingers
  have sameNow : next.now = c.now := by rw [nextNow, heededNow, askedNow]
  obtain ⟨version, blocked⟩ := stalled.blocked
  refine ⟨next, _, {
    alone := alone
    runs := stalled.runs
    stage := by rw [← askedNow, ← heededNow]; rfl
    free := fun now wall result finished => ?_
    work := stalled.work
    untriggered := stalled.untriggered
    since := by
      rw [sameNow]
      exact stalled.since
    blocked := ⟨version, by rw [nextStore, heededStore, askedStore]; exact blocked⟩ }, sameNow⟩
  cases stalled.work.symm.trans finished

/-- A lone run wins its lease at the first instant, and a rival writes the lease at once. -/
theorem stalled_start (candidate : Candidate) (ticking : 0 < candidate.retryPeriod.nanos)
    (inRange : candidate.retryPeriod.nanos < Instant.limit) :
    ∃ c m, Stalled candidate (.lead ⟨0, candidate.retryPeriod⟩ 0) candidate.retryPeriod.nanos c m ∧
      c.now = 0 := by
  let m : Member := { run := .start candidate 0 }
  let ticker : Ticker := ⟨candidate.retryPeriod.nanos, candidate.retryPeriod⟩
  let entry : Entry := ⟨1, candidate.firstLease (.ofUnix 0 0)⟩
  have alone : Contest.Alone ⟨0, Table.empty, ⟨[(1, m)]⟩, [.started 1]⟩ m none :=
    ⟨⟨[.start 1 candidate], rfl⟩, rfl, rfl⟩
  -- It begins, takes its first tick at once and finds no lease.
  have moving : candidate.retryPeriod.nanos ≠ 0 := Nat.pos_iff_ne_zero.mp ticking
  have begins : m.run.act (m.view 0 (.ofUnix 0 0)) = some (m.run.goTo (.waiting (.acquire
      (.immediate 0 candidate.retryPeriod))), [.publish .acquiring]) := by
    simp [m, Run.act, Run.start, moving, Member.view]
  obtain ⟨begun, alone, begunNow, begunStore⟩ := alone.act begins
  have tries : (m.run.goTo (.waiting (.acquire (.immediate 0 candidate.retryPeriod)))).act
      (m.view begun.now (.ofUnix 0 0)) =
      some (m.run.goTo (.reading (.acquire ticker) (.ofUnix 0 0)), []) := by
    rw [begunNow]
    simp [m, ticker, Run.act, Run.goTo, Run.wake, Run.tick, Member.view, Ticker.immediate,
      Ticker.isDue, Ticker.taken]
  obtain ⟨tried, alone, triedNow, triedStore⟩ := alone.act tries
  have absent : tried.store.get? candidate.resource = none := by
    rw [triedStore, begunStore]
    rfl
  obtain ⟨asked, alone, askedNow, askedStore⟩ := alone.read rfl absent
  -- It writes the first lease and leads.
  have created :
      asked.store.write candidate.resource (.create (candidate.firstLease (.ofUnix 0 0))) =
        (.ok entry, asked.store.put candidate.resource entry) := by
    have absent : asked.store.get? candidate.resource = none := by
      rw [askedStore]
      exact absent
    simp only [MemoryStore.write, MemoryStore.create, absent, entry]
  have atOnce : asked.now = 0 := by rw [askedNow, triedNow, begunNow]
  obtain ⟨won, alone, wonNow, wonStore⟩ := alone.write rfl created
  rw [atOnce] at alone wonNow
  let elected : Run := ⟨candidate, (Sighting.start 0).observe 0 entry, .elected⟩
  have alone : won.Alone { m with run := elected } (some 0) := by
    have reports := after_reports 1 { m with run := m.run.goTo (.writing (.acquire ticker)
      (.create (candidate.firstLease (.ofUnix 0 0)))) } elected ((Sighting.start 0).news entry)
    exact reports ▸ alone
  have proclaims : elected.act (Member.view { m with run := elected } won.now (.ofUnix 0 0)) =
      some (elected.goTo .installing, [.publish .leading]) := rfl
  obtain ⟨leading, alone, leadingNow, leadingStore⟩ := alone.act proclaims
  rw [wonNow] at leadingNow
  have installs : (elected.goTo .installing).act
      (Member.view { m with run := elected.goTo .installing } leading.now (.ofUnix 0 0)) =
      some (elected.goTo (.waiting (.lead ticker 0)), [.startWork]) := by
    have delayed : Ticker.delayed? 0 candidate.retryPeriod = some ticker := by
      rw [delayed_of_inRange (by rw [Nat.zero_add]; exact inRange), Nat.zero_add]
    simp only [Run.act, Run.goTo, Run.await, Member.view, leadingNow, elected, delayed]
  obtain ⟨led, alone, ledNow, ledStore⟩ := alone.act installs
  rw [leadingNow] at ledNow
  -- The rival's write follows.
  have held : led.store.get? candidate.resource = some entry := by
    rw [ledStore, leadingStore, wonStore]
    exact Table.get?_put_self _ _ _
  have updated : led.store.write candidate.resource (.update 1 candidate.rival) =
      (.ok ⟨2, candidate.rival⟩, led.store.put candidate.resource ⟨2, candidate.rival⟩) := by
    simp only [MemoryStore.write, MemoryStore.update, held]
    rfl
  obtain ⟨next, alone, nextNow, nextStore⟩ := alone.foreign updated
  rw [ledNow] at nextNow
  refine ⟨next, _, {
    alone := alone
    runs := rfl
    stage := rfl
    free := fun now wall => ⟨rfl, fun result finished => ?_⟩
    work := rfl
    untriggered := rfl
    since := ?_
    blocked := ⟨2, by rw [nextStore]; exact Table.get?_put_self _ _ _⟩ }, nextNow⟩
  · cases finished
  · exact Nat.le_trans (Sighting.since_observe_le (Nat.le_refl 0)) (Nat.zero_le _)

end Schedule

end LeaderLease
